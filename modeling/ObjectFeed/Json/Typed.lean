import ObjectFeed.Json.Reader

/-!
# Reading JSON texts of a known shape

Readers that know which type of value they expect, and that say what they found instead.

* `integer`, `text`, `flag`, `optional`, `oneOf`: readers of single values.
* `Member`, `record`: records, as an object with the fields in any order or as a list of the
  fields in their order; fields that are missing keep their value.
-/

namespace ObjectFeed.Json.Reader

/-- Fails on the value at the cursor, which has another type than expected. -/
def wrongType {α : Type} (limit : Nat) (expected : String) : Reader α := do
  match ← peek with
  | some 'n' => skip; expectWord ['u', 'l', 'l']; fail (.wrongType .null expected)
  | some 't' => skip; expectWord ['r', 'u', 'e']; fail (.wrongType (.bool true) expected)
  | some 'f' => skip; expectWord ['a', 'l', 's', 'e']; fail (.wrongType (.bool false) expected)
  | some '-' =>
    skip
    let n ← number limit true
    fail (.wrongType (.number n) expected)
  | some '"' =>
    skip
    let s ← string limit
    fail (.wrongType (.string s) expected)
  | some '[' => fail (.wrongType .array expected)
  | some '{' => fail (.wrongType .object expected)
  | some c =>
    if c.isDigit then
      let n ← number limit false
      fail (.wrongType (.number n) expected)
    else failAhead .valueExpected
  | none => fail .valueEnds

/-- The number, if it is an integer from `lo` to `hi`. -/
def inRange (lo hi : Int) (expected : String) : Number → Reader Int
  | .int n => if lo ≤ n ∧ n ≤ hi then pure n else fail (.wrongValue n expected)
  | .float x => fail (.wrongType (.number (.float x)) expected)

/-- An integer from `lo` to `hi`. -/
def integer (limit : Nat) (lo hi : Int) (expected : String) : Reader Int := do
  match ← skipBlank with
  | none => fail .valueEnds
  | some '-' =>
    skip
    inRange lo hi expected (← number limit true)
  | some c =>
    if c.isDigit then inRange lo hi expected (← number limit false)
    else wrongType limit expected

/-- A string. -/
def text (limit : Nat) (expected : String) : Reader String := do
  match ← skipBlank with
  | none => fail .valueEnds
  | some '"' => skip; string limit
  | some _ => wrongType limit expected

/-- A truth value. -/
def flag (limit : Nat) : Reader Bool := do
  match ← skipBlank with
  | none => fail .valueEnds
  | some 't' => skip; expectWord ['r', 'u', 'e']; pure true
  | some 'f' => skip; expectWord ['a', 'l', 's', 'e']; pure false
  | some _ => wrongType limit "a boolean"

/-- Null. -/
def unit (limit : Nat) : Reader Unit := do
  match ← skipBlank with
  | none => fail .valueEnds
  | some 'n' => skip; expectWord ['u', 'l', 'l']
  | some _ => wrongType limit "unit"

/-- A value or null. -/
def optional {α : Type} (r : Reader α) : Reader (Option α) := do
  match ← skipBlank with
  | some 'n' => skip; expectWord ['u', 'l', 'l']; pure none
  | _ => return some (← r)

/-- A string that names one of the choices. -/
def choiceName {α : Type} (limit : Nat) (cs : List (String × α)) : Reader α := do
  let s ← text limit "variant identifier"
  match Members.get? s cs with
  | some x => pure x
  | none => fail (.unknownName s (cs.map (·.1)))

/-- One of the choices, by its name or as an object with the name as the key of null. -/
def oneOf {α : Type} (limit : Nat) (cs : List (String × α)) : Reader α := do
  match ← skipBlank with
  | none => fail .valueEnds
  | some '"' => choiceName limit cs
  | some '{' =>
    skip
    let x ← choiceName limit cs
    colon
    unit limit
    match ← skipBlank with
    | none => fail .objectEnds
    | some '}' => skip; pure x
    | some _ => fail .valueExpected
  | some _ => failAhead .valueExpected

/-- A field of the records of a type: its name, and the reader that sets it. -/
structure Member (σ : Type) where
  name : String
  set : σ → Reader σ

/-- The fields of a list in their order, up to its end or past the last field. -/
def positional {σ : Type} : List (Member σ) → (first : Bool) → σ → Reader σ
  | [], _, s => pure s
  | f :: fs, first, s => do
    if ← hasElement first then positional fs false (← f.set s)
    else pure s

/-- Fails on a repeated field, at what follows its name. -/
def repeated {α : Type} (name : String) : Reader α := do
  match ← skipBlank with
  | some '}' => skip; fail (.repeatedField name)
  | _ => fail (.repeatedField name)

/-- The members of an object up to its end; unknown ones are passed over. -/
def named {σ : Type} (limit : Nat) (fs : List (Member σ)) :
    (rounds : Nat) → (first : Bool) → (seen : List String) → σ → Reader σ
  | 0, _, _, s => pure s
  | rounds + 1, first, seen, s => do
    if ← hasKey first then
      skip
      let k ← string limit
      match fs.find? (·.name == k) with
      | none =>
        colon
        skipValue limit
        named limit fs rounds false seen s
      | some f =>
        if k ∈ seen then repeated k
        else
          colon
          named limit fs rounds false (k :: seen) (← f.set s)
    else pure s

/-- A record, whose missing fields are those of `s`. -/
def record {σ : Type} (limit : Nat) (expected : String) (fs : List (Member σ)) (s : σ) :
    Reader σ := do
  match ← skipBlank with
  | none => fail .valueEnds
  | some '[' =>
    skip
    let s ← positional fs true s
    endList
    pure s
  | some '{' =>
    skip
    let s ← named limit fs (limit + 1) true [] s
    endObject
    pure s
  | some _ => wrongType limit expected

end ObjectFeed.Json.Reader
