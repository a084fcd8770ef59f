import ObjectFeed.Config.Error
import ObjectFeed.Text.Blank
import ObjectFeed.Text.DecimalDigit
import ObjectFeed.Text.Numeral

/-!
# Templates of object keys

A template such as `{{topic}}-{{partition}}` is a sequence of literals and fields. A key matches
if it is the literals in their order with a text for every field. Of several ways to cut it, the
one with the shortest topic counts, then the one with the longest partition or offset, from left
to right.

* `Template.compile`: the pieces of a template, or the first placeholder at fault.
* `Template.cut?`: the texts of the fields in the preferred way to cut a key.
* `Template.match?`: the fields of a key.
-/

namespace ObjectFeed

/-- The fields of a key. -/
inductive TemplateField where
  | topic
  | partition
  | offset
deriving DecidableEq, Repr

namespace TemplateField

/-- The name of a field in a placeholder. -/
def name : TemplateField → String
  | .topic => "topic"
  | .partition => "partition"
  | .offset => "start_offset"

/-- The field with a name. -/
def ofName? (s : String) : Option TemplateField :=
  [TemplateField.topic, .partition, .offset].find? (·.name == s)

/-- The characters of a field's text. -/
def admits (f : TemplateField) (c : Char) : Bool :=
  match f with
  | .partition => Text.isDecimalDigit c
  | _ => c.isAlphanum || c == '-' || c == '_' || c == '.'

/-- Short texts are preferred to long ones. -/
def isShort (f : TemplateField) : Bool := f == .topic

end TemplateField

/-- A part of a template. -/
inductive TemplatePiece where
  | literal (text : List Char)
  | field (f : TemplateField)
deriving DecidableEq, Repr

/-- A template that can be matched, with its source. -/
structure Template where
  source : String
  pieces : List TemplatePiece
deriving DecidableEq, Repr

/-- The fields of a key that a template found. -/
structure TemplateMatch where
  topic : Option String := none
  partition : Option UInt32 := none
  offset : Option String := none
deriving DecidableEq, Repr

namespace Template

/-- The texts before and after the first pair of a character. -/
def splitPair (a : Char) : List Char → Option (List Char × List Char)
  | [] => none
  | [_] => none
  | x :: y :: cs =>
    if x = a ∧ y = a then some ([], cs)
    else (splitPair a (y :: cs)).map fun (before, after) => (x :: before, after)

theorem length_of_splitPair {a : Char} {cs before after : List Char}
    (h : splitPair a cs = some (before, after)) :
    cs.length = before.length + after.length + 2 := by
  fun_induction splitPair a cs generalizing before with
  | case1 => simp at h
  | case2 => simp at h
  | case3 x y cs => simp only [Option.some.injEq, Prod.mk.injEq] at h; simp [← h.1, ← h.2]
  | case4 x y cs _ ih =>
    obtain ⟨⟨b, r⟩, hb, he⟩ := Option.map_eq_some_iff.1 h
    simp only [Prod.mk.injEq] at he
    obtain ⟨rfl, rfl⟩ := he
    have := ih hb
    simp only [List.length_cons] at this ⊢
    omega

/-- The pieces of the rest of a template, after placeholders for the fields `seen`. -/
def scan (template : String) (seen : List TemplateField) (rest : List Char) :
    Except ConfigError (List TemplatePiece) :=
  match _h : splitPair '{' rest with
  | none => .ok [.literal rest]
  | some (literal, after) =>
    match _h' : splitPair '}' after with
    | none => .error (.openPlaceholder template)
    | some (inner, rest') =>
      let name := String.ofList (Text.trim inner)
      match TemplateField.ofName? name with
      | none => .error (.unknownPlaceholder name template)
      | some f =>
        if f ∈ seen then .error (.repeatedPlaceholder name template)
        else do
          let pieces ← scan template (f :: seen) rest'
          .ok (.literal literal :: .field f :: pieces)
termination_by rest.length
decreasing_by
  have := length_of_splitPair _h
  have := length_of_splitPair _h'
  omega

/-- The template that a text spells. -/
def compile (template : String) : Except ConfigError Template :=
  (scan template [] template.toList).map fun pieces => ⟨template, pieces⟩

/-- What may be left after a non-empty text of a field, the longest rest first. -/
def rests (f : TemplateField) : List Char → List (List Char)
  | [] => []
  | c :: cs => if f.admits c then cs :: rests f cs else []

/-- What may be left after a text of a field, the preferred rests first. -/
def preferredRests (f : TemplateField) (cs : List Char) : List (List Char) :=
  if f.isShort then rests f cs else (rests f cs).reverse

/-- The text before a rest of `cs`. -/
def before (cs rest : List Char) : List Char := cs.take (cs.length - rest.length)

/-- The rest of a text after another one that it starts with. -/
def dropLiteral : (literal cs : List Char) → Option (List Char)
  | [], cs => some cs
  | _ :: _, [] => none
  | l :: ls, c :: cs => if l = c then dropLiteral ls cs else none

/-- The texts of the fields in the preferred way to cut a key. -/
def cut? : List TemplatePiece → List Char → Option (List (TemplateField × List Char))
  | [], [] => some []
  | [], _ :: _ => none
  | .literal l :: ps, cs => (dropLiteral l cs).bind (cut? ps)
  | .field f :: ps, cs =>
    (preferredRests f cs).findSome? fun rest =>
      (cut? ps rest).map ((f, before cs rest) :: ·)

/-- The text of a field in a cut. -/
def fieldText (f : TemplateField) (fields : List (TemplateField × List Char)) :
    Option (List Char) := (fields.find? (·.1 == f)).map (·.2)

/-- The fields of a key, unless it does not fit, or its partition is no 32-bit number. -/
def match? (t : Template) (key : String) : Option TemplateMatch := do
  let fields ← cut? t.pieces key.toList
  let partition ← match fieldText .partition fields with
    | none => some none
    | some cs => ((Text.digits? cs).filter (· < pow2 32)).map fun n => some n.toUInt32
  return {
    topic := (fieldText .topic fields).map String.ofList
    partition
    offset := (fieldText .offset fields).map String.ofList }

end Template

end ObjectFeed
