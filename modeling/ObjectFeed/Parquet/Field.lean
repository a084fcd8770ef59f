import ObjectFeed.Parquet.Column
import ObjectFeed.Parquet.Hint
import ObjectFeed.Parquet.Kind.Json

/-!
# Fields of rows

What the nodes of a schema mean for rows: columns hold values, and groups are records, lists or
maps. From the entries that the columns have for one row a field is put together again. A schema
that is nested deeper than `Field.maxDepth` has no fields.

* `Field.ofNodes?`: the fields of a schema with hints.
* `Field.assemble`: the JSON form of a field in one row.
* `Field.hasForm`: all values of the field have JSON forms.
-/

namespace ObjectFeed.Parquet

/-- A part of a row. Levels say from where on a record or a list is there, and from where on a list
has elements, which begin at a level of repetition. -/
inductive Field where
  | leaf (column : ColumnType) (kind : Kind)
  | record (isOptional : Bool) (defined : Nat) (members : List (String × Field))
  | list (isOptional : Bool) (defined repeats : Nat) (item : Field)
  | map (isOptional : Bool) (defined repeats : Nat) (key value : Field)

namespace Field

/-- The levels of a node's parents, and the hint for the node. -/
structure Context where
  defined : Nat
  repeats : Nat
  hint : Option Hint

namespace Context

/-- The levels of a node that occurs in its parent as given. -/
def enter (c : Context) : Repetition → Context
  | .required => c
  | .optional => { c with defined := c.defined + 1 }
  | .repeated => { c with defined := c.defined + 1, repeats := c.repeats + 1 }

end Context

/-- A field that is repeated by itself is a list. -/
def repeatedIf (r : Repetition) (c : Context) (f : Field) : Field :=
  if r = .repeated then .list false c.defined c.repeats f else f

/-- A list that is there or not as its own group is. -/
def withOptional (isOptional : Bool) : Field → Field
  | .list _ defined repeats item => .list isOptional defined repeats item
  | f => f

/-- The field of a column. -/
def ofLeaf? (i : NodeInfo) (p : Physical) (precision scale : Int) (c : Context) : Option Field := do
  let kind ← Kind.ofColumn? i p precision scale
  let kind := match c.hint with
    | some (.kind hint) => kind.hinted hint
    | _ => kind
  let inner := c.enter i.repetition
  let column : ColumnType :=
    { type := p, maxDefined := inner.defined, maxRepeats := inner.repeats, isText := kind = .text }
  return repeatedIf i.repetition inner (.leaf column kind)

/-- The hints for the members of a record, one for each. -/
def memberHints? (names : List String) : Option Hint → Option (List (Option Hint))
  | none => some (names.map fun _ => none)
  | some (.group fields) =>
    if fields.map (·.1) = names then some (fields.map fun f => some f.2) else none
  | some _ => none

/-- The hint for the elements of a list. -/
def itemHint? : Option Hint → Option (Option Hint)
  | none => some none
  | some (.list item) => some (some item)
  | some _ => none

/-- The hints for the keys and the values of a map. -/
def entryHints? : Option Hint → Option (Option Hint × Option Hint)
  | none => some (none, none)
  | some (.map key value) => some (some key, some value)
  | some _ => none

/-- How a group is to be understood. -/
inductive Shape where
  | record
  | list
  | map
deriving DecidableEq

/-- The meaning of a group; the older notation counts if it is there. -/
def shape (i : NodeInfo) : Shape :=
  match i.converted, i.logical with
  | some .list, _ | none, some .list => .list
  | some .map, _ | some .mapKeyValue, _ | none, some .map => .map
  | _, _ => .record

/-- The repeated node of a list is itself the element if it has several members, or by its name. -/
def isElement (list : NodeInfo) (i : NodeInfo) (items : List Node) : Bool :=
  match items with
  | [item] =>
    shape i ≠ .list && item.info.repetition ≠ .repeated &&
      (i.name = "array" || i.name = list.name ++ "_tuple")
  | _ => true

mutual

/-- The field of a node; `depth` bounds the nesting. -/
def ofNode? : (depth : Nat) → Node → Context → Option Field
  | 0, _, _ => none
  | _ + 1, .leaf i p precision scale, c => ofLeaf? i p precision scale c
  | depth + 1, .group i cs, c =>
    match shape i with
    | .record => ofRecord? depth i cs c
    | .list => ofList? depth i cs c
    | .map => ofMap? depth i cs c

/-- The field of a group of members. -/
def ofRecord? : (depth : Nat) → NodeInfo → List Node → Context → Option Field
  | 0, _, _, _ => none
  | depth + 1, i, cs, c => do
    let inner := c.enter i.repetition
    let hints ← memberHints? (cs.map Node.name) c.hint
    let members ← (cs.zip hints).mapM fun (n, hint) => do
      return (n.name, ← ofNode? depth n { inner with hint })
    let record := Field.record (i.repetition = .optional) inner.defined members
    return repeatedIf i.repetition inner record

/-- The field of a list. -/
def ofList? : (depth : Nat) → NodeInfo → List Node → Context → Option Field
  | 0, _, _, _ => none
  | depth + 1, i, cs, c => do
    let hint ← itemHint? c.hint
    let inner := { c.enter i.repetition with hint }
    let isOptional := i.repetition = .optional
    if i.repetition = .repeated then none
    else
      match cs with
      | [.leaf j p precision scale] =>
        if j.repetition ≠ .repeated then none
        else return (← ofLeaf? j p precision scale inner).withOptional isOptional
      | [.group j items] =>
        if j.repetition ≠ .repeated then none
        else if isElement i j items then
          return (← ofRecord? depth j items inner).withOptional isOptional
        else
          match items with
          | [item] =>
            let within := inner.enter .repeated
            return .list isOptional within.defined within.repeats (← ofNode? depth item within)
          | _ => none
      | _ => none

/-- The field of a map. -/
def ofMap? : (depth : Nat) → NodeInfo → List Node → Context → Option Field
  | 0, _, _, _ => none
  | depth + 1, i, cs, c => do
    match cs with
    | [.group j [key, value]] =>
      let (keyHint, valueHint) ← entryHints? c.hint
      let inner := (c.enter i.repetition).enter .repeated
      let isBad := i.repetition = .repeated || j.repetition ≠ .repeated ||
        key.info.repetition = .repeated || value.info.repetition = .repeated
      if isBad then none
      else
        let k ← ofNode? depth key { inner with hint := keyHint }
        let v ← ofNode? depth value { inner with hint := valueHint }
        return .map (i.repetition = .optional) inner.defined inner.repeats k v
    | [.group _ [_]] => ofList? depth i cs c
    | _ => none

end

/-- The deepest nesting of a schema that is read. -/
def maxDepth : Nat := 200

/-- The fields of the nodes below the root, with hints for them if there are any. -/
def ofNodes? (nodes : List Node) (hints : Option (List (String × Hint))) :
    Option (List (String × Field)) := do
  let hints ← memberHints? (nodes.map Node.name) (hints.map .group)
  (nodes.zip hints).mapM fun (n, hint) => do
    return (n.name, ← ofNode? maxDepth n { defined := 0, repeats := 0, hint })

mutual

/-- The columns of a field. -/
def columns : Field → List ColumnType
  | .leaf column _ => [column]
  | .record _ _ members => columnsOf members
  | .list _ _ _ item => item.columns
  | .map _ _ _ key value => key.columns ++ value.columns

/-- The columns of members. -/
def columnsOf : List (String × Field) → List ColumnType
  | [] => []
  | (_, f) :: fs => f.columns ++ columnsOf fs

end

mutual

/-- Every value of the field has a JSON form; the keys of maps must be texts. -/
def hasForm : Field → Bool
  | .leaf _ kind => kind.hasForm
  | .record _ _ members => haveForms members
  | .list _ _ _ item => item.hasForm
  | .map _ _ _ key value =>
    (match key with
      | .leaf _ kind => kind = .text
      | _ => false) && value.hasForm

/-- Every value of the members has a JSON form. -/
def haveForms : List (String × Field) → Bool
  | [] => true
  | (_, f) :: fs => f.hasForm && haveForms fs

end

/-- The entries of a row, column by column. -/
abbrev Entries := List (List Entry)

/-- The entries of the elements of a list, which begin at a level of repetition. -/
def elements (repeats : Nat) (es : Entries) : List Entries :=
  let parts := es.map (Column.split repeats)
  match parts with
  | [] => []
  | p :: _ => (List.range p.length).map fun i => parts.map fun q => q.getD i []

/-- The level up to which the first of the entries is there. -/
def level (es : Entries) : Nat := ((es.head?.bind List.head?).map Entry.defined).getD 0

/-- A value as an element of a list, where a missing one is null. -/
def element (v : Option Json) : Json := v.getD .null

/-- A value as a member, which is left out if it is missing. -/
def member (k : String) (v : Option Json) : List (String × Json) :=
  match v with
  | some v => [(k, v)]
  | none => []

mutual

/-- The JSON form of a field from the entries of its columns, or nothing where it is missing. -/
def assemble : Field → Entries → Option (Option Json)
  | .leaf column kind, es =>
    match (es.head?.bind List.head?).bind Entry.value with
    | some v => if kind = .null then some none else (kind.json? column.type v).map some
    | none => some none
  | .record isOptional defined members, es =>
    if isOptional ∧ level es < defined then some none
    else (assembleMembers members es).map fun ms => some (.ofMembers ms)
  | .list isOptional defined repeats item, es =>
    if isOptional ∧ level es + 1 < defined then some none
    else if level es < defined then some (some (.array []))
    else do
      let items ← (elements repeats es).mapM fun es => assemble item es
      return some (.array (items.map element))
  | .map isOptional defined repeats key value, es =>
    if isOptional ∧ level es + 1 < defined then some none
    else if level es < defined then some (some (.object []))
    else do
      let n := key.columns.length
      let members ← (elements repeats es).mapM fun es => do
        let k ← (← assemble key (es.take n)).bind Json.text?
        return member k (← assemble value (es.drop n))
      return some (.ofMembers members.flatten)

/-- The JSON forms of members from the entries of their columns. -/
def assembleMembers : List (String × Field) → Entries → Option (List (String × Json))
  | [], _ => some []
  | (k, f) :: fs, es => do
    let n := f.columns.length
    let v ← assemble f (es.take n)
    return member k v ++ (← assembleMembers fs (es.drop n))

end

end Field

end ObjectFeed.Parquet
