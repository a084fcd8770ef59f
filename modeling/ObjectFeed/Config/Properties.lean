import ObjectFeed.Config.Error
import ObjectFeed.Dict
import ObjectFeed.Text.Blank
import ObjectFeed.Text.Numeral

/-!
# Configuration from flat properties

Each setting has its own option, a text without the blanks around it. A blank option counts as
absent. Numbers and truth values that cannot be read have their defaults; only an unknown format
or an unknown tolerance is an error.

* `Format.ofText`, `Tolerance.ofText`: choices by name, whatever the case.
* `FeedConfig.ofProperties`: the settings that options give.
-/

namespace ObjectFeed

/-- A text with the ASCII capitals replaced by small letters. -/
def Text.lowered (s : String) : String := String.ofList (s.toList.map Char.toLower)

/-- The format that a text names. -/
def Format.ofText (s : String) : Except ConfigError Format :=
  let name := Text.lowered (Text.trimmed s)
  match ofName? name with
  | some f => .ok f
  | none => .error (.unknownFormat name)

/-- The tolerance that a text names. -/
def Tolerance.ofText (s : String) : Except ConfigError Tolerance :=
  let name := Text.lowered (Text.trimmed s)
  match ofName? name with
  | .some t => .ok t
  | .none => .error (.unknownTolerance name)

namespace FeedConfig

/-- The value of an option, unless it is blank. -/
def option (p : Dict String) (name : String) : Option String :=
  ((p.get? name).map Text.trimmed).filter (· ≠ "")

/-- The value of an option that a reader accepts. -/
def optionAs {α : Type} (read : String → Option α) (p : Dict String) (name : String) : Option α :=
  (option p name).bind read

/-- A truth value. -/
def flag? (s : String) : Option Bool :=
  if s = "true" then some true else if s = "false" then some false else none

/-- The choice that an option makes, or the default. -/
def choice {α : Type} (read : String → Except ConfigError α) (default : α) (p : Dict String)
    (name : String) : Except ConfigError α :=
  match option p name with
  | none => .ok default
  | some s => read s

/-- The settings that options give. -/
def ofProperties (p : Dict String) : Except ConfigError FeedConfig := do
  let base : FeedConfig := {}
  let natural (bits : Nat) := optionAs (Text.natural? (pow2 bits)) p
  let word (name : String) := (optionAs (Text.integer? (pow2 63)) p name).map Int64.ofInt
  let format ← choice Format.ofText base.format p "input.format"
  let tolerance ← choice Tolerance.ofText base.tolerance p "errors.tolerance"
  return {
    bucket := (option p "bucket").getD base.bucket
    keyPrefix := option p "prefix"
    fetchPageSize := ((natural 32 "fetch.page.size").map Nat.toUInt32).getD base.fetchPageSize
    taskId := word "task.id"
    maxTasks := word "tasks.max"
    format
    decoder := {
      chunkSize := ((natural 64 "max.buffer.size").map Nat.toUInt64).getD base.decoder.chunkSize
      envelopes := (optionAs flag? p "schemas.enable").getD base.decoder.envelopes
      scratch := option p "temp.dir" }
    tolerance
    template := (option p "file.name.template").getD base.template
    topic := option p "topic"
    maxPollRecords :=
      ((natural 64 "max.poll.records").map Nat.toUInt64).getD base.maxPollRecords }

end FeedConfig

end ObjectFeed
