import ObjectFeed.Config

/-!
# Configuration errors

Why a configuration is refused.

* `ConfigError`: the causes; `ConfigError.message`: their wording.
-/

namespace ObjectFeed

/-- The causes for which a configuration is refused. -/
inductive ConfigError where
  | unknownFormat (name : String)
  | unknownTolerance (name : String)
  | noChunkSize
  | openPlaceholder (template : String)
  | unknownPlaceholder (name template : String)
  | repeatedPlaceholder (name template : String)
deriving DecidableEq, Repr

/-- The wording of a cause. -/
def ConfigError.message : ConfigError → String
  | .unknownFormat name => "unknown input format '" ++ name ++ "'"
  | .unknownTolerance name =>
    "unknown errors.tolerance '" ++ name ++ "', expected 'none' or 'all'"
  | .noChunkSize => "max buffer size must be positive"
  | .openPlaceholder template => "unterminated placeholder in template '" ++ template ++ "'"
  | .unknownPlaceholder name template =>
    "unknown placeholder '\x7b\x7b" ++ name ++ "\x7d\x7d' in template '" ++ template ++ "'"
  | .repeatedPlaceholder name template =>
    "placeholder '\x7b\x7b" ++ name ++ "\x7d\x7d' repeated in template '" ++ template ++ "'"

end ObjectFeed
