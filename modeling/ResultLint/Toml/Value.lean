import ResultLint.Number.Binary64

/-!
# TOML values

A date or time is kept as its text.  The keys of a table are distinct, in the order in which they
were given.
-/

namespace ResultLint.Toml

inductive Value where
  | string (s : String)
  | integer (i : Int)
  | float (x : Binary64)
  | boolean (b : Bool)
  | date (text : String)
  | array (items : List Value)
  | table (fields : List (String × Value))
deriving Repr, Inhabited

end ResultLint.Toml
