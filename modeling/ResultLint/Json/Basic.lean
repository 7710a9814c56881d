import ResultLint.Number.Binary64

/-!
# JSON values

A value keeps the fields of an object in the order of the text, a field given twice included, and
tells integers from other numbers.  A few texts are well formed but stand for nothing: a number
beyond the finite ones, a string with half of a surrogate pair, an object with such a name, and what
is nested too deeply.  They are kept as `unusable`, since a reader may still skip them; `Json.sound`
says that a value holds none.
-/

namespace ResultLint

inductive Json where
  | null
  | bool (b : Bool)
  | integer (i : Int)
  | float (x : Binary64)
  | string (s : String)
  | array (items : List Json)
  | object (fields : List (String × Json))
  | unusable
deriving Repr, Inhabited

namespace Json

mutual

/-- Nothing in the value is unusable. -/
def sound : Json → Bool
  | unusable => false
  | array items => soundItems items
  | object fields => soundFields fields
  | _ => true

@[inherit_doc sound]
def soundItems : List Json → Bool
  | [] => true
  | item :: rest => item.sound && soundItems rest

@[inherit_doc sound]
def soundFields : List (String × Json) → Bool
  | [] => true
  | (_, value) :: rest => value.sound && soundFields rest

end

def ofNat (n : Nat) : Json := integer n

def ofOption {α : Type} (f : α → Json) : Option α → Json
  | none => null
  | some a => f a

def ofList {α : Type} (f : α → Json) (as : List α) : Json := array (as.map f)

end Json

end ResultLint
