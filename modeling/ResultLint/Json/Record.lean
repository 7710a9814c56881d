import ResultLint.Json.Basic

/-!
# Fields and entries of JSON values

A record with named fields is an object, or an array of the fields in their declared order.  In an
object, fields of other names are passed over; in an array, fields at the end may be missing.  A
field that is read stands at most once.  A name chosen from a list is a string, or an object with
that one field and nothing in it.
-/

namespace ResultLint

/-- The values that are given under a name. -/
abbrev Record := String → List Json

namespace Json

def text : Json → Option String
  | string s => some s
  | _ => none

def flag : Json → Option Bool
  | bool b => some b
  | _ => none

/-- A natural number below a bound. -/
def natural (bound : Nat) : Json → Option Nat
  | integer i => if 0 ≤ i ∧ i < bound then some i.toNat else none
  | _ => none

/-- A list each of whose items can be read. -/
def list {α : Type} (read : Json → Option α) : Json → Option (List α)
  | array items => items.mapM read
  | _ => none

/-- A value or `null`. -/
def nullable {α : Type} (read : Json → Option α) : Json → Option (Option α)
  | null => some none
  | json => (read json).map some

def values (fields : List (String × Json)) : Record := fun name =>
  (fields.filter (·.1 = name)).map (·.2)

/-- The record with these fields, in this order, that a value stands for. -/
def record (names : List String) : Json → Option Record
  | object fields => some (values fields)
  | array items => if items.length ≤ names.length then some (values (names.zip items)) else none
  | _ => none

/-- The field of an object that has no other. -/
def entry : Json → Option (String × Json)
  | object [field] => some field
  | _ => none

/-- A name that is chosen from a list. -/
def choice : Json → Option String
  | string s => some s
  | object [(s, null)] => some s
  | object [(s, object [])] => some s
  | _ => none

end Json

namespace Record

variable {α : Type}

def required (r : Record) (name : String) (read : Json → Option α) : Option α :=
  match r name with
  | [json] => read json
  | _ => none

/-- A field with a default, which `null` does not stand for. -/
def defaulted (r : Record) (name : String) (read : Json → Option α) (default : α) : Option α :=
  match r name with
  | [] => some default
  | [json] => read json
  | _ => none

/-- A field that may be missing or `null`. -/
def optional (r : Record) (name : String) (read : Json → Option α) : Option (Option α) :=
  match r name with
  | [] => some none
  | [json] => json.nullable read
  | _ => none

end Record

end ResultLint
