import ResultLint.Toml.Value

/-!
# Tables in the making

A table comes about in one of three ways: by its own header, by a header or a dotted key further
inside it, or as a value.  How it came about decides what may still be added.  A header may open a
table that only headers further inside have implied; a dotted key may add to tables that dotted keys
have made; a value is closed.
-/

namespace ResultLint.Toml

/-- What stands under a key.  A table is `implied` until it has a header, and `dotted` if a dotted
key made it.  An array of tables holds the fields of each. -/
inductive Item where
  | value (v : Value)
  | table (implied dotted : Bool) (fields : List (String × Item))
  | tables (elements : List (List (String × Item)))

structure Table where
  implied : Bool := false
  dotted : Bool := false
  fields : List (String × Item) := []

namespace Item

mutual

/-- The finished value. -/
def toValue : Item → Value
  | value v => v
  | table _ _ fields => .table (fieldValues fields)
  | tables elements => .array (elementValues elements)

@[inherit_doc toValue]
def fieldValues : List (String × Item) → List (String × Value)
  | [] => []
  | (key, item) :: rest => (key, item.toValue) :: fieldValues rest

@[inherit_doc toValue]
def elementValues : List (List (String × Item)) → List Value
  | [] => []
  | fields :: rest => .table (fieldValues fields) :: elementValues rest

end

end Item

namespace Table

def get? (t : Table) (key : String) : Option Item := (t.fields.find? (·.1 = key)).map (·.2)

/-- Puts an item under a key, in place of what stands there or else at the end. -/
def putField (key : String) (item : Item) : List (String × Item) → List (String × Item)
  | [] => [(key, item)]
  | (k, old) :: rest =>
    if k = key then (key, item) :: rest else (k, old) :: putField key item rest

@[inherit_doc putField]
def put (t : Table) (key : String) (item : Item) : Table :=
  { t with fields := putField key item t.fields }

/-- Puts an item under a key at the end, away from what stands there. -/
def putLast (t : Table) (key : String) (item : Item) : Table :=
  { t with fields := t.fields.filter (·.1 ≠ key) ++ [(key, item)] }

def toItem (t : Table) : Item := .table t.implied t.dotted t.fields

def toValue (t : Table) : Value := t.toItem.toValue

/-- Changes the table at the end of a path; missing tables on the way are implied.  In an array of
tables the last one is meant.  A dotted key does not pass through a table with a header. -/
def changeAt (dotted : Bool) : List String → (Table → Option Table) → Table → Option Table
  | [], change, t => change t
  | key :: rest, change, t =>
    match t.get? key with
    | none =>
      (changeAt dotted rest change { implied := true, dotted }).map fun u => t.put key u.toItem
    | some (.value _) => none
    | some (.table implied madeByDots fields) =>
      if dotted && !implied then none
      else
        (changeAt dotted rest change ⟨implied, madeByDots, fields⟩).map fun u =>
          t.put key u.toItem
    | some (.tables elements) =>
      match elements.getLast? with
      | none => none
      | some fields =>
        (changeAt dotted rest change { fields }).map fun u =>
          t.put key (.tables (elements.dropLast ++ [u.fields]))

/-- Gives a key its value.  The keys in front of it, if any, lead to a table that dotted keys have
made. -/
def define (path : List String) (key : String) (v : Value) : Table → Option Table :=
  changeAt true path fun t =>
    if t.dotted = path.isEmpty then none
    else if (t.get? key).isSome then none
    else some (t.put key (.value v))

/-- The header of a table.  A table that was only implied moves to the end. -/
def openTable (path : List String) (key : String) : Table → Option Table :=
  changeAt false path fun t =>
    match t.get? key with
    | none => some (t.put key (.table false false []))
    | some (.table true false fields) => some (t.putLast key (.table false false fields))
    | some _ => none

/-- The header of one more table of an array. -/
def openElement (path : List String) (key : String) : Table → Option Table :=
  changeAt false path fun t =>
    match t.get? key with
    | none => some (t.put key (.tables [[]]))
    | some (.tables elements) => some (t.put key (.tables (elements ++ [[]])))
    | some _ => none

end Table

end ResultLint.Toml
