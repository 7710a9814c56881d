import ResultLint.Toml.Value
import ResultLint.Number.Digits

/-!
# Dates and times in TOML

A date is kept as its text in one form: `T` between date and time, `Z` for universal time, at most
nine digits of a second and none that ends in a zero, no sign on an offset of zero.

A date may also be given as a string under a reserved key: a table whose first key is that key is
not a table but the date in the string.
-/

namespace ResultLint.Toml

def expect? (c : Char) : List Char → Option (List Char)
  | d :: rest => if c == d then some rest else none
  | [] => none

/-- A number of two digits up to a bound, as its text. -/
def twoDigits? (bound : Nat) : List Char → Option (List Char × List Char)
  | a :: b :: rest =>
    if a.isDigit && b.isDigit && Digits.number 10 [Digits.value a, Digits.value b] ≤ bound then
      some ([a, b], rest)
    else none
  | _ => none

def numberOf (cs : List Char) : Nat := Digits.number 10 (cs.map Digits.value)

/-! ### Days -/

def isLeapYear (year : Nat) : Bool := year % 4 == 0 && (year % 100 != 0 || year % 400 == 0)

def daysInMonth (year month : Nat) : Nat :=
  if month == 2 then (if isLeapYear year then 29 else 28)
  else if month == 4 || month == 6 || month == 9 || month == 11 then 30
  else 31

def day? : List Char → Option (List Char × List Char)
  | a :: b :: c :: d :: rest => do
    let year := [a, b, c, d]
    if !year.all Char.isDigit then none
    let rest ← expect? '-' rest
    let (month, rest) ← twoDigits? 12 rest
    if numberOf month = 0 then none
    let rest ← expect? '-' rest
    let (day, rest) ← twoDigits? (daysInMonth (numberOf year) (numberOf month)) rest
    if numberOf day = 0 then none
    return (year ++ ['-'] ++ month ++ ['-'] ++ day, rest)
  | _ => none

/-! ### Times -/

/-- The fraction of a second in its shortest form, nine digits at most. -/
def secondFraction (ds : List Char) : List Char :=
  match ((ds.take 9).reverse.dropWhile (· == '0')).reverse with
  | [] => []
  | ds => '.' :: ds

def time? (cs : List Char) : Option (List Char × List Char) := do
  let (hour, rest) ← twoDigits? 23 cs
  let rest ← expect? ':' rest
  let (minute, rest) ← twoDigits? 59 rest
  let rest ← expect? ':' rest
  let (second, rest) ← twoDigits? 60 rest
  let clock := hour ++ [':'] ++ minute ++ [':'] ++ second
  match rest with
  | '.' :: more =>
    match more.takeWhile Char.isDigit with
    | [] => return (clock, rest)
    | ds => return (clock ++ secondFraction ds, more.dropWhile Char.isDigit)
  | rest => return (clock, rest)

/-- The offset from universal time; an offset of zero has no sign of its own. -/
def offset? : List Char → Option (List Char × List Char)
  | 'Z' :: rest => some (['Z'], rest)
  | 'z' :: rest => some (['Z'], rest)
  | c :: rest => do
    if c != '+' && c != '-' then none
    let (hour, rest) ← twoDigits? 23 rest
    let rest ← expect? ':' rest
    let (minute, rest) ← twoDigits? 59 rest
    let mark := if numberOf hour = 0 ∧ numberOf minute = 0 then '+' else c
    return (mark :: hour ++ [':'] ++ minute, rest)
  | [] => none

def isDateSeparator (c : Char) : Bool := c == 'T' || c == 't' || c == ' '

/-- The time after a day, with its offset. -/
def timeOfDay? : List Char → Option (List Char × List Char)
  | c :: rest => do
    if !isDateSeparator c then none
    let (time, rest) ← time? rest
    match offset? rest with
    | some (offset, rest) => return ('T' :: time ++ offset, rest)
    | none => return ('T' :: time, rest)
  | [] => none

/-! ### Dates -/

/-- A day, a day with a time, or a time, as its text. -/
def dateText? (cs : List Char) : Option (List Char × List Char) :=
  match day? cs with
  | some (day, rest) =>
    match timeOfDay? rest with
    | some (time, rest) => some (day ++ time, rest)
    | none => some (day, rest)
  | none => time? cs

/-- A date in a document. -/
def date? (cs : List Char) : Option (Value × List Char) :=
  (dateText? cs).map fun (text, rest) => (.date (String.ofList text), rest)

/-- The date that a string holds. -/
def dateOfString? (s : String) : Option Value :=
  match dateText? s.toList with
  | some (text, []) => some (.date (String.ofList text))
  | _ => none

/-! ### Dates under the reserved key -/

def reservedDateKey : String := "$__toml_private_datetime"

namespace Value

mutual

/-- The value with dates for the tables that stand for them. -/
def withDates? : Value → Option Value
  | array items => (itemsWithDates? items).map array
  | table [] => some (table [])
  | table ((key, v) :: rest) =>
    if key = reservedDateKey then
      match v with
      | string s => dateOfString? s
      | _ => none
    else
      match withDates? v, fieldsWithDates? rest with
      | some v, some rest => some (table ((key, v) :: rest))
      | _, _ => none
  | v => some v

@[inherit_doc withDates?]
def itemsWithDates? : List Value → Option (List Value)
  | [] => some []
  | v :: rest =>
    match withDates? v, itemsWithDates? rest with
    | some v, some rest => some (v :: rest)
    | _, _ => none

@[inherit_doc withDates?]
def fieldsWithDates? : List (String × Value) → Option (List (String × Value))
  | [] => some []
  | (key, v) :: rest =>
    match withDates? v, fieldsWithDates? rest with
    | some v, some rest => some ((key, v) :: rest)
    | _, _ => none

end

end Value

end ResultLint.Toml
