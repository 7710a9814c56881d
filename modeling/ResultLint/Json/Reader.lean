import ResultLint.Json.Basic
import ResultLint.Number.Approximation
import ResultLint.Number.Digits

/-!
# Reading JSON

`Json.parse?` reads one value with blanks around it.  The text is strict JSON: no comments, no
trailing comma, no raw control character in a string, no superfluous zero in front of a number.
Containers may be nested 127 deep; a deeper one is unusable.
-/

namespace ResultLint

namespace Json

def isBlank (c : Char) : Bool := c == ' ' || c == '\n' || c == '\t' || c == '\r'

def skipBlank (cs : List Char) : List Char := cs.dropWhile isBlank

/-! ### Numbers -/

/-- A nonempty run of digits and what follows it. -/
def digits? (cs : List Char) : Option (List Nat × List Char) :=
  match cs.takeWhile Char.isDigit with
  | [] => none
  | ds => some (ds.map Digits.value, cs.dropWhile Char.isDigit)

/-- The digits after a point, if there is one. -/
def fraction? : List Char → Option (Option (List Nat) × List Char)
  | '.' :: rest => (digits? rest).map fun (ds, rest) => (some ds, rest)
  | rest => some (none, rest)

def signedDigits? : List Char → Option (Int × List Char)
  | '-' :: rest => (digits? rest).map fun (ds, rest) => (-(Digits.number 10 ds : Int), rest)
  | '+' :: rest => (digits? rest).map fun (ds, rest) => ((Digits.number 10 ds : Int), rest)
  | rest => (digits? rest).map fun (ds, rest) => ((Digits.number 10 ds : Int), rest)

/-- The power of ten after a mark, if there is one. -/
def power? : List Char → Option (Option Int × List Char)
  | 'e' :: rest => (signedDigits? rest).map fun (p, rest) => (some p, rest)
  | 'E' :: rest => (signedDigits? rest).map fun (p, rest) => (some p, rest)
  | rest => some (none, rest)

/-- A number that is not an integer. -/
def ofFloat (negative : Bool) (x : Binary64) : Json :=
  if x.isFinite then float (if negative then x.neg else x) else unusable

/-- A number written without fraction and power is an integer if it fits 64 bits.  The sign of zero
makes it a float. -/
def ofNumeral (negative : Bool) (whole : List Nat) (fraction : Option (List Nat))
    (power : Option Int) : Json :=
  let n := Digits.number 10 whole
  let x := Decimal.value whole (fraction.getD []) (power.getD 0)
  if fraction.isSome || power.isSome then ofFloat negative x
  else if negative then
    if 0 < n ∧ n ≤ Nat.pow 2 63 then integer (-(n : Int)) else ofFloat true x
  else if n < Nat.pow 2 64 then integer n
  else ofFloat false x

/-- A number whose sign is already read. -/
def number? (negative : Bool) (cs : List Char) : Option (Json × List Char) := do
  let (whole, rest) ← digits? cs
  if whole.head? = some 0 ∧ 1 < whole.length then failure
  let (fraction, rest) ← fraction? rest
  let (power, rest) ← power? rest
  return (ofNumeral negative whole fraction power, rest)

/-! ### Strings -/

/-- A piece of a string: a character, or a number given by an escape. -/
inductive Piece where
  | char (c : Char)
  | unit (n : Nat)

def escaped? : Char → Option Char
  | '"' => some '"'
  | '\\' => some '\\'
  | '/' => some '/'
  | 'b' => some '\x08'
  | 'f' => some '\x0c'
  | 'n' => some '\n'
  | 'r' => some '\r'
  | 't' => some '\t'
  | _ => none

/-- The pieces up to the closing quote; those read so far stand in reverse order in front. -/
def pieces? (done : List Piece) : List Char → Option (List Piece × List Char)
  | [] => none
  | '"' :: rest => some (done.reverse, rest)
  | '\\' :: 'u' :: a :: b :: c :: d :: rest =>
    match Digits.hexNumber? [a, b, c, d] with
    | some n => pieces? (.unit n :: done) rest
    | none => none
  | '\\' :: c :: rest =>
    match escaped? c with
    | some c => pieces? (.char c :: done) rest
    | none => none
  | c :: rest => if c.toNat < 0x20 then none else pieces? (.char c :: done) rest

def isHighSurrogate (n : Nat) : Bool := 0xD800 ≤ n && n < 0xDC00

def isLowSurrogate (n : Nat) : Bool := 0xDC00 ≤ n && n < 0xE000

def ofSurrogates (high low : Nat) : Char :=
  Char.ofNat (0x10000 + (high - 0xD800) * 0x400 + (low - 0xDC00))

/-- The characters of the pieces: two halves of a surrogate pair are one character, and half of one
is none at all. -/
def chars? : List Piece → Option (List Char)
  | [] => some []
  | .char c :: rest => (chars? rest).map (c :: ·)
  | .unit high :: .unit low :: rest =>
    if isHighSurrogate high then
      if isLowSurrogate low then (chars? rest).map (ofSurrogates high low :: ·) else none
    else if isLowSurrogate high then none
    else (chars? (.unit low :: rest)).map (Char.ofNat high :: ·)
  | .unit n :: rest =>
    if isHighSurrogate n || isLowSurrogate n then none
    else (chars? rest).map (Char.ofNat n :: ·)

/-- A string after its opening quote: its text, if it has one, and what follows. -/
def text? (cs : List Char) : Option (Option String × List Char) :=
  (pieces? [] cs).map fun (ps, rest) => ((chars? ps).map String.ofList, rest)

/-! ### Containers -/

def ofItems (room : Nat) (items : List Json) : Json :=
  if room = 0 then unusable else array items

def ofFields (room : Nat) (fields : List (Option String × Json)) : Json :=
  if room = 0 then unusable
  else
    match fields.mapM fun (name, value) => name.map fun name => (name, value) with
    | some fields => object fields
    | none => unusable

mutual

/-- One value, with blanks in front of it.  `room` is the number of nested containers allowed, and
every call spends one of the first argument. -/
def value? : Nat → Nat → List Char → Option (Json × List Char)
  | 0, _, _ => none
  | fuel + 1, room, cs =>
    match skipBlank cs with
    | 'n' :: 'u' :: 'l' :: 'l' :: rest => some (null, rest)
    | 't' :: 'r' :: 'u' :: 'e' :: rest => some (bool true, rest)
    | 'f' :: 'a' :: 'l' :: 's' :: 'e' :: rest => some (bool false, rest)
    | '"' :: rest => (text? rest).map fun (s, rest) => (s.elim unusable string, rest)
    | '-' :: rest => number? true rest
    | '[' :: rest =>
      match skipBlank rest with
      | ']' :: rest => some (ofItems room [], rest)
      | rest => (items? fuel (room - 1) rest).map fun (items, rest) => (ofItems room items, rest)
    | '{' :: rest =>
      match skipBlank rest with
      | '}' :: rest => some (ofFields room [], rest)
      | rest => (fields? fuel (room - 1) rest).map fun (fs, rest) => (ofFields room fs, rest)
    | rest => number? false rest

/-- The items of a nonempty array, up to its closing bracket. -/
def items? : Nat → Nat → List Char → Option (List Json × List Char)
  | 0, _, _ => none
  | fuel + 1, room, cs =>
    match value? fuel room cs with
    | none => none
    | some (item, rest) =>
      match skipBlank rest with
      | ',' :: rest => (items? fuel room rest).map fun (items, rest) => (item :: items, rest)
      | ']' :: rest => some ([item], rest)
      | _ => none

/-- The fields of a nonempty object, up to its closing bracket. -/
def fields? : Nat → Nat → List Char → Option (List (Option String × Json) × List Char)
  | 0, _, _ => none
  | fuel + 1, room, cs =>
    match skipBlank cs with
    | '"' :: rest =>
      match text? rest with
      | none => none
      | some (name, rest) =>
        match skipBlank rest with
        | ':' :: rest =>
          match value? fuel room rest with
          | none => none
          | some (value, rest) =>
            match skipBlank rest with
            | ',' :: rest =>
              (fields? fuel room rest).map fun (fs, rest) => ((name, value) :: fs, rest)
            | '}' :: rest => some ([(name, value)], rest)
            | _ => none
        | _ => none
    | _ => none

end

/-- The value that a text holds, with containers nested up to `room` deep.  Two calls are spent on a
character at most. -/
def parseWithin? (room : Nat) (text : String) : Option Json :=
  let cs := text.toList
  match value? (2 * cs.length + 2) room cs with
  | some (value, rest) => if skipBlank rest = [] then some value else none
  | none => none

/-- The value that a document holds. -/
def parse? (text : String) : Option Json := parseWithin? 127 text

end Json

end ResultLint
