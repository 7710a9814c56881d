import ResultLint.Toml.Date

/-!
# Strings and numbers in TOML

Each reader takes the characters in front and gives back the rest.
-/

namespace ResultLint.Toml

def isSpace (c : Char) : Bool := c == ' ' || c == '\t'

def skipSpace (cs : List Char) : List Char := cs.dropWhile isSpace

/-- A line ends with a line feed, with or without a carriage return. -/
def newline? : List Char → Option (List Char)
  | '\n' :: rest => some rest
  | '\r' :: '\n' :: rest => some rest
  | _ => none

/-- Characters that may stand in comments and strings: no control characters but the tab. -/
def isPrintable (c : Char) : Bool := c == '\t' || (0x20 ≤ c.toNat && c.toNat != 0x7f)

/-- Skips spaces and ends of lines, at most `fuel` of them. -/
def skipLines : Nat → List Char → List Char
  | 0, cs => cs
  | fuel + 1, cs =>
    match newline? (skipSpace cs) with
    | some rest => skipLines fuel rest
    | none => skipSpace cs

/-! ### Strings -/

def charOfNumber? (n : Nat) : Option Char :=
  if h : n.isValidChar then some (Char.ofNatAux n h) else none

def hexChar? (cs : List Char) : Option Char := (Digits.hexNumber? cs).bind charOfNumber?

/-- The character that an escape stands for, after its backslash. -/
def escape? : List Char → Option (Char × List Char)
  | 'b' :: rest => some ('\x08', rest)
  | 't' :: rest => some ('\t', rest)
  | 'n' :: rest => some ('\n', rest)
  | 'f' :: rest => some ('\x0c', rest)
  | 'r' :: rest => some ('\r', rest)
  | '"' :: rest => some ('"', rest)
  | '\\' :: rest => some ('\\', rest)
  | 'u' :: a :: b :: c :: d :: rest => (hexChar? [a, b, c, d]).map (·, rest)
  | 'U' :: a :: b :: c :: d :: e :: f :: g :: h :: rest =>
    (hexChar? [a, b, c, d, e, f, g, h]).map (·, rest)
  | _ => none

/-- A basic string after its opening quote; `done` holds what is read, in reverse order. -/
def basicString? : Nat → List Char → List Char → Option (String × List Char)
  | 0, _, _ => none
  | _ + 1, done, '"' :: rest => some (String.ofList done.reverse, rest)
  | fuel + 1, done, '\\' :: rest =>
    match escape? rest with
    | some (c, rest) => basicString? fuel (c :: done) rest
    | none => none
  | fuel + 1, done, c :: rest => if isPrintable c then basicString? fuel (c :: done) rest else none
  | _ + 1, _, [] => none

/-- A literal string after its opening quote. -/
def literalString? (cs : List Char) : Option (String × List Char) :=
  let inside := fun c => isPrintable c && c != '\''
  match cs.dropWhile inside with
  | '\'' :: rest => some (String.ofList (cs.takeWhile inside), rest)
  | _ => none

/-- A basic string of several lines.  One or two quotes may stand in it, also in front of the
closing three.  A backslash at the end of a line joins it with the next that is not blank. -/
def basicLines? : Nat → List Char → List Char → Option (String × List Char)
  | 0, _, _ => none
  | fuel + 1, done, cs =>
    match cs with
    | '"' :: '"' :: '"' :: '"' :: '"' :: rest =>
      some (String.ofList ('"' :: '"' :: done).reverse, rest)
    | '"' :: '"' :: '"' :: '"' :: rest => some (String.ofList ('"' :: done).reverse, rest)
    | '"' :: '"' :: '"' :: rest => some (String.ofList done.reverse, rest)
    | '\\' :: rest =>
      match newline? (skipSpace rest) with
      | some rest => basicLines? fuel done (skipLines rest.length rest)
      | none =>
        match escape? rest with
        | some (c, rest) => basicLines? fuel (c :: done) rest
        | none => none
    | c :: rest =>
      match newline? cs with
      | some rest => basicLines? fuel ('\n' :: done) rest
      | none => if isPrintable c then basicLines? fuel (c :: done) rest else none
    | [] => none

/-- A literal string of several lines. -/
def literalLines? : Nat → List Char → List Char → Option (String × List Char)
  | 0, _, _ => none
  | fuel + 1, done, cs =>
    match cs with
    | '\'' :: '\'' :: '\'' :: '\'' :: '\'' :: rest =>
      some (String.ofList ('\'' :: '\'' :: done).reverse, rest)
    | '\'' :: '\'' :: '\'' :: '\'' :: rest => some (String.ofList ('\'' :: done).reverse, rest)
    | '\'' :: '\'' :: '\'' :: rest => some (String.ofList done.reverse, rest)
    | c :: rest =>
      match newline? cs with
      | some rest => literalLines? fuel ('\n' :: done) rest
      | none => if isPrintable c then literalLines? fuel (c :: done) rest else none
    | [] => none

/-- A line end right after the opening quotes does not count. -/
def skipNewline (cs : List Char) : List Char := (newline? cs).getD cs

/-- A string on one line. -/
def lineString? : List Char → Option (String × List Char)
  | '"' :: rest => basicString? (rest.length + 1) [] rest
  | '\'' :: rest => literalString? rest
  | _ => none

def string? : List Char → Option (String × List Char)
  | '"' :: '"' :: '"' :: rest => basicLines? (rest.length + 1) [] (skipNewline rest)
  | '\'' :: '\'' :: '\'' :: rest => literalLines? (rest.length + 1) [] (skipNewline rest)
  | cs => lineString? cs

/-! ### Numbers -/

/-- Digits with single underscores between them, after the first. -/
def moreDigits (isDigit : Char → Bool) : List Char → List Char × List Char
  | '_' :: c :: rest =>
    if isDigit c then
      let (ds, rest) := moreDigits isDigit rest
      (c :: ds, rest)
    else ([], '_' :: c :: rest)
  | c :: rest =>
    if isDigit c then
      let (ds, rest) := moreDigits isDigit rest
      (c :: ds, rest)
    else ([], c :: rest)
  | [] => ([], [])

/-- A run of digits with underscores. -/
def digits? (isDigit : Char → Bool) : List Char → Option (List Char × List Char)
  | c :: rest =>
    if isDigit c then
      let (ds, rest) := moreDigits isDigit rest
      some (c :: ds, rest)
    else none
  | [] => none

def decimal? (cs : List Char) : Option (List Nat × List Char) :=
  (digits? Char.isDigit cs).map fun (ds, rest) => (ds.map Digits.value, rest)

/-- The digits in front of a point: a zero stands alone. -/
def whole? : List Char → Option (List Nat × List Char)
  | '0' :: rest => some ([0], rest)
  | cs => decimal? cs

/-- Whether a number is negative, and the text after its sign. -/
def sign : List Char → Bool × List Char
  | '-' :: rest => (true, rest)
  | '+' :: rest => (false, rest)
  | cs => (false, cs)

def fraction? : List Char → Option (List Nat × List Char)
  | '.' :: rest => decimal? rest
  | _ => none

def power? : List Char → Option (Int × List Char)
  | c :: rest =>
    if c == 'e' || c == 'E' then
      let (negative, rest) := sign rest
      (decimal? rest).map fun (ds, rest) =>
        let n : Int := Digits.number 10 ds
        (if negative then -n else n, rest)
    else none
  | [] => none

/-- The number nearest to `digits * 10 ^ power`. -/
def nearest (digits : List Nat) (power : Int) : Binary64 :=
  let n := Digits.number 10 digits
  let size : Int := digits.length + power
  if n = 0 then .zero
  else if 400 < size ∧ 400 < power then .infinity
  else if size < -400 then .zero
  else .ofRatio (n * Nat.pow 10 power.toNat) (Nat.pow 10 (-power).toNat)

def withSign (negative : Bool) (x : Binary64) : Binary64 := if negative then x.neg else x

/-- A number with a fraction, a power or both.  One too large is refused, unless it is negative. -/
def float? (cs : List Char) : Option (Value × List Char) := do
  let (negative, rest) := sign cs
  let (whole, rest) ← whole? rest
  let (fraction, power, rest) ←
    match fraction? rest with
    | some (ds, rest) =>
      match power? rest with
      | some (p, rest) => some (ds, p, rest)
      | none => some (ds, 0, rest)
    | none => (power? rest).map fun (p, rest) => ([], p, rest)
  let x := nearest (whole ++ fraction) (power - fraction.length)
  if x = .infinity ∧ !negative then none
  else some (.float (withSign negative x), rest)

/-- The infinities and not-a-number. -/
def special? (cs : List Char) : Option (Value × List Char) :=
  let (negative, rest) := sign cs
  match rest with
  | 'i' :: 'n' :: 'f' :: rest => some (.float (withSign negative .infinity), rest)
  | 'n' :: 'a' :: 'n' :: rest => some (.float (withSign negative .nan), rest)
  | _ => none

/-- Integers have 64 bits. -/
def ofInteger? (i : Int) : Option Value :=
  if -9223372036854775808 ≤ i ∧ i ≤ 9223372036854775807 then some (.integer i) else none

/-- An integer in another base, after its mark. -/
def based? (base : Nat) (cs : List Char) : Option (Value × List Char) := do
  let isDigit := fun c => (Digits.hexValue? c).any (· < base)
  let (ds, rest) ← digits? isDigit cs
  let v ← ofInteger? (Digits.number base (ds.filterMap Digits.hexValue?))
  return (v, rest)

def integer? : List Char → Option (Value × List Char)
  | '0' :: 'x' :: rest => based? 16 rest
  | '0' :: 'o' :: rest => based? 8 rest
  | '0' :: 'b' :: rest => based? 2 rest
  | cs => do
    let (negative, rest) := sign cs
    let (ds, rest) ← whole? rest
    let n : Int := Digits.number 10 ds
    let v ← ofInteger? (if negative then -n else n)
    return (v, rest)

/-- A date, a number or a truth value. -/
def plain? (cs : List Char) : Option (Value × List Char) :=
  match cs with
  | 't' :: 'r' :: 'u' :: 'e' :: rest => some (.boolean true, rest)
  | 'f' :: 'a' :: 'l' :: 's' :: 'e' :: rest => some (.boolean false, rest)
  | cs => date? cs <|> float? cs <|> special? cs <|> integer? cs

end ResultLint.Toml
