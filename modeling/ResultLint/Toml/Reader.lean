import ResultLint.Toml.Scalar
import ResultLint.Toml.Table

/-!
# Reading TOML

A document is a sequence of lines: key with value, header of a table, header of an element of an
array of tables, comment, or nothing.  `Toml.parse?` gives the table that it describes.
-/

namespace ResultLint.Toml

/-! ### Keys -/

def isBareKeyChar (c : Char) : Bool := c.isAlphanum || c == '-' || c == '_'

def simpleKey? (cs : List Char) : Option (String × List Char) :=
  match cs.takeWhile isBareKeyChar with
  | [] => lineString? cs
  | key => some (String.ofList key, cs.dropWhile isBareKeyChar)

/-- A dotted key with spaces around its parts. -/
def keyParts? : Nat → List Char → Option (List String × List Char)
  | 0, _ => none
  | fuel + 1, cs =>
    match simpleKey? (skipSpace cs) with
    | none => none
    | some (key, rest) =>
      match skipSpace rest with
      | '.' :: rest => (keyParts? fuel rest).map fun (keys, rest) => (key :: keys, rest)
      | rest => some ([key], rest)

/-- A dotted key, as the keys in front and the last one.  It has less than 80 parts. -/
def key? (cs : List Char) : Option ((List String × String) × List Char) := do
  let (keys, rest) ← keyParts? 79 cs
  let last ← keys.getLast?
  return ((keys.dropLast, last), rest)

/-! ### Comments and ends of lines -/

/-- A comment up to the end of its line. -/
def skipComment : List Char → List Char
  | '#' :: rest => rest.dropWhile isPrintable
  | cs => cs

/-- The end of a line, after spaces and a comment, or of the document. -/
def lineEnd? (cs : List Char) : Option (List Char) :=
  match skipComment (skipSpace cs) with
  | [] => some []
  | rest => newline? rest

/-- Skips spaces, comments and ends of lines, at most `fuel` lines. -/
def skipBlankLines : Nat → List Char → List Char
  | 0, cs => cs
  | fuel + 1, cs =>
    match newline? (skipComment (skipSpace cs)) with
    | some rest => skipBlankLines fuel rest
    | none => skipSpace cs

/-! ### Values -/

mutual

/-- A value.  `room` is the number of arrays and inline tables that may still be nested; every call
spends one of the first argument. -/
def value? : Nat → Nat → List Char → Option (Value × List Char)
  | 0, _, _ => none
  | fuel + 1, room, cs =>
    match cs with
    | '"' :: _ => (string? cs).map fun (s, rest) => (.string s, rest)
    | '\'' :: _ => (string? cs).map fun (s, rest) => (.string s, rest)
    | '[' :: rest =>
      if room = 0 then none
      else (items? fuel (room - 1) rest).map fun (items, rest) => (.array items, rest)
    | '{' :: rest =>
      if room = 0 then none
      else
        match skipSpace rest with
        | '}' :: rest => some (.table [], rest)
        | rest => (fields? fuel (room - 1) {} rest).map fun (t, rest) => (t.toValue, rest)
    | cs => plain? cs

/-- The items of an array, up to its closing bracket.  A comma may follow the last one. -/
def items? : Nat → Nat → List Char → Option (List Value × List Char)
  | 0, _, _ => none
  | fuel + 1, room, cs =>
    match skipBlankLines cs.length cs with
    | ']' :: rest => some ([], rest)
    | cs =>
      match value? fuel room cs with
      | none => none
      | some (item, rest) =>
        match skipBlankLines rest.length rest with
        | ',' :: rest => (items? fuel room rest).map fun (items, rest) => (item :: items, rest)
        | ']' :: rest => some ([item], rest)
        | _ => none

/-- The fields of a nonempty inline table, up to its closing bracket, on one line. -/
def fields? : Nat → Nat → Table → List Char → Option (Table × List Char)
  | 0, _, _, _ => none
  | fuel + 1, room, t, cs =>
    match key? cs with
    | some ((path, key), '=' :: rest) =>
      match value? fuel room (skipSpace rest) with
      | none => none
      | some (v, rest) =>
        match t.define path key v with
        | none => none
        | some t =>
          match skipSpace rest with
          | ',' :: rest => fields? fuel room t rest
          | '}' :: rest => some (t, rest)
          | _ => none
    | _ => none

end

/-! ### Documents -/

/-- The table that is described, and the keys of the header in force. -/
structure Document where
  root : Table := {}
  here : List String := []

namespace Document

def define (d : Document) (path : List String) (key : String) (v : Value) : Option Document :=
  (d.root.changeAt false d.here (Table.define path key v)).map fun root => { d with root }

def openTable (d : Document) (path : List String) (key : String) : Option Document :=
  (d.root.openTable path key).map fun root => ⟨root, path ++ [key]⟩

def openElement (d : Document) (path : List String) (key : String) : Option Document :=
  (d.root.openElement path key).map fun root => ⟨root, path ++ [key]⟩

end Document

/-- One line that is not blank. -/
def line? (d : Document) : List Char → Option (Document × List Char)
  | '[' :: '[' :: rest => do
    let ((path, key), rest) ← key? rest
    let rest ← expect? ']' rest
    let rest ← expect? ']' rest
    let rest ← lineEnd? rest
    return (← d.openElement path key, rest)
  | '[' :: rest => do
    let ((path, key), rest) ← key? rest
    let rest ← expect? ']' rest
    let rest ← lineEnd? rest
    return (← d.openTable path key, rest)
  | cs => do
    let ((path, key), rest) ← key? cs
    let rest ← expect? '=' rest
    let rest := skipSpace rest
    let (v, rest) ← value? (2 * rest.length + 2) 79 rest
    let rest ← lineEnd? rest
    return (← d.define path key v, rest)

/-- The lines of a document, at most `fuel` of them. -/
def lines? : Nat → Document → List Char → Option Document
  | 0, _, _ => none
  | fuel + 1, d, cs =>
    match skipSpace cs with
    | [] => some d
    | cs =>
      match lineEnd? cs with
      | some rest => lines? fuel d rest
      | none =>
        match line? d cs with
        | some (d, rest) => lines? fuel d rest
        | none => none

/-- A byte order mark may stand in front of a document. -/
def skipByteOrderMark : List Char → List Char
  | '\ufeff' :: rest => rest
  | cs => cs

/-- The fields of the table that a document describes. -/
def parse? (text : String) : Option (List (String × Value)) :=
  let cs := skipByteOrderMark text.toList
  (lines? (cs.length + 1) {} cs).bind fun d =>
    Value.fieldsWithDates? (Item.fieldValues d.root.fields)

end ResultLint.Toml
