import AbstractScript.Json.Basic
import AbstractScript.Number.Read
import AbstractScript.Text.Units

/-!
# Reading JSON

A reader for whole documents: one value with blanks around it and nothing else. Containers nest at
most 127 deep.
-/
namespace AbstractScript.Json

/-- The four blank characters of a document. -/
def isBlank (c : Char) : Bool := c = ' ' || c = '\n' || c = '\r' || c = '\t'

/-- Drops the blanks at the front. -/
def skip (cs : List Char) : List Char := cs.dropWhile isBlank

/-- Reads four hexadecimal digits. -/
def readUnit? : List Char → Option (Nat × List Char)
  | a :: b :: c :: d :: rest => do
    let a ← Number.hexDigit? a
    let b ← Number.hexDigit? b
    let c ← Number.hexDigit? c
    let d ← Number.hexDigit? d
    return (((a * 16 + b) * 16 + c) * 16 + d, rest)
  | _ => none

/-- The characters that a backslash and one letter stand for. -/
def escaped? : Char → Option Char
  | '"' => some '"'
  | '\\' => some '\\'
  | '/' => some '/'
  | 'b' => some '\x08'
  | 'f' => some '\x0c'
  | 'n' => some '\n'
  | 'r' => some '\r'
  | 't' => some '\t'
  | _ => none

/-- Reads the character of a `\u` escape, a surrogate pair being one character. A lone surrogate is
refused. -/
def readEscapedUnit? (cs : List Char) : Option (Char × List Char) := do
  let (u, rest) ← readUnit? cs
  if 0xD800 ≤ u ∧ u < 0xDC00 then
    match rest with
    | '\\' :: 'u' :: more =>
      let (v, rest) ← readUnit? more
      if 0xDC00 ≤ v ∧ v < 0xE000 then
        return (Char.ofNat (0x10000 + (u - 0xD800) * 0x400 + (v - 0xDC00)), rest)
      else none
    | _ => none
  else if 0xDC00 ≤ u ∧ u < 0xE000 then none
  else return (Char.ofNat u, rest)

/-- Reads the rest of a string after its opening quote, for at most `steps` characters. -/
def readString? : Nat → List Char → List Char → Option (String × List Char)
  | 0, _, _ => none
  | steps + 1, done, cs =>
    match cs with
    | [] => none
    | '"' :: rest => some (String.ofList done.reverse, rest)
    | '\\' :: 'u' :: rest => do
      let (c, rest) ← readEscapedUnit? rest
      readString? steps (c :: done) rest
    | '\\' :: e :: rest => do
      let c ← escaped? e
      readString? steps (c :: done) rest
    | c :: rest => if c.toNat < 0x20 then none else readString? steps (c :: done) rest

/-- Reads one or more digits. -/
def readDigits? (cs : List Char) : Option (List Char × List Char) :=
  match Number.spanDigits cs with
  | ([], _) => none
  | found => some found

/-- Reads the text of a number: an integer without leading zeros, a fraction, an exponent. -/
def readNumber? (cs : List Char) : Option (String × List Char) := do
  let (sign, cs) := match cs with
    | '-' :: rest => (['-'], rest)
    | _ => ([], cs)
  let (whole, cs) ← match cs with
    | '0' :: rest => some (['0'], rest)
    | _ => readDigits? cs
  let (fraction, cs) ← match cs with
    | '.' :: rest => (readDigits? rest).map fun (ds, rest) => ('.' :: ds, rest)
    | _ => some ([], cs)
  let (exponent, cs) ← match cs with
    | e :: rest =>
      if e = 'e' ∨ e = 'E' then
        match rest with
        | s :: more =>
          if s = '+' ∨ s = '-' then (readDigits? more).map fun (ds, rest) => (e :: s :: ds, rest)
          else (readDigits? rest).map fun (ds, rest) => (e :: ds, rest)
        | [] => none
      else some ([], cs)
    | [] => some ([], cs)
  return (String.ofList (sign ++ whole ++ fraction ++ exponent), cs)

/-- Reads a fixed word. -/
def readWord? (word : String) (value : Json) (cs : List Char) : Option (Json × List Char) :=
  let w := word.toList
  if w.isPrefixOf cs then some (value, cs.drop w.length) else none

mutual

/-- Reads a value in at most `steps` steps, with containers nested at most `depth` deep. -/
def readValue? (depth : Nat) : Nat → List Char → Option (Json × List Char)
  | 0, _ => none
  | steps + 1, cs =>
    match skip cs with
    | [] => none
    | '"' :: rest => (readString? (rest.length + 1) [] rest).map fun (s, rest) => (.string s, rest)
    | '[' :: rest =>
      if depth = 0 then none
      else match skip rest with
        | ']' :: rest => some (.array [], rest)
        | rest => (readElements? (depth - 1) steps [] rest).map fun (es, rest) => (.array es, rest)
    | '\x7b' :: rest =>
      if depth = 0 then none
      else match skip rest with
        | '\x7d' :: rest => some (.object [], rest)
        | rest => (readMembers? (depth - 1) steps [] rest).map fun (ms, rest) => (.object ms, rest)
    | 'n' :: rest => readWord? "ull" .null rest
    | 't' :: rest => readWord? "rue" (.bool true) rest
    | 'f' :: rest => readWord? "alse" (.bool false) rest
    | cs => (readNumber? cs).map fun (text, rest) => (.number text, rest)

/-- Reads the elements of an array up to its closing bracket. -/
def readElements? (depth : Nat) : Nat → List Json → List Char → Option (List Json × List Char)
  | 0, _, _ => none
  | steps + 1, done, cs =>
    match readValue? depth steps cs with
    | none => none
    | some (v, rest) =>
      match skip rest with
      | ',' :: rest => readElements? depth steps (v :: done) rest
      | ']' :: rest => some ((v :: done).reverse, rest)
      | _ => none

/-- Reads the members of an object up to its closing brace. -/
def readMembers? (depth : Nat) :
    Nat → List (String × Json) → List Char → Option (List (String × Json) × List Char)
  | 0, _, _ => none
  | steps + 1, done, cs =>
    match skip cs with
    | '"' :: rest =>
      match readString? (rest.length + 1) [] rest with
      | none => none
      | some (name, rest) =>
        match skip rest with
        | ':' :: rest =>
          match readValue? depth steps rest with
          | none => none
          | some (v, rest) =>
            match skip rest with
            | ',' :: rest => readMembers? depth steps ((name, v) :: done) rest
            | '\x7d' :: rest => some (((name, v) :: done).reverse, rest)
            | _ => none
        | _ => none
    | _ => none

end

/-- Reads a document. -/
def read? (text : String) : Option Json :=
  let cs := text.toList
  match readValue? 127 (cs.length + 1) cs with
  | some (v, rest) => if skip rest = [] then some v else none
  | none => none

end AbstractScript.Json
