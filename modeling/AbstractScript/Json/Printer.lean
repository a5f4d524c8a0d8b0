import AbstractScript.Json.Basic
import AbstractScript.Number.Text

/-!
# Writing JSON

A compact form without blanks, and an indented form with one member or element on a line.
-/
namespace AbstractScript.Json

/-- A hexadecimal digit below 16. -/
def hexDigit (n : Nat) : Char := Number.radixDigit (n % 16)

/-- A character inside a string: quotes, backslashes and control characters are escaped. -/
def escape (c : Char) : List Char :=
  match c with
  | '"' => ['\\', '"']
  | '\\' => ['\\', '\\']
  | '\x08' => ['\\', 'b']
  | '\x0c' => ['\\', 'f']
  | '\n' => ['\\', 'n']
  | '\r' => ['\\', 'r']
  | '\t' => ['\\', 't']
  | c =>
    if c.toNat < 0x20 then ['\\', 'u', '0', '0', hexDigit (c.toNat / 16), hexDigit c.toNat] else [c]

/-- Appends a quoted string. -/
def pushQuoted (out : String) (s : String) : String :=
  (s.toList.foldl (fun out c => (escape c).foldl String.push out) (out.push '"')).push '"'

/-- A quoted string. -/
def quoted (s : String) : String := pushQuoted "" s

mutual

/-- Appends the compact form of a value. -/
def push (out : String) : Json → String
  | .null => out ++ "null"
  | .bool true => out ++ "true"
  | .bool false => out ++ "false"
  | .number literal => out ++ literal
  | .string s => pushQuoted out s
  | .array elements => (pushElements (out.push '[') true elements).push ']'
  | .object members => (pushMembers (out.push '\x7b') true members).push '\x7d'

/-- Appends elements; a comma precedes each but the first. -/
def pushElements (out : String) (first : Bool) : List Json → String
  | [] => out
  | v :: rest => pushElements (push (if first then out else out.push ',') v) false rest

/-- Appends members; a comma precedes each but the first. -/
def pushMembers (out : String) (first : Bool) : List (String × Json) → String
  | [] => out
  | (name, v) :: rest =>
    let out := if first then out else out.push ','
    pushMembers (push ((pushQuoted out name).push ':') v) false rest

end

/-- The compact form of a document. -/
def render (v : Json) : String := push "" v

/-- The lines of `inner` as the body of a container, each further line indented. -/
def indent (lines : List String) : List String := lines.map ("  " ++ ·)

/-- Puts `text` before the first line. -/
def before (text : String) : List String → List String
  | [] => [text]
  | line :: rest => (text ++ line) :: rest

/-- Puts `text` after the last line. -/
def after (text : String) : List String → List String
  | [] => [text]
  | [line] => [line ++ text]
  | line :: rest => line :: after text rest

/-- The lines of a container's items, with a comma after each item but the last. -/
def separated : List (List String) → List String
  | [] => []
  | [item] => item
  | item :: rest => after "," item ++ separated rest

/-- A container: its brackets on lines of their own, or nothing between them. -/
def bracketed (opening closing : String) : List (List String) → List String
  | [] => [opening ++ closing]
  | items => opening :: indent (separated items) ++ [closing]

mutual

/-- The lines of the indented form of a value. -/
def lines : Json → List String
  | .null => ["null"]
  | .bool b => [if b then "true" else "false"]
  | .number literal => [literal]
  | .string s => [quoted s]
  | .array elements => bracketed "[" "]" (elementLines elements)
  | .object members => bracketed "\x7b" "\x7d" (memberLines members)

/-- The lines of each element. -/
def elementLines : List Json → List (List String)
  | [] => []
  | v :: rest => lines v :: elementLines rest

/-- The lines of each member. -/
def memberLines : List (String × Json) → List (List String)
  | [] => []
  | (name, v) :: rest => before (quoted name ++ ": ") (lines v) :: memberLines rest

end

end AbstractScript.Json
