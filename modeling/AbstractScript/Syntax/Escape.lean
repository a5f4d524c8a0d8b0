import AbstractScript.Number.Read
import AbstractScript.Text.Units

/-!
# Escape sequences in string literals

A backslash stands for a character that the source text does not hold as such. Two `\u` escapes of
a surrogate pair are one character; any other surrogate is U+FFFD.
-/
namespace AbstractScript.Escape

/-- The two ways in which the inside of a string literal can be wrong. -/
inductive Fault where
  | invalidHexadecimal
  | unterminated
  deriving DecidableEq, Repr

/-- Reads a fixed number of hexadecimal digits. -/
def readHex? : Nat → Nat → List Char → Option (Nat × List Char)
  | 0, value, cs => some (value, cs)
  | count + 1, value, c :: cs =>
    match Number.hexDigit? c with
    | some d => readHex? count (value * 16 + d) cs
    | none => none
  | _ + 1, _, [] => none

/-- Hexadecimal digits are taken from the front. -/
theorem length_of_readHex? {count value code : Nat} {cs rest : List Char}
    (h : readHex? count value cs = some (code, rest)) : rest.length + count = cs.length := by
  induction count generalizing value cs with
  | zero => simp_all [readHex?]
  | succ count ih =>
    match cs with
    | [] => simp [readHex?] at h
    | c :: cs =>
      rw [readHex?] at h
      split at h
      · simpa [← Nat.add_assoc] using ih h
      · cases h

/-- The character of a code that is not a pair of surrogates. -/
def scalar (code : Nat) : Char :=
  if 0xD800 ≤ code ∧ code < 0xE000 then Text.replacement else Char.ofNat code

/-- The code of a low surrogate escape at the front, and what follows it. -/
def lowSurrogate? : List Char → Option (Nat × List Char)
  | '\\' :: 'u' :: cs =>
    match readHex? 4 0 cs with
    | some (low, rest) => if 0xDC00 ≤ low ∧ low < 0xE000 then some (low, rest) else none
    | none => none
  | _ => none

/-- What follows a low surrogate escape is six characters shorter. -/
theorem length_of_lowSurrogate? {cs rest : List Char} {low : Nat}
    (h : lowSurrogate? cs = some (low, rest)) : rest.length + 6 = cs.length := by
  unfold lowSurrogate? at h
  split at h
  next cs =>
    split at h
    next r =>
      have := length_of_readHex? r
      grind
    · cases h
  · cases h

/-- The characters that a backslash and one letter stand for. -/
def letter? : Char → Option Char
  | 'n' => some '\n'
  | 't' => some '\t'
  | 'r' => some '\r'
  | 'b' => some '\x08'
  | 'f' => some '\x0c'
  | 'v' => some '\x0b'
  | _ => none

/-- Reads an escape sequence after its backslash: the characters it stands for and what follows. A
backslash before a line terminator stands for nothing. -/
def readEscape : List Char → Except Fault (List Char × List Char)
  | [] => .error .unterminated
  | 'x' :: cs =>
    match readHex? 2 0 cs with
    | some (code, rest) => .ok ([scalar code], rest)
    | none => .error .invalidHexadecimal
  | 'u' :: cs =>
    match readHex? 4 0 cs with
    | some (code, rest) =>
      if 0xD800 ≤ code ∧ code < 0xDC00 then
        match lowSurrogate? rest with
        | some (low, rest) =>
          .ok ([Char.ofNat (0x10000 + (code - 0xD800) * 0x400 + (low - 0xDC00))], rest)
        | none => .ok ([Text.replacement], rest)
      else .ok ([scalar code], rest)
    | none => .error .invalidHexadecimal
  | '0' :: cs =>
    match cs with
    | d :: _ => if d.isDigit then .ok (['0'], cs) else .ok (['\x00'], cs)
    | [] => .ok (['\x00'], cs)
  | '\r' :: '\n' :: cs => .ok ([], cs)
  | c :: cs =>
    match letter? c with
    | some e => .ok ([e], cs)
    | none =>
      if c = '\r' ∨ c = '\n' ∨ c = '\u2028' ∨ c = '\u2029' then .ok ([], cs) else .ok ([c], cs)

/-- What follows an escape sequence is shorter than what the sequence begins. -/
theorem length_lt_of_readEscape {cs front rest : List Char}
    (h : readEscape cs = .ok (front, rest)) : rest.length < cs.length := by
  unfold readEscape at h
  split at h
  case h_1 => cases h
  case h_2 cs =>
    split at h
    next r => grind [length_of_readHex? r]
    · cases h
  case h_3 cs =>
    split at h
    next r =>
      have := length_of_readHex? r
      grind [length_of_lowSurrogate?]
    · cases h
  all_goals grind

/-- Resolves the escape sequences of the inside of a string literal. -/
def resolve : List Char → Except Fault (List Char)
  | [] => .ok []
  | '\\' :: cs =>
    match h : readEscape cs with
    | .ok (front, rest) =>
      have := length_lt_of_readEscape h
      (front ++ ·) <$> resolve rest
    | .error fault => .error fault
  | c :: cs => (c :: ·) <$> resolve cs
termination_by cs => cs.length
decreasing_by all_goals simp; try omega

end AbstractScript.Escape
