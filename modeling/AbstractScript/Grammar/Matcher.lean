import AbstractScript.Grammar.Pattern
import AbstractScript.Grammar.Token

/-!
# Matching a grammar

The matcher runs a pattern on the rest of the input. A match gives tokens and what is left of the
input. Whether it matches or not, it also tells how far into the input the rules that it tried have
reached: a text that the grammar refuses is reported at the furthest place where a rule was tried
in vain.
-/
namespace AbstractScript.Grammar

/-- A place in the input and what follows it. -/
structure Cursor where
  position : Position
  rest : List Char
  deriving Repr

namespace Cursor

/-- The beginning of an input. -/
def ofChars (cs : List Char) : Cursor := ⟨.start, cs⟩

/-- Takes a fixed text. -/
def take? : List Char → Cursor → Option Cursor
  | [], c => some c
  | x :: xs, c =>
    match c.rest with
    | y :: ys => if x = y then take? xs ⟨c.position.advance y, ys⟩ else none
    | [] => none

/-- Takes one character with property `p`. -/
def takeChar? (p : Char → Bool) (c : Cursor) : Option Cursor :=
  match c.rest with
  | y :: ys => if p y then some ⟨c.position.advance y, ys⟩ else none
  | [] => none

/-- The characters at the front that take up `size` bytes. -/
def takeBytes : Nat → List Char → List Char
  | _, [] => []
  | size, c :: cs => if size = 0 then [] else c :: takeBytes (size - c.utf8Size) cs

/-- The text between two places. -/
def textTo (a b : Cursor) : String :=
  String.ofList (takeBytes (b.position.offset - a.position.offset) a.rest)

/-- The span between two places. -/
def spanTo (a b : Cursor) : Span := .ofPosition a.position b.position.offset

end Cursor

/-- What running a pattern gives. -/
inductive Outcome (R : Type) where
  /-- A match: its tokens, the rest of the input and the furthest failure so far. -/
  | matched (tokens : List (Token R)) (rest : Cursor) (furthest : Position)
  /-- No match, and the furthest failure so far. -/
  | failed (furthest : Position)
  /-- The steps ran out. -/
  | spent

/-- Where a pattern is run: inside a word, or under an odd number of `unless`. -/
structure Mode where
  inWord : Bool
  negated : Bool
  deriving DecidableEq, Repr

/-- The later of two places. -/
def furtherOf (a b : Position) : Position := if a.offset < b.offset then b else a

/-- Records the failure of a rule outside words at `here`. Under `unless` it is the success of the
rule that counts as a failure. -/
def noteAttempt (mode : Mode) (succeeded : Bool) (here furthest : Position) : Position :=
  if !mode.inWord && succeeded == mode.negated then furtherOf furthest here else furthest

variable {R : Type}

/-- Runs `step` as often as it matches, at most `count` times, and collects the tokens. -/
def iterate (step : Cursor → Position → Outcome R) :
    Nat → List (Token R) → Cursor → Position → Outcome R
  | 0, _, _, _ => .spent
  | count + 1, done, c, far =>
    match step c far with
    | .matched tokens c far => iterate step count (tokens.reverseAux done) c far
    | .failed far => .matched done.reverse c far
    | .spent => .spent

/-- Runs a pattern. The number of steps bounds how deep matches nest and how often each repeats. -/
def run (g : RuleSet R) : Nat → Mode → Pattern R → Cursor → Position → Outcome R
  | 0, _, _, _, _ => .spent
  | steps + 1, mode, p, c, far =>
    let skip (c : Cursor) : Outcome R :=
      if mode.inWord then .matched [] c far
      else run g steps ⟨true, mode.negated⟩ g.blank c far
    match p with
    | .text cs =>
      match c.take? cs with
      | some c => .matched [] c far
      | none => .failed far
    | .char k =>
      match c.takeChar? k.holds with
      | some c => .matched [] c far
      | none => .failed far
    | .stop => if c.rest.isEmpty then .matched [] c far else .failed far
    | .seq a b =>
      match run g steps mode a c far with
      | .matched front c far =>
        match skip c with
        | .matched _ c _ =>
          match run g steps mode b c far with
          | .matched back c far => .matched (front ++ back) c far
          | other => other
        | other => other
      | other => other
    | .alt a b =>
      match run g steps mode a c far with
      | .failed far => run g steps mode b c far
      | other => other
    | .opt a =>
      match run g steps mode a c far with
      | .failed far => .matched [] c far
      | other => other
    | .many a =>
      match run g steps mode a c far with
      | .matched tokens c far =>
        iterate (fun c far =>
          match skip c with
          | .matched _ c _ => run g steps mode a c far
          | other => other) steps tokens.reverse c far
      | .failed far => .matched [] c far
      | .spent => .spent
    | .unless a =>
      match run g steps ⟨mode.inWord, !mode.negated⟩ a c far with
      | .matched _ _ far => .failed far
      | .failed far => .matched [] c far
      | .spent => .spent
    | .rule r =>
      let inside : Mode := ⟨mode.inWord || g.manner r = .word, mode.negated⟩
      match run g steps inside (g.body r) c far with
      | .matched tokens rest far =>
        let token : List (Token R) :=
          if mode.inWord then []
          else match g.manner r with
            | .word => [.word r (c.spanTo rest) (c.textTo rest)]
            | .ordinary => [.node r (c.spanTo rest) tokens]
        .matched token rest (noteAttempt mode true c.position far)
      | .failed far => .failed (noteAttempt mode false c.position far)
      | .spent => .spent

/-- Steps enough for any text: between two characters a match nests less than a thousand deep. -/
def stepsFor (cs : List Char) : Nat := 1000 * (cs.length + 2)

/-- Matches a rule at the beginning of a text: its token, or the furthest place where a rule was
tried in vain. -/
def parse (g : RuleSet R) (r : R) (text : String) : Except Position (Token R) :=
  let cs := text.toList
  match run g (stepsFor cs) ⟨false, false⟩ (.rule r) (.ofChars cs) .start with
  | .matched (token :: _) _ _ => .ok token
  | .matched [] _ far => .error far
  | .failed far => .error far
  | .spent => .error .start

end AbstractScript.Grammar
