import AbstractScript.Proofs.TokenShape
import AbstractScript.Syntax.OfTokens

/-!
# What literals can be written as

A numeric literal always denotes a number. A string literal can hold an escape sequence without its
hexadecimal digits, but never a lone backslash at its end: its inside is made of characters other
than the backslash and of backslashes with the characters they apply to.
-/
namespace AbstractScript

open Grammar

/-! ## Digits -/

namespace Grammar.Spells

variable {front : List Char}

/-- Any number of characters of a class. -/
theorem manyChars {k : CharClass} (h : Spells scripts (.many (.char k)) front) :
    ∀ x ∈ front, k.holds x := by
  obtain ⟨xss, spelled, rfl⟩ := h.many
  intro x mem
  obtain ⟨xs, listed, mem⟩ := List.mem_flatten.1 mem
  obtain ⟨y, holds, rfl⟩ := (spelled xs listed).char
  rwa [List.mem_singleton.1 mem]

/-- One or more characters of a class. -/
theorem someChars {k : CharClass} (h : Spells scripts (.some (.char k)) front) :
    front ≠ [] ∧ ∀ x ∈ front, k.holds x := by
  obtain ⟨xs, ys, first, further, rfl⟩ := h.seq
  obtain ⟨x, holds, rfl⟩ := first.char
  exact ⟨List.cons_ne_nil _ _, List.forall_mem_cons.2 ⟨holds, further.manyChars⟩⟩

end Grammar.Spells

namespace Number

/-- Decimal digits are a number. -/
theorem natOfDigits?_digits {ds : List Char} (some : ds ≠ []) (digits : ∀ d ∈ ds, d.isDigit) :
    natOfDigits? ds = .some (Nat.ofDigitChars 10 ds 0) := by
  rw [natOfDigits?, if_pos ⟨some, List.all_eq_true.2 digits⟩]

/-- Hexadecimal digits are a number. -/
theorem exists_ofHex? {ds : List Char} (digits : ∀ d ∈ ds, (hexDigit? d).isSome) :
    ∃ x, ofHex? ds = some x := by
  suffices all : ∀ x : Float, ∃ y, ds.foldlM
      (fun x c => (hexDigit? c).map fun d => x * 16 + Float.ofNat d) x = some y from all 0
  induction ds with
  | nil => exact fun x => ⟨x, rfl⟩
  | cons d ds ih =>
    intro x
    obtain ⟨first, rest⟩ := List.forall_mem_cons.1 digits
    obtain ⟨n, digit⟩ := Option.isSome_iff_exists.1 first
    obtain ⟨y, read⟩ := ih rest (x * 16 + Float.ofNat n)
    refine ⟨y, ?_⟩
    rw [List.foldlM_cons, digit]
    exact read

/-- The digits at the front end where no digit follows. -/
theorem spanDigits_append {ds rest : List Char} (digits : ∀ d ∈ ds, d.isDigit)
    (ends : ∀ c ∈ rest.head?, ¬c.isDigit) : spanDigits (ds ++ rest) = (ds, rest) := by
  have none : rest.takeWhile Char.isDigit = [] ∧ rest.dropWhile Char.isDigit = rest := by
    cases rest with
    | nil => exact ⟨rfl, rfl⟩
    | cons c rest =>
      have := ends c rfl
      simp [this]
  rw [spanDigits, List.takeWhile_append_of_pos digits, List.dropWhile_append_of_pos digits, none.1,
    none.2, List.append_nil]

/-- How the exponent part of a numeral is written: not at all, or `e` with a signed integer. -/
inductive IsExponent : List Char → Prop
  | none : IsExponent []
  | some {e : Char} {sign ds : List Char} (letter : e = 'e' ∨ e = 'E')
    (signed : sign = [] ∨ sign = ['+'] ∨ sign = ['-']) (some : ds ≠ [])
    (digits : ∀ d ∈ ds, d.isDigit) : IsExponent (e :: (sign ++ ds))

/-- An exponent part begins with its letter. -/
theorem IsExponent.letter {cs : List Char} (h : IsExponent cs) :
    ∀ c ∈ cs.head?, c = 'e' ∨ c = 'E' := by
  cases h with
  | none => nofun
  | some letter =>
    rintro c ⟨⟩
    exact letter

/-- No digit begins an exponent part. -/
theorem IsExponent.head {cs : List Char} (h : IsExponent cs) : ∀ c ∈ cs.head?, ¬c.isDigit := by
  intro c mem
  rcases h.letter c mem with rfl | rfl <;> decide

/-- The number that an exponent part denotes. -/
theorem exponentPart?_signed {c : Char} {sign ds : List Char} (letter : c = 'e' ∨ c = 'E')
    (signed : sign = [] ∨ sign = ['+'] ∨ sign = ['-']) (some : ds ≠ [])
    (digits : ∀ d ∈ ds, d.isDigit) :
    exponentPart? (c :: (sign ++ ds)) = .some
      (if sign = ['-'] then -(Nat.ofDigitChars 10 ds 0 : Int) else Nat.ofDigitChars 10 ds 0) := by
  have read := natOfDigits?_digits some digits
  simp only [exponentPart?, if_pos letter]
  rcases signed with rfl | rfl | rfl
  · obtain ⟨d, ds, rfl⟩ := List.exists_cons_of_ne_nil some
    have digit := digits d List.mem_cons_self
    -- a digit is no sign
    split
    next same => cases same; cases digit
    next same => cases same; cases digit
    next => simp [read]
  · simp [read]
  · simp [read]

/-- An exponent part is read. -/
theorem IsExponent.exists_read {cs : List Char} (h : IsExponent cs) :
    ∃ e, exponentPart? cs = .some e := by
  cases h with
  | none => exact ⟨0, rfl⟩
  | some letter signed some digits => exact ⟨_, exponentPart?_signed letter signed some digits⟩

/-- The parts of an unsigned decimal numeral: the digits on both sides of the point, the exponent part
as it is written, and the power of ten that it stands for. -/
structure Numeral where
  whole : List Char
  fraction : List Char
  exponent : List Char
  power : Int

namespace Numeral

/-- The digits without the point, as a number. -/
def mantissa (n : Numeral) : Nat := Nat.ofDigitChars 10 (n.whole ++ n.fraction) 0

/-- The power of ten of the last digit. -/
def lastPower (n : Numeral) : Int := n.power - n.fraction.length

/-- Takes a numeral apart, as `ofNumeral?` does before it rounds. -/
def read? (cs : List Char) : Option Numeral :=
  let (whole, rest) := spanDigits cs
  let (fraction, rest) := match rest with
    | '.' :: more => spanDigits more
    | _ => ([], rest)
  if whole = [] ∧ fraction = [] then none
  else (exponentPart? rest).map fun e => ⟨whole, fraction, rest, e⟩

end Numeral

/-- A numeral is read as the double nearest to what its parts say. -/
theorem ofNumeral?_eq (cs : List Char) :
    ofNumeral? cs = (Numeral.read? cs).map fun n => ofDecimal n.mantissa n.lastPower := by
  have parts : ∀ p : List Char × List Char, ∀ whole : List Char,
      (if whole = [] ∧ p.1 = [] then none
        else (exponentPart? p.2).map fun e =>
          ofDecimal (Nat.ofDigitChars 10 (whole ++ p.1) 0) (e - p.1.length)) =
      (if whole = [] ∧ p.1 = [] then none
        else (exponentPart? p.2).map fun e => (⟨whole, p.1, p.2, e⟩ : Numeral)).map
          fun n => ofDecimal n.mantissa n.lastPower := by
    intro p whole
    split
    · rfl
    · rw [Option.map_map]
      rfl
  exact parts _ _

variable {whole fraction exponent : List Char} {e : Int}

/-- Digits with a point are a numeral. -/
theorem Numeral.read?_point (digits : ∀ d ∈ whole, d.isDigit) (digits' : ∀ d ∈ fraction, d.isDigit)
    (some : ¬(whole = [] ∧ fraction = [])) (h : IsExponent exponent)
    (read : exponentPart? exponent = .some e) :
    read? (whole ++ '.' :: (fraction ++ exponent)) = .some ⟨whole, fraction, exponent, e⟩ := by
  have front : spanDigits (whole ++ '.' :: (fraction ++ exponent)) =
      (whole, '.' :: (fraction ++ exponent)) :=
    spanDigits_append digits (by rintro c ⟨⟩; decide)
  simp only [read?, front, spanDigits_append digits' h.head, if_neg some, read]
  rfl

/-- Digits without a point are a numeral. -/
theorem Numeral.read?_whole (digits : ∀ d ∈ whole, d.isDigit) (some : whole ≠ [])
    (h : IsExponent exponent) (read : exponentPart? exponent = .some e) :
    read? (whole ++ exponent) = .some ⟨whole, [], exponent, e⟩ := by
  simp only [read?, spanDigits_append digits h.head]
  split
  next point =>
    cases h with
    | some letter => rcases letter with h | h <;> cases h
  next =>
    simp [some, read]

/-- Digits with a point are a number. -/
theorem ofNumeral?_point (digits : ∀ d ∈ whole, d.isDigit) (digits' : ∀ d ∈ fraction, d.isDigit)
    (some : ¬(whole = [] ∧ fraction = [])) (h : IsExponent exponent)
    (read : exponentPart? exponent = .some e) :
    ofNumeral? (whole ++ '.' :: (fraction ++ exponent)) =
      .some (ofDecimal (Nat.ofDigitChars 10 (whole ++ fraction) 0) (e - fraction.length)) := by
  rw [ofNumeral?_eq, Numeral.read?_point digits digits' some h read]
  rfl

/-- Digits without a point are a number. -/
theorem ofNumeral?_whole (digits : ∀ d ∈ whole, d.isDigit) (some : whole ≠ [])
    (h : IsExponent exponent) (read : exponentPart? exponent = .some e) :
    ofNumeral? (whole ++ exponent) = .some (ofDecimal (Nat.ofDigitChars 10 whole 0) e) := by
  rw [ofNumeral?_eq, Numeral.read?_whole digits some h read]
  simp [Numeral.mantissa, Numeral.lastPower]

end Number

/-! ## Numeric literals -/

namespace Grammar.Spells

variable {front : List Char}

/-- One of several characters. -/
theorem oneOfChars (cs : List Char) {texts : List String}
    (are : texts.map String.toList = cs.map ([·]))
    (h : Spells scripts (.oneOfTexts texts) front) : ∃ c ∈ cs, front = [c] := by
  obtain ⟨s, mem, rfl⟩ := h.oneOfTexts
  have mem : s.toList ∈ cs.map ([·]) := are ▸ List.mem_map_of_mem mem
  obtain ⟨c, mem, same⟩ := List.mem_map.1 mem
  exact ⟨c, mem, same.symm⟩

/-- An exponent part is written as one. -/
theorem exponentPart (h : Spells scripts (.opt Grammar.exponentPart) front) :
    Number.IsExponent front := by
  rcases h.opt with h | rfl
  · obtain ⟨_, ds, first, digits, rfl⟩ := h.seq
    obtain ⟨_, sign, spelled, signed, rfl⟩ := first.seq
    obtain ⟨e, letter, rfl⟩ := oneOfChars ['e', 'E'] rfl spelled
    obtain ⟨some, digits⟩ := digits.someChars
    have signed : sign = [] ∨ sign = ['+'] ∨ sign = ['-'] := by
      rcases signed.opt with signed | rfl
      · obtain ⟨c, mem, rfl⟩ := oneOfChars ['+', '-'] rfl signed
        simpa using mem
      · exact .inl rfl
    exact .some (by simpa using letter) signed some digits
  · exact .none

/-- The whole part of a decimal numeral is zero or digits that do not begin with zero. -/
theorem decimalInteger (h : Spells scripts Grammar.decimalInteger front) :
    front = ['0'] ∨ ∃ d ds, front = d :: ds ∧ d ≠ '0' ∧ ∀ x ∈ front, x.isDigit := by
  rcases h.alt with zero | h
  · exact .inl zero.text
  · obtain ⟨_, ds, first, further, rfl⟩ := h.seq
    obtain ⟨d, nonzero, rfl⟩ := first.char
    have ⟨digit, ne⟩ : d.isDigit ∧ d ≠ '0' := by simpa [CharClass.holds] using nonzero
    exact .inr ⟨d, ds, rfl, ne, List.forall_mem_cons.2 ⟨digit, further.manyChars⟩⟩

/-- The fraction of a decimal numeral: nothing, or a point and any number of digits. -/
theorem fraction (h : Spells scripts
    (.opt (.all [.lit ".", .unless identifierStart, .many (.char .digit)])) front) :
    front = [] ∨ ∃ ds, front = '.' :: ds ∧ ∀ d ∈ ds, d.isDigit := by
  rcases h.opt with h | rfl
  · obtain ⟨_, ds, first, digits, rfl⟩ := h.seq
    obtain ⟨point, none, spelled, lookahead, rfl⟩ := first.seq
    obtain rfl := spelled.text
    obtain rfl := lookahead.unless
    exact .inr ⟨ds, rfl, digits.manyChars⟩
  · exact .inl rfl

/-- A decimal literal is a number, and no `x` follows a zero at its beginning. -/
theorem decimalLiteral (h : Spells scripts Grammar.decimalLiteral front) :
    (∃ x, Number.ofNumeral? front = some x) ∧
      ∀ ds, front ≠ '0' :: 'x' :: ds ∧ front ≠ '0' :: 'X' :: ds := by
  rcases h.alt with h | h
  · obtain ⟨_, exponent, first, last, rfl⟩ := h.seq
    obtain ⟨whole, middle, integer, point, rfl⟩ := first.seq
    have ends := last.exponentPart
    obtain ⟨some, digits⟩ : whole ≠ [] ∧ ∀ d ∈ whole, d.isDigit := by
      rcases integer.decimalInteger with rfl | ⟨d, ds, rfl, -, digits⟩
      · exact ⟨nofun, by simp⟩
      · exact ⟨nofun, digits⟩
    -- what follows the whole part does not begin with `x`
    have next : ∀ c ∈ (middle ++ exponent).head?, c = '.' ∨ c = 'e' ∨ c = 'E' := by
      rcases point.fraction with rfl | ⟨ds, rfl, -⟩
      · exact fun c mem => .inr (ends.letter c mem)
      · rintro c ⟨⟩
        exact .inl rfl
    have noX : ∀ x ds, x ≠ '.' → x ≠ 'e' → x ≠ 'E' →
        whole ++ (middle ++ exponent) ≠ '0' :: x :: ds := by
      intro x ds dot small large same
      rcases integer.decimalInteger with rfl | ⟨d, ds', rfl, nonzero, -⟩
      · have rest : middle ++ exponent = x :: ds := (List.cons.inj same).2
        rcases next x (by rw [rest]; rfl) with rfl | rfl | rfl
        · exact dot rfl
        · exact small rfl
        · exact large rfl
      · exact nonzero (List.cons.inj same).1
    rw [List.append_assoc]
    refine ⟨?_, fun ds => ⟨noX _ _ (by decide) (by decide) (by decide),
      noX _ _ (by decide) (by decide) (by decide)⟩⟩
    obtain ⟨e, read⟩ := ends.exists_read
    rcases point.fraction with rfl | ⟨ds, rfl, digits'⟩
    · exact ⟨_, Number.ofNumeral?_whole digits some ends read⟩
    · exact ⟨_, Number.ofNumeral?_point digits digits' (fun none => some none.1) ends read⟩
  · obtain ⟨_, exponent, first, last, rfl⟩ := h.seq
    obtain ⟨point, ds, spelled, digits, rfl⟩ := first.seq
    obtain rfl := spelled.text
    obtain ⟨some, digits⟩ := digits.someChars
    refine ⟨?_, fun ds => ⟨?_, ?_⟩⟩
    · have noDigits : ∀ d ∈ ([] : List Char), d.isDigit := List.forall_mem_nil _
      obtain ⟨e, read⟩ := last.exponentPart.exists_read
      exact ⟨_, Number.ofNumeral?_point noDigits digits (fun none => some none.2)
        last.exponentPart read⟩
    · rintro ⟨⟩
    · rintro ⟨⟩

/-- A hexadecimal numeral is `0x` and digits. -/
theorem hexInteger (h : Spells scripts Grammar.hexInteger front) :
    ∃ x ds, front = '0' :: x :: ds ∧ (x = 'x' ∨ x = 'X') ∧
      ∀ d ∈ ds, (Number.hexDigit? d).isSome := by
  obtain ⟨_, ds, first, digits, rfl⟩ := h.seq
  obtain ⟨s, mem, rfl⟩ := first.oneOfTexts
  obtain ⟨-, digits⟩ := digits.someChars
  simp only [List.mem_cons, List.not_mem_nil, or_false] at mem
  rcases mem with rfl | rfl
  · exact ⟨'x', ds, rfl, .inl rfl, digits⟩
  · exact ⟨'X', ds, rfl, .inr rfl, digits⟩

end Grammar.Spells

/-- A numeric literal denotes a number. -/
theorem ScriptToken.exists_numberOf {text : String}
    (h : Spells scripts Rule.numericLiteral.body text.toList) (span : Span) :
    ∃ x, numberOf span text = .ok x := by
  rcases h.notBefore.alt with h | h
  · obtain ⟨x, ds, is, letter, digits⟩ := h.hexInteger
    obtain ⟨y, read⟩ := Number.exists_ofHex? digits
    refine ⟨y, ?_⟩
    rcases letter with rfl | rfl <;> simp only [numberOf, is, read, numberOf.number]
  · obtain ⟨⟨y, read⟩, decimal⟩ := h.decimalLiteral
    refine ⟨y, ?_⟩
    rw [numberOf]
    split
    next is => exact absurd is (decimal _).1
    next is => exact absurd is (decimal _).2
    next => rw [read]; rfl

/-! ## String literals -/

namespace Escape

/-- The inside of a string literal: characters other than the backslash, and backslashes with what
they apply to. -/
inductive IsInside : List Char → Prop
  | nil : IsInside []
  | plain {c cs} (ne : c ≠ '\\') (rest : IsInside cs) : IsInside (c :: cs)
  | escape {c cs} (rest : IsInside cs) : IsInside ('\\' :: c :: cs)
  | newline {cs} (rest : IsInside cs) : IsInside ('\\' :: '\r' :: '\n' :: cs)

/-- What follows a character that is no backslash. -/
theorem IsInside.tail {c : Char} {cs : List Char} (h : IsInside (c :: cs)) (ne : c ≠ '\\') :
    IsInside cs := by
  cases h with
  | plain _ rest => exact rest
  | escape => exact absurd rfl ne
  | newline => exact absurd rfl ne

/-- What follows a backslash and the character it applies to. -/
theorem IsInside.afterEscape {c : Char} {cs : List Char} (h : IsInside ('\\' :: c :: cs)) :
    (c = '\r' ∧ ∃ ds, cs = '\n' :: ds ∧ IsInside ds) ∨ IsInside cs := by
  cases h with
  | plain ne => exact absurd rfl ne
  | escape rest => exact .inr rest
  | newline rest => exact .inl ⟨rfl, _, rfl, rest⟩

/-- What follows hexadecimal digits. -/
theorem IsInside.afterHex {count value code : Nat} {cs rest : List Char} (h : IsInside cs)
    (read : readHex? count value cs = some (code, rest)) : IsInside rest := by
  induction count generalizing value cs with
  | zero =>
    cases read
    exact h
  | succ count ih =>
    cases cs with
    | nil => cases read
    | cons c cs =>
      rw [readHex?] at read
      split at read
      next d digit => exact ih (h.tail (by rintro rfl; cases digit)) read
      · cases read

/-- What follows the escape of a low surrogate. -/
theorem IsInside.afterLowSurrogate {cs rest : List Char} {low : Nat} (h : IsInside cs)
    (read : lowSurrogate? cs = some (low, rest)) : IsInside rest := by
  unfold lowSurrogate? at read
  split at read
  next cs =>
    split at read
    next r =>
      split at read
      · cases read
        rcases h.afterEscape with ⟨⟨⟩, -⟩ | h
        exact h.afterHex r
      · cases read
    · cases read
  · cases read

/-- An escape sequence inside a string literal ends, and what follows it is inside as well. -/
theorem IsInside.readEscape {cs : List Char} (h : IsInside ('\\' :: cs)) :
    readEscape cs ≠ .error .unterminated ∧
      ∀ front rest, readEscape cs = .ok (front, rest) → IsInside rest := by
  unfold Escape.readEscape
  split
  -- there is nothing behind the backslash
  case h_1 =>
    cases h with
    | plain ne => exact absurd rfl ne
  -- two hexadecimal digits
  case h_2 cs =>
    rcases h.afterEscape with ⟨⟨⟩, -⟩ | h
    split
    next r =>
      refine ⟨by rintro ⟨⟩, ?_⟩
      rintro front rest ⟨⟩
      exact h.afterHex r
    · exact ⟨by rintro ⟨⟩, fun _ _ read => by cases read⟩
  -- four hexadecimal digits, and those of the second half of a pair of surrogates
  case h_3 cs =>
    rcases h.afterEscape with ⟨⟨⟩, -⟩ | h
    split
    next r =>
      have h := h.afterHex r
      refine ⟨by grind, fun front rest read => ?_⟩
      split at read
      · split at read
        next low =>
          cases read
          exact h.afterLowSurrogate low
        · cases read
          exact h
      · cases read
        exact h
    · exact ⟨by rintro ⟨⟩, fun _ _ read => by cases read⟩
  -- a zero, with or without a digit behind it
  case h_4 cs =>
    rcases h.afterEscape with ⟨⟨⟩, -⟩ | h
    refine ⟨by grind, fun front rest read => ?_⟩
    split at read
    · split at read <;> · cases read; exact h
    · cases read
      exact h
  -- a line end of two characters
  case h_5 cs =>
    refine ⟨by rintro ⟨⟩, ?_⟩
    rintro front rest ⟨⟩
    rcases h.afterEscape with ⟨-, ds, same, rest⟩ | h
    · cases same
      exact rest
    · exact h.tail (by decide)
  -- any other character
  case h_6 c cs _ _ _ noNewline =>
    rcases h.afterEscape with ⟨rfl, ds, rfl, -⟩ | h
    · exact absurd rfl (noNewline ds rfl)
    · refine ⟨by grind, fun front rest read => ?_⟩
      split at read
      · cases read
        exact h
      · split at read <;> · cases read; exact h

/-- The inside of a string literal never ends within an escape sequence. -/
theorem IsInside.resolve_ne {cs : List Char} (h : IsInside cs) :
    resolve cs ≠ .error .unterminated := by
  have mapped : ∀ {x : Except Fault (List Char)} {f : List Char → List Char},
      x ≠ .error .unterminated → f <$> x ≠ .error .unterminated := by
    rintro (fault | cs) f ne
    · exact fun same => ne (congrArg Except.error (Except.error.inj same))
    · exact nofun
  fun_induction resolve cs with
  | case1 => nofun
  | case2 cs front rest read shorter ih => exact mapped (ih (h.readEscape.2 front rest read))
  | case3 cs fault read =>
    rintro ⟨⟩
    exact h.readEscape.1 read
  | case4 c cs ne ih => exact mapped (ih (h.tail ne))

/-- The inside of a string literal, one character or escape sequence after another. -/
theorem IsInside.of_units {xss : List (List Char)} (units : ∀ xs ∈ xss,
    (∃ c, c ≠ '\\' ∧ xs = [c]) ∨ (∃ c, xs = ['\\', c]) ∨ xs = ['\\', '\r', '\n']) :
    IsInside xss.flatten := by
  induction xss with
  | nil => exact .nil
  | cons xs xss ih =>
    obtain ⟨first, rest⟩ := List.forall_mem_cons.1 units
    rcases first with ⟨c, ne, rfl⟩ | ⟨c, rfl⟩ | rfl
    · exact .plain ne (ih rest)
    · exact .escape (ih rest)
    · exact .newline (ih rest)

end Escape

namespace Grammar.Spells

variable {front : List Char}

/-- Any character but a backslash or what begins one of two other patterns. -/
theorem plainChar {p q : Pattern Rule}
    (h : Spells scripts (anyBut (.oneOf [p, .lit "\\", q])) front) :
    ∃ c, c ≠ '\\' ∧ front = [c] := by
  obtain ⟨a, b, ts, h, reads⟩ := h
  cases h with
  | seq none between any =>
    cases between
    cases none with
    | «unless» none =>
      obtain ⟨xs, spelled, reads'⟩ := of_gives any
      obtain ⟨c, -, rfl⟩ := spelled.char
      obtain rfl := reads.text_unique reads'
      refine ⟨c, ?_, rfl⟩
      rintro rfl
      -- the backslash is the second of the characters that are excluded
      cases none with
      | right _ none =>
        cases none with
        | right none _ =>
          cases none with
          | text taken =>
            rw [show "\\".toList = ['\\'] from rfl, Cursor.take?_eq_some_iff.2 reads] at taken
            cases taken

/-- A string literal is its inside between two marks. -/
theorem quotedString {mark : Char} {s : String} (is : s.toList = [mark])
    (h : Spells scripts (Grammar.quotedString s) front) :
    ∃ cs, front = mark :: (cs ++ [mark]) ∧ Escape.IsInside cs := by
  obtain ⟨_, back, front, last, rfl⟩ := h.seq
  obtain ⟨start, _, first, inside, rfl⟩ := front.seq
  obtain ⟨xss, units, rfl⟩ := inside.many
  obtain rfl : start = [mark] := first.text.trans is
  obtain rfl : back = [mark] := last.text.trans is
  refine ⟨xss.flatten, by simp, .of_units fun xs mem => ?_⟩
  rcases (units xs mem).alt with h | h
  · obtain ⟨_, ys, backslash, applied, rfl⟩ := h.seq
    obtain rfl := backslash.text
    rcases applied.alt with h | h
    · obtain rfl := h.text
      exact .inr (.inr rfl)
    · obtain ⟨c, -, rfl⟩ := h.char
      exact .inr (.inl ⟨c, rfl⟩)
  · exact .inl h.plainChar

end Grammar.Spells

/-- A text with a mark on either side of something has two bytes at least. -/
theorem two_le_utf8ByteSize {text : String} {first last : Char} {cs : List Char}
    (h : text.toList = first :: (cs ++ [last])) : 2 ≤ text.utf8ByteSize := by
  obtain rfl : text = String.ofList (first :: (cs ++ [last])) := by
    rw [← h, String.ofList_toList]
  have := first.utf8Size_pos
  have := last.utf8Size_pos
  simp
  omega

/-- A string literal denotes a string, unless hexadecimal digits are missing. -/
theorem ScriptToken.fault_of_stringOf {text : String} {span : Span} {e : SyntaxError}
    (h : Spells scripts Rule.stringLiteral.body text.toList)
    (failed : stringOf span text = .error e) : e.fault = .hexadecimalEscape := by
  have ⟨mark, cs, is, inside⟩ : ∃ mark cs, text.toList = mark :: (cs ++ [mark]) ∧
      Escape.IsInside cs := by
    rcases h.alt with h | h
    · exact ⟨_, h.quotedString rfl⟩
    · exact ⟨_, h.quotedString rfl⟩
  have inner : (text.toList.drop 1).dropLast = cs := by simp [is]
  rw [stringOf, if_neg (Nat.not_lt.2 (two_le_utf8ByteSize is)), inner] at failed
  split at failed
  · cases failed
  · cases failed
    rfl
  next unterminated => exact absurd unterminated inside.resolve_ne

end AbstractScript
