import AbstractScript.Proofs.PrintedPhrases

/-!
# Decimal literals

Every decimal literal denotes the number that its digits and its exponent say
(`DecimalLiteral.numberOf_text`), and with a semicolon behind it, it is a program of that number
(`Program.ofSource_decimalLiteral`), but for one kind of literal: no point before the start of a
name is part of a numeral, so that a point with an exponent right behind it accesses a member of the
number before the point (`Program.ofSource_exponentAtPoint`).
-/
namespace AbstractScript

open Grammar

/-! ## Parts of decimal literals -/

/-- Decimal digits. -/
structure Digits where
  chars : List Char
  digits : ∀ c ∈ chars, c.isDigit = true

/-- The digits before the point: zero, or digits that do not begin with zero. -/
structure WholePart where
  first : Char
  others : List Char
  digit : first.isDigit = true
  digits : ∀ c ∈ others, c.isDigit = true
  alone : first = '0' → others = []

/-- An exponent: its letter, perhaps a sign, and at least one digit. -/
structure ExponentPart extends Digits where
  letter : Char
  sign : List Char
  known : letter = 'e' ∨ letter = 'E'
  signed : sign = [] ∨ sign = ['+'] ∨ sign = ['-']
  nonempty : chars ≠ []

/-- A decimal literal: an integer, a point with digits before it, or a point with digits behind it
only; and perhaps an exponent. -/
inductive DecimalLiteral where
  | integer (whole : WholePart) (exponent : Option ExponentPart)
  | pointed (whole : WholePart) (fraction : Digits) (exponent : Option ExponentPart)
  | pointFirst (fraction : Digits) (nonempty : fraction.chars ≠ []) (exponent : Option ExponentPart)

variable {tail : List Char} {after : List String}

namespace WholePart

/-- The text of the part. -/
def chars (w : WholePart) : List Char := w.first :: w.others

/-- The number before the point. -/
def value (w : WholePart) : Float := Number.ofDecimal (Nat.ofDigitChars 10 w.chars 0) 0

/-- It holds digits only. -/
theorem isDigit_of_mem (w : WholePart) : ∀ c ∈ w.chars, c.isDigit = true :=
  List.forall_mem_cons.2 ⟨w.digit, w.digits⟩

end WholePart

namespace ExponentPart

/-- The text of an exponent that may be absent. -/
def charsOf : Option ExponentPart → List Char
  | none => []
  | some e => e.letter :: (e.sign ++ e.chars)

/-- The power of ten that an exponent stands for. -/
def valueOf : Option ExponentPart → Int
  | none => 0
  | some e =>
    if e.sign = ['-'] then -(Nat.ofDigitChars 10 e.chars 0 : Int) else Nat.ofDigitChars 10 e.chars 0

/-- The text is that of an exponent part. -/
theorem isExponent (e : Option ExponentPart) : Number.IsExponent (charsOf e) := by
  cases e with
  | none => exact .none
  | some e => exact .some e.known e.signed e.nonempty e.digits

/-- The text is read as the power. -/
theorem exponentPart?_charsOf (e : Option ExponentPart) :
    Number.exponentPart? (charsOf e) = some (valueOf e) := by
  cases e with
  | none => rfl
  | some e => exact Number.exponentPart?_signed e.known e.signed e.nonempty e.digits

end ExponentPart

namespace DecimalLiteral

/-- The text of the literal. -/
def chars : DecimalLiteral → List Char
  | integer whole exponent => whole.chars ++ ExponentPart.charsOf exponent
  | pointed whole fraction exponent =>
    whole.chars ++ '.' :: (fraction.chars ++ ExponentPart.charsOf exponent)
  | pointFirst fraction _ exponent => '.' :: (fraction.chars ++ ExponentPart.charsOf exponent)

/-- The text of the literal, as a string. -/
def text (d : DecimalLiteral) : String := String.ofList d.chars

/-- The number that the literal stands for: the double nearest to its digits times a power of
ten. -/
def value : DecimalLiteral → Float
  | integer whole exponent =>
    Number.ofDecimal (Nat.ofDigitChars 10 whole.chars 0) (ExponentPart.valueOf exponent)
  | pointed whole fraction exponent =>
    Number.ofDecimal (Nat.ofDigitChars 10 (whole.chars ++ fraction.chars) 0)
      (ExponentPart.valueOf exponent - fraction.chars.length)
  | pointFirst fraction _ exponent =>
    Number.ofDecimal (Nat.ofDigitChars 10 fraction.chars 0)
      (ExponentPart.valueOf exponent - fraction.chars.length)

/-- True if an exponent stands right behind the point. -/
def exponentAtPoint : DecimalLiteral → Bool
  | pointed _ fraction exponent => fraction.chars.isEmpty && exponent.isSome
  | _ => false

/-! ## The number of a literal -/

/-- The text is read as the value. -/
theorem ofNumeral?_chars (d : DecimalLiteral) : Number.ofNumeral? d.chars = some d.value := by
  cases d with
  | integer whole exponent =>
    exact Number.ofNumeral?_whole whole.isDigit_of_mem (List.cons_ne_nil _ _)
      (ExponentPart.isExponent exponent) (ExponentPart.exponentPart?_charsOf exponent)
  | pointed whole fraction exponent =>
    exact Number.ofNumeral?_point whole.isDigit_of_mem fraction.digits
      (fun none => List.cons_ne_nil _ _ none.1) (ExponentPart.isExponent exponent)
      (ExponentPart.exponentPart?_charsOf exponent)
  | pointFirst fraction nonempty exponent =>
    have digitless : ∀ d ∈ ([] : List Char), d.isDigit := List.forall_mem_nil _
    exact Number.ofNumeral?_point digitless fraction.digits
      (fun none => nonempty none.2) (ExponentPart.isExponent exponent)
      (ExponentPart.exponentPart?_charsOf exponent)

end DecimalLiteral

/-! ## Literals as tokens -/

/-- Nothing at the front continues a numeral. -/
def Apart (tail : List Char) : Prop :=
  ∀ c ∈ tail.head?, isNameStart c = false ∧ c.isDigit = false ∧ c ≠ '.'

/-- What may follow the digits before the point: a point that no name follows, and digits. -/
def fractionPart : Pattern Rule :=
  .all [.lit ".", .unless identifierStart, .many (.char .digit)]

/-- What stands behind the digits before an exponent is no digit, no point and no `x`. -/
theorem ExponentPart.head_charsOf (e : Option ExponentPart) (apart : Apart tail) :
    ∀ c ∈ (charsOf e ++ tail).head?, c.isDigit = false ∧ c ≠ '.' ∧ c ≠ 'x' ∧ c ≠ 'X' := by
  intro c mem
  cases e with
  | none =>
    obtain ⟨start, digit, point⟩ := apart c mem
    refine ⟨digit, point, ?_, ?_⟩ <;> rintro rfl <;> exact absurd start (by decide)
  | some e =>
    cases mem
    rcases e.known with letter | letter <;> rw [letter] <;> decide

/-- A character is one of two. -/
theorem picks_pair (c c' : Char) : Picks (.alt (.text [c]) (.text [c'])) fun x => x = c || x = c' :=
  (Picks.single c).alt (.single c')

/-- Digits of which there is at least one are taken. -/
theorem Digits.takes_some (d : Digits) (nonempty : d.chars ≠ [])
    (ends : ∀ c ∈ tail.head?, c.isDigit = false) :
    Takes (.once (.some (.char .digit))) (d.chars ++ tail) tail := by
  obtain ⟨c, cs, same⟩ := List.exists_cons_of_ne_nil nonempty
  obtain ⟨digit, others⟩ := List.forall_mem_cons.1 (same ▸ d.digits)
  rw [same]
  exact .seq ((Picks.char .digit).takes digit) (takes_digits others ends)

/-- An exponent that may be absent is taken. -/
theorem ExponentPart.takes_charsOf (e : Option ExponentPart) (apart : Apart tail) :
    Takes (.once (.opt exponentPart)) (charsOf e ++ tail) tail := by
  cases e with
  | none =>
    refine .noOpt (.first (.first ((picks_pair 'e' 'E').refuses fun c mem => ?_)))
    -- what follows begins with no letter
    have start := (apart c mem).1
    refine Bool.eq_false_iff.2 fun letter => ?_
    rcases (by simpa using letter : c = 'e' ∨ c = 'E') with rfl | rfl <;>
      exact absurd start (by decide)
  | some e =>
    have letter : Takes (.once (.oneOfTexts ["e", "E"])) (e.letter :: (e.sign ++ (e.chars ++ tail)))
        (e.sign ++ (e.chars ++ tail)) := (picks_pair 'e' 'E').takes (by simpa using e.known)
    have sign : Takes (.once (.opt (.oneOfTexts ["+", "-"]))) (e.sign ++ (e.chars ++ tail))
        (e.chars ++ tail) := by
      -- without a sign the digits follow, which are not taken for one
      rcases e.signed with none | plus | minus
      · obtain ⟨d, ds, same⟩ := List.exists_cons_of_ne_nil e.nonempty
        have digit : d.isDigit = true := e.digits d (same ▸ List.mem_cons_self)
        rw [none, same]
        refine .noOpt ((picks_pair '+' '-').refuses ?_)
        rintro c ⟨⟩
        refine Bool.eq_false_iff.2 fun sign => ?_
        rcases (by simpa using sign : d = '+' ∨ d = '-') with rfl | rfl <;> cases digit
      · rw [plus]
        exact .opt ((picks_pair '+' '-').takes rfl)
      · rw [minus]
        exact .opt ((picks_pair '+' '-').takes rfl)
    have digits := e.takes_some e.nonempty fun c mem => (apart c mem).2.1
    have whole : charsOf (some e) ++ tail = e.letter :: (e.sign ++ (e.chars ++ tail)) := by
      simp [charsOf]
    rw [whole]
    exact .opt (.seq (.seq letter sign) digits)

/-- A point with digits behind it is taken, where no name begins behind the point. -/
theorem Digits.takes_fractionPart (fraction : Digits)
    (ends : ∀ c ∈ tail.head?, c.isDigit = false)
    (nameless : ∀ c ∈ (fraction.chars ++ tail).head?, isNameStart c = false) :
    Takes (.once fractionPart) ('.' :: (fraction.chars ++ tail)) tail :=
  .seq (.seq (.text ['.'] _) (.unless (picks_identifierStart.refuses nameless)))
    (takes_digits fraction.digits ends)

/-- The digits before the point are taken. -/
theorem WholePart.takes (w : WholePart) (ends : ∀ c ∈ tail.head?, c.isDigit = false) :
    Takes (.once decimalInteger) (w.chars ++ tail) tail :=
  takes_decimalInteger w.digit w.digits w.alone ends

/-- No hexadecimal numeral begins where no `x` follows a zero. -/
theorem refuses_hexInteger {c : Char} {cs : List Char}
    (next : c = '0' → ∀ x ∈ cs.head?, x ≠ 'x' ∧ x ≠ 'X') : Refuses true hexInteger (c :: cs) := by
  by_cases zero : c = '0'
  · obtain rfl := zero
    exact .first (.alt (refuses_text_second fun x mem => (next rfl x mem).1)
      (refuses_text_second fun x mem => (next rfl x mem).2))
  · have other : ∀ x ∈ (c :: cs).head?, x ≠ '0' := by
      rintro x ⟨⟩
      exact zero
    exact .first (.alt (refuses_text other) (refuses_text other))

/-- A decimal literal that nothing continues is taken as a numeral. -/
theorem takes_numeral {c : Char} {cs : List Char}
    (next : c = '0' → ∀ x ∈ cs.head?, x ≠ 'x' ∧ x ≠ 'X')
    (decimal : Takes (.once decimalLiteral) (c :: cs) tail)
    (ends : ∀ c ∈ tail.head?, isNameStart c = false ∧ c.isDigit = false) :
    Takes (.once Rule.numericLiteral.body) (c :: cs) tail :=
  .seq (.right (refuses_hexInteger next) decimal)
    (.unless (.alt (picks_identifierStart.refuses fun c mem => (ends c mem).1)
      ((Picks.char .digit).refuses fun c mem => (ends c mem).2)))

/-- After a zero before the point, no `x` follows. -/
theorem WholePart.next (w : WholePart) (h : ∀ c ∈ tail.head?, c ≠ 'x' ∧ c ≠ 'X') :
    w.first = '0' → ∀ x ∈ (w.others ++ tail).head?, x ≠ 'x' ∧ x ≠ 'X' := by
  intro zero
  rw [w.alone zero]
  exact h

/-- The digits before a point with a name behind it are a numeral. -/
theorem WholePart.takes_numeral (w : WholePart) {c : Char} {cs : List Char}
    (start : isNameStart c = true) :
    Takes (.once Rule.numericLiteral.body) (w.chars ++ '.' :: c :: cs) ('.' :: c :: cs) := by
  have point : ∀ x ∈ ('.' :: c :: cs).head?, isNameStart x = false ∧ x.isDigit = false := by
    rintro x ⟨⟩
    decide
  have noFraction : Refuses true fractionPart ('.' :: c :: cs) :=
    .first (.second (.text ['.'] _) (.unless (picks_identifierStart.takes start)))
  have noExponent : Refuses true exponentPart ('.' :: c :: cs) := by
    refine .first (.first ((picks_pair 'e' 'E').refuses ?_))
    rintro x ⟨⟩
    decide
  refine AbstractScript.takes_numeral (w.next ?_) ?_ point
  · rintro x ⟨⟩
    decide
  · exact .left (.seq (.seq (w.takes fun x mem => (point x mem).2) (.noOpt noFraction))
      (.noOpt noExponent))

namespace DecimalLiteral

/-- A literal begins with a digit or a point, and no `x` follows a zero at its beginning. -/
theorem exists_chars (d : DecimalLiteral) (apart : Apart tail) :
    ∃ c cs, d.chars = c :: cs ∧ (c.isDigit = true ∨ c = '.') ∧
      (c = '0' → ∀ x ∈ (cs ++ tail).head?, x ≠ 'x' ∧ x ≠ 'X') := by
  cases d with
  | integer whole exponent =>
    refine ⟨_, _, rfl, .inl whole.digit, ?_⟩
    rw [List.append_eq, List.append_assoc]
    exact whole.next fun c mem => (ExponentPart.head_charsOf exponent apart c mem).2.2
  | pointed whole fraction exponent =>
    refine ⟨_, _, rfl, .inl whole.digit, ?_⟩
    rw [List.append_eq, List.append_assoc]
    refine whole.next ?_
    rintro c ⟨⟩
    decide
  | pointFirst fraction nonempty exponent => exact ⟨_, _, rfl, .inr rfl, by rintro ⟨⟩⟩

/-- The text of a literal denotes its value. -/
theorem numberOf_text (d : DecimalLiteral) (span : Span) :
    ScriptToken.numberOf span d.text = .ok d.value := by
  obtain ⟨c, cs, same, -, next⟩ := @exists_chars [] d nofun
  have read := d.ofNumeral?_chars
  rw [List.append_nil] at next
  rw [ScriptToken.numberOf, text, String.toList_ofList]
  split
  next is =>
    obtain ⟨zero, rest⟩ := List.cons.inj (same.symm.trans is)
    exact absurd rfl (next zero 'x' (rest ▸ rfl)).1
  next is =>
    obtain ⟨zero, rest⟩ := List.cons.inj (same.symm.trans is)
    exact absurd rfl (next zero 'X' (rest ▸ rfl)).2
  next => rw [read]; rfl

/-- No name begins behind the point of a literal, unless an exponent stands right behind it. -/
theorem nameless_of_pointed {whole : WholePart} {fraction : Digits} {exponent : Option ExponentPart}
    (plain : (pointed whole fraction exponent).exponentAtPoint = false) (apart : Apart tail) :
    ∀ c ∈ (fraction.chars ++ (ExponentPart.charsOf exponent ++ tail)).head?,
      isNameStart c = false := by
  intro c mem
  cases digits : fraction.chars with
  | nil =>
    -- without digits behind the point there is no exponent
    cases exponent with
    | none =>
      rw [digits] at mem
      exact (apart c mem).1
    | some => simp [exponentAtPoint, digits] at plain
  | cons d ds =>
    rw [digits] at mem
    cases mem
    have digit := fraction.digits c (digits ▸ List.mem_cons_self)
    refine Bool.eq_false_iff.2 fun start => ?_
    cases digit.symm.trans (isDigit_isNameStart start)

/-- A literal is taken as it stands, unless an exponent stands right behind its point. -/
theorem takes (d : DecimalLiteral) (plain : d.exponentAtPoint = false) (apart : Apart tail) :
    Takes (.once Rule.numericLiteral.body) (d.chars ++ tail) tail := by
  obtain ⟨c, cs, same, -, next⟩ := d.exists_chars apart
  suffices decimal : Takes (.once decimalLiteral) (d.chars ++ tail) tail by
    rw [same] at decimal ⊢
    exact takes_numeral next decimal fun c mem => ⟨(apart c mem).1, (apart c mem).2.1⟩
  -- behind the digits stands an exponent, or what follows the literal
  have behind (e : Option ExponentPart) := ExponentPart.head_charsOf e apart
  cases d with
  | integer whole exponent =>
    rw [chars, List.append_assoc]
    refine .left (.seq (.seq (whole.takes fun c mem => (behind exponent c mem).1) (.noOpt ?_))
      (ExponentPart.takes_charsOf exponent apart))
    exact .first (.first (refuses_text fun c mem => (behind exponent c mem).2.1))
  | pointed whole fraction exponent =>
    have point : ∀ c ∈ ('.' :: (fraction.chars ++ (ExponentPart.charsOf exponent ++ tail))).head?,
        c.isDigit = false := by
      rintro c ⟨⟩
      rfl
    rw [chars, List.append_assoc, List.cons_append, List.append_assoc]
    refine .left (.seq (.seq (whole.takes point) (.opt ?_)) (ExponentPart.takes_charsOf exponent apart))
    exact fraction.takes_fractionPart (fun c mem => (behind exponent c mem).1)
      (nameless_of_pointed plain apart)
  | pointFirst fraction nonempty exponent =>
    -- the point begins no whole part
    have noWhole : Refuses true decimalInteger
        ('.' :: (fraction.chars ++ (ExponentPart.charsOf exponent ++ tail))) := by
      refine .alt (refuses_text ?_) (.first ((Picks.char .nonzeroDigit).refuses ?_)) <;>
      · rintro c ⟨⟩
        decide
    have fractionTaken := fraction.takes_some nonempty fun c mem => (behind exponent c mem).1
    rw [chars, List.cons_append, List.append_assoc]
    exact .right (.first (.first noWhole))
      (.seq (.seq (.text ['.'] _) fractionTaken) (ExponentPart.takes_charsOf exponent apart))

end DecimalLiteral

/-! ## Programs -/

/-- A semicolon behind a numeral does not continue it. -/
theorem apart_semicolon : Apart [';'] := by
  rintro c ⟨⟩
  decide

/-- A semicolon continues no expression. -/
theorem stops_semicolon : Stops 0 [";"] :=
  .of_stopsAt (by decide +kernel) (by decide +kernel)

/-- A text by itself is a single token. -/
theorem spaced_single {cs cs' : List Char} : Spaced [String.ofList cs] cs' ↔ cs' = cs := by
  constructor
  · intro spaced
    cases spaced
    exact String.toList_ofList
  · rintro rfl
    have single := Spaced.last (t := String.ofList cs')
    rwa [String.toList_ofList] at single

/-- A digit or a point begins an expression. -/
theorem beginsExpression_digit {c : Char} {cs : List Char} (front : c.isDigit = true ∨ c = '.') :
    BeginsExpression (c :: cs) where
  bare := bare_digit front
  marked := fun q mem => refuses_at_digit (by simp [digitless, mem]) front
  label := refuses_label_at_digit front

variable {D : Expression → Prop}

/-- A source text that begins with a digit or a point is a program of one expression statement, if
an operand of some level is read from it up to the semicolon at its end. -/
theorem Program.ofSource_digit (file text : String) {c : Char} {cs : List Char}
    (same : text.toList = c :: cs) (front : c.isDigit = true ∨ c = '.') {level : Nat}
    (within : level ≤ 16) (h : Builds (levelPattern level) [";"] D (c :: cs)) :
    ∃ span place tree, Program.ofSource file text = .ok ⟨span, file, [.expression place tree]⟩ ∧
      D tree := by
  have unary : Refuses false (.rule .unaryOperator) (c :: cs) :=
    refuses_at_digit (by simp [digitless]) front
  have expression : Builds (levelPattern 0) [";"] D (c :: cs) :=
    h.lower_le (Nat.zero_le level) within (fun _ _ => unary) stops_semicolon
  rw [← same] at expression
  exact ofSource_expression file text (same ▸ beginsExpression_digit front) (.inr rfl) expression

/-- **A decimal literal is one number.** With a semicolon behind it, a decimal literal without an
exponent right behind its point is a program of one expression statement, and its expression is the
number that the literal stands for. -/
theorem Program.ofSource_decimalLiteral (file : String) (d : DecimalLiteral)
    (plain : d.exponentAtPoint = false) :
    ∃ span place place', Program.ofSource file (d.text ++ ";") =
      .ok ⟨span, file, [.expression place (.literal place' (.number d.value))]⟩ := by
  obtain ⟨c, cs, same, front, -⟩ := d.exists_chars apart_semicolon
  have whole : (d.text ++ ";").toList = c :: (cs ++ [';']) := by
    rw [String.toList_append, DecimalLiteral.text, String.toList_ofList, same]
    rfl
  have takes := d.takes plain apart_semicolon
  have read := d.numberOf_text
  rw [same] at takes
  rw [DecimalLiteral.text, same] at read
  have near : Near [";"] [';'] := Spaced.near (.last (t := ";"))
  obtain ⟨span, place, tree, parsed, place', rfl⟩ :=
    ofSource_digit file _ whole front (Nat.le_refl 16) (builds_numeral front takes read near)
  exact ⟨span, place, place', parsed⟩

/-- The literal `1.0e5`. -/
def plainLiteral : DecimalLiteral :=
  .pointed ⟨'1', [], by decide, nofun, by decide⟩ ⟨['0'], List.forall_mem_singleton.2 rfl⟩
    (some ⟨⟨['5'], List.forall_mem_singleton.2 rfl⟩, 'e', [], by decide, .inl rfl, by decide⟩)

/-- The literal `1.0e5` is one number. -/
theorem Program.ofSource_decimalLiteral_plain :
    plainLiteral.exponentAtPoint = false ∧ plainLiteral.value = Number.ofDecimal 10 4 ∧
      ∃ span place place', Program.ofSource "a.js" "1.0e5;" =
        .ok ⟨span, "a.js", [.expression place (.literal place' (.number plainLiteral.value))]⟩ :=
  ⟨rfl, rfl, ofSource_decimalLiteral "a.js" plainLiteral rfl⟩

/-! ## A point with an exponent right behind it -/

/-- The name that an exponent without a sign spells. -/
def ExponentPart.word (e : ExponentPart) : Word where
  first := e.letter
  others := e.chars
  start := by rcases e.known with letter | letter <;> rw [letter] <;> decide
  parts := fun c mem => by simp [isNamePart, e.digits c mem]

/-- The digits before a point denote a number by themselves. -/
theorem WholePart.numberOf_chars (w : WholePart) (span : Span) :
    ScriptToken.numberOf span (String.ofList w.chars) = .ok w.value := by
  have read := DecimalLiteral.numberOf_text (.integer w none) span
  rwa [DecimalLiteral.text, DecimalLiteral.chars, ExponentPart.charsOf, List.append_nil] at read

/-- A point and a name access a member. -/
theorem finds_propertyAccess (n : Word) (near : Near after tail)
    (ends : ∀ c ∈ tail.head?, isNamePart c = false) :
    Finds (.once (.rule .propertyAccess)) ('.' :: (n.text.toList ++ tail)) fun ts rest =>
      Near after rest ∧
        ∃ span place, ts = [.node .propertyAccess span [.word .identifierName place n.text]] := by
  have name : Finds (.once (.rule .identifierName)) (n.text.toList ++ tail) fun ts rest =>
      Near after rest ∧ ∃ place, ts = [.word .identifierName place n.text] := by
    intro start
    obtain ⟨span, stop, gives⟩ := exists_word (r := .identifierName) rfl (takes_word n ends) start
    rw [String.ofList_toList] at gives
    exact ⟨_, stop, tail, gives, near, span, rfl⟩
  have inside : Finds (.once Rule.propertyAccess.body) ('.' :: (n.text.toList ++ tail))
      fun ts rest => Near after rest ∧ ∃ place, ts = [.word .identifierName place n.text] :=
    .seqBare fun start => ⟨[], _, _, .text rfl, bare_word n, name⟩
  refine (Finds.node rfl inside).mono ?_
  rintro ts rest ⟨span, us, rfl, near, place, rfl⟩
  exact ⟨near, span, place, rfl⟩

/-- A number and an access to a member of it. -/
theorem builds_member (w : WholePart) (n : Word) :
    Builds (levelPattern 15) [";"]
      (fun tree => ∃ object number property,
        tree = .member object (.literal number (.number w.value)) ⟨property, n.text⟩)
      (w.chars ++ '.' :: (n.text.toList ++ [';'])) := by
  -- what follows the number, as a token
  have opens : Opens [String.ofList ('.' :: (n.text.toList ++ [';']))] := by
    intro cs spaced
    rw [spaced_single.1 spaced]
    exact bare_digit (.inr rfl)
  have takes : Takes (.once Rule.numericLiteral.body) (w.chars ++ '.' :: (n.text.toList ++ [';']))
      ('.' :: (n.text.toList ++ [';'])) := by
    rw [n.toList_text]
    exact w.takes_numeral n.start
  have number := builds_numeral (.inl w.digit) takes w.numberOf_chars (spaced_single.2 rfl).near
  have semicolon : Near [";"] [';'] := Spaced.near (.last (t := ";"))
  have access := finds_propertyAccess n semicolon (by rintro c ⟨⟩; decide)
  have inside : Finds (.once Rule.memberExpression.body) (w.chars ++ '.' :: (n.text.toList ++ [';']))
      fun ts rest => Near [";"] rest ∧ ∃ t number span property,
        ScriptToken.expressionOf t = .ok (.literal number (.number w.value)) ∧
          ts = [t, .node .propertyAccess span [.word .identifierName property n.text]] := by
    refine .seq number ?_ opens
    rintro ts mid ⟨near, t, tree, rfl, is, place, rfl⟩
    refine ⟨near, fun cs' spaced' => ?_⟩
    obtain rfl := spaced_single.1 spaced'
    refine .many (bare_digit (.inr rfl)) (.more spaced'.near opens fun cs'' spaced'' => ?_)
    obtain rfl := spaced_single.1 spaced''
    refine .left (access.mono ?_)
    rintro ts rest ⟨near, span, property, rfl⟩
    refine .noMore near stops_semicolon.opens (fun cs spaced => ?_)
      ⟨near, t, place, span, property, is, rfl⟩
    have inner : 0 ≤ 15 := Nat.zero_le 15
    exact stops_semicolon.refuses inner _ (List.mem_singleton_self _) spaced
  refine (Finds.node rfl inside).mono ?_
  rintro ts rest ⟨span, us, rfl, near, t, number, place, property, is, rfl⟩
  refine ⟨near, _, _, rfl, ?_, number.through place, number, property, rfl⟩
  simp only [ScriptToken.expressionOf, is, ok_bind, ScriptToken.suffixed, ScriptToken.identifierOf,
    Expression.span]

/-- A point with an exponent right behind it accesses a member of the number before the point. -/
theorem Program.ofSource_exponentAtPoint (file : String) (w : WholePart) (e : ExponentPart)
    (unsigned : e.sign = []) :
    ∃ span place object number property,
      Program.ofSource file ((DecimalLiteral.pointed w ⟨[], nofun⟩ (some e)).text ++ ";") =
        .ok ⟨span, file, [.expression place (.member object (.literal number (.number w.value))
          ⟨property, e.word.text⟩)]⟩ := by
  have whole : ((DecimalLiteral.pointed w ⟨[], nofun⟩ (some e)).text ++ ";").toList =
      w.first :: (w.others ++ '.' :: (e.word.text.toList ++ [';'])) := by
    rw [String.toList_append, DecimalLiteral.text, String.toList_ofList, Word.toList_text]
    simp [DecimalLiteral.chars, ExponentPart.charsOf, WholePart.chars, unsigned, ExponentPart.word]
  obtain ⟨span, place, tree, parsed, object, number, property, rfl⟩ :=
    ofSource_digit file _ whole (.inl w.digit) (by decide) (builds_member w e.word)
  exact ⟨span, place, object, number, property, parsed⟩

/-- The literal `1.e5`. -/
def pointedExponent : DecimalLiteral :=
  .pointed ⟨'1', [], by decide, nofun, by decide⟩ ⟨[], nofun⟩
    (some ⟨⟨['5'], List.forall_mem_singleton.2 rfl⟩, 'e', [], by decide, .inl rfl, by decide⟩)

/-- The literal `1.e5` stands for 100000, but it is not one number. -/
theorem Program.ofSource_pointedExponent_ne :
    pointedExponent.text = "1.e5" ∧ pointedExponent.value = Number.ofDecimal 1 5 ∧
      ¬∃ span place place', Program.ofSource "a.js" "1.e5;" = .ok
        ⟨span, "a.js", [.expression place (.literal place' (.number pointedExponent.value))]⟩ := by
  refine ⟨rfl, rfl, ?_⟩
  rintro ⟨span, place, place', number⟩
  obtain ⟨_, _, _, _, _, member⟩ := ofSource_exponentAtPoint "a.js"
    ⟨'1', [], by decide, nofun, by decide⟩
    ⟨⟨['5'], List.forall_mem_singleton.2 rfl⟩, 'e', [], by decide, .inl rfl, by decide⟩ rfl
  cases number.symm.trans member

end AbstractScript
