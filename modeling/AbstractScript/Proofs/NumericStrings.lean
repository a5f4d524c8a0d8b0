import AbstractScript.Number.Read
import AbstractScript.Proofs.NumberText

/-!
# Strings that are numbers

A string converts to a number if what is left of it without blank characters at its ends is empty or a
numeric literal (`Number.isNaN_ofString_eq_false_iff`). What counts as blank is white space and line
terminators as scripts have them, and the control character U+0085 as well.
-/
namespace AbstractScript

namespace Text

/-! ## Removed ends -/

variable {p q : Char → Bool} {a m b cs : List Char}

/-- Characters at the front that have the property are dropped. -/
theorem dropWhile_append (front : ∀ c ∈ a, p c) (ends : ∀ c ∈ cs.head?, p c = false) :
    (a ++ cs).dropWhile p = cs := by
  rw [List.dropWhile_append_of_pos front]
  cases cs with
  | nil => rfl
  | cons c cs => exact List.dropWhile_cons_of_neg (by simp [ends c rfl])

/-- What stands between two ends is left if it does not begin and end like them. -/
theorem trimBy_append (front : ∀ c ∈ a, p c) (back : ∀ c ∈ b, p c)
    (first : ∀ c ∈ m.head?, p c = false) (last : ∀ c ∈ m.getLast?, p c = false) :
    trimBy p (a ++ m ++ b) = m := by
  have behind : ∀ c ∈ b.reverse, p c := fun c mem => back c (List.mem_reverse.1 mem)
  have last : ∀ c ∈ m.reverse.head?, p c = false := by rwa [List.head?_reverse]
  cases m with
  | nil =>
    have all : ∀ c ∈ a ++ b, p c := List.forall_mem_append.2 ⟨front, back⟩
    rw [trimBy, List.append_nil, List.dropWhile_eq_nil_iff.2 all]
    rfl
  | cons x m =>
    have dropped : (a ++ (x :: m ++ b)).dropWhile p = x :: m ++ b := dropWhile_append front first
    rw [trimBy, List.append_assoc, dropped, List.reverse_append, dropWhile_append behind last,
      List.reverse_reverse]

/-- A text is what is left of it between two ends. -/
theorem exists_trimBy (p : Char → Bool) (cs : List Char) :
    ∃ a b, cs = a ++ trimBy p cs ++ b ∧ (∀ c ∈ a, p c) ∧ (∀ c ∈ b, p c) ∧
      (∀ c ∈ (trimBy p cs).head?, p c = false) ∧ ∀ c ∈ (trimBy p cs).getLast?, p c = false := by
  have kept (cs : List Char) : ∀ c ∈ (cs.dropWhile p).head?, p c = false := by
    intro c mem
    have := List.head?_dropWhile_not p cs
    rwa [show (cs.dropWhile p).head? = some c from mem] at this
  have rest : trimBy p cs ++ ((cs.dropWhile p).reverse.takeWhile p).reverse = cs.dropWhile p := by
    rw [trimBy, ← List.reverse_append, List.takeWhile_append_dropWhile, List.reverse_reverse]
  refine ⟨cs.takeWhile p, ((cs.dropWhile p).reverse.takeWhile p).reverse, ?_,
    fun c mem => List.mem_takeWhile_imp mem,
    fun c mem => List.mem_takeWhile_imp (List.mem_reverse.1 mem), fun c mem => ?_, fun c mem => ?_⟩
  · rw [List.append_assoc, rest, List.takeWhile_append_dropWhile]
  · refine kept cs c ?_
    rw [← rest, List.head?_append, mem]
    rfl
  · exact kept _ c (List.getLast?_reverse.symm.trans mem)

/-! ## Blank characters -/

/-- The code points of the Unicode category of space separators. -/
def spaceSeparatorRanges : List (Nat × Nat) :=
  [(0x20, 0x20), (0xa0, 0xa0), (0x1680, 0x1680), (0x2000, 0x200a), (0x202f, 0x202f),
  (0x205f, 0x205f), (0x3000, 0x3000)]

/-- White space and line terminators of scripts: tab, vertical tab, form feed, the byte order mark,
line feed, carriage return, the two separators of lines and paragraphs, and the space separators. -/
def isScriptBlank (c : Char) : Bool :=
  c ∈ ['\t', '\x0b', '\x0c', '\ufeff', '\n', '\r', '\u2028', '\u2029'] ||
    inRanges spaceSeparatorRanges c.toNat

/-- The control character that ends a line in Unicode, but not in scripts. -/
def nextLine : Char := '\u0085'

/-- What is removed around a numeral is what scripts call blank, and one control character. -/
theorem isBlank_iff {c : Char} : isBlank c = true ↔ isScriptBlank c = true ∨ c = nextLine := by
  have sorted : isSorted spaceSeparatorRanges = true := by decide
  have code (d : Char) : c = d ↔ c.toNat = d.toNat := Char.toNat_inj.symm
  have codes : '\t'.toNat = 0x9 ∧ '\x0b'.toNat = 0xb ∧ '\x0c'.toNat = 0xc ∧
      '\ufeff'.toNat = 0xfeff ∧ '\n'.toNat = 0xa ∧ '\r'.toNat = 0xd ∧ '\u2028'.toNat = 0x2028 ∧
      '\u2029'.toNat = 0x2029 ∧ '\u0085'.toNat = 0x85 := by decide
  simp only [isBlank, isWhiteSpace, isScriptBlank, Bool.or_eq_true, decide_eq_true_eq,
    inRanges_iff sorted_whiteSpaceRanges, inRanges_iff sorted]
  simp only [whiteSpaceRanges, spaceSeparatorRanges, List.mem_cons, List.not_mem_nil, or_false,
    exists_eq_or_imp, exists_eq_left, code, nextLine, codes]
  omega

/-- A text without the blank characters of scripts at its ends. -/
def trimScript (cs : List Char) : List Char := trimBy isScriptBlank cs

/-- The control character stands at an end of a text. -/
def HasNextLine (cs : List Char) : Prop := cs.head? = some nextLine ∨ cs.getLast? = some nextLine

/-- The control character makes the difference between the two ways to remove blank characters. -/
theorem trimBy_isBlank {cs : List Char} (plain : ¬HasNextLine (trimScript cs)) :
    trimBy isBlank cs = trimScript cs := by
  obtain ⟨a, b, same, front, back, first, last⟩ := exists_trimBy isScriptBlank cs
  have blank : ∀ c, isScriptBlank c = true → isBlank c = true := fun c h => isBlank_iff.2 (.inl h)
  have kept : ∀ c, isScriptBlank c = false → c ≠ nextLine → isBlank c = false := fun c h ne =>
    Bool.eq_false_iff.2 fun h' => (isBlank_iff.1 h').elim (by simp [h]) ne
  conv_lhs => rw [same]
  refine trimBy_append (fun c mem => blank c (front c mem)) (fun c mem => blank c (back c mem))
    (fun c mem => kept c (first c mem) ?_) (fun c mem => kept c (last c mem) ?_)
  · rintro rfl
    exact plain (.inl mem)
  · rintro rfl
    exact plain (.inr mem)

end Text

namespace Number

/-! ## Numeric literals in strings -/

/-- An unsigned decimal literal: `Infinity`, digits with or without a point, or a point with digits
behind it only; and perhaps an exponent. -/
inductive IsUnsigned : List Char → Prop
  | infinity : IsUnsigned "Infinity".toList
  | whole {ds exponent : List Char} (some : ds ≠ []) (digits : ∀ d ∈ ds, d.isDigit)
    (ends : IsExponent exponent) : IsUnsigned (ds ++ exponent)
  | point {ds fraction exponent : List Char} (some : ds ≠ []) (digits : ∀ d ∈ ds, d.isDigit)
    (digits' : ∀ d ∈ fraction, d.isDigit) (ends : IsExponent exponent) :
    IsUnsigned (ds ++ '.' :: (fraction ++ exponent))
  | pointFirst {fraction exponent : List Char} (some : fraction ≠ [])
    (digits : ∀ d ∈ fraction, d.isDigit) (ends : IsExponent exponent) :
    IsUnsigned ('.' :: (fraction ++ exponent))

/-- A digit of a hexadecimal literal. -/
def IsHexDigit (c : Char) : Prop := c.isDigit ∨ ('a' ≤ c ∧ c ≤ 'f') ∨ ('A' ≤ c ∧ c ≤ 'F')

/-- What a string of a number is without blank characters: nothing, an optionally signed decimal
literal, or an unsigned hexadecimal literal. -/
inductive IsNumeric : List Char → Prop
  | empty : IsNumeric []
  | decimal {sign cs : List Char} (signed : sign = [] ∨ sign = ['+'] ∨ sign = ['-'])
    (literal : IsUnsigned cs) : IsNumeric (sign ++ cs)
  | hex {x : Char} {ds : List Char} (letter : x = 'x' ∨ x = 'X') (some : ds ≠ [])
    (digits : ∀ d ∈ ds, IsHexDigit d) : IsNumeric ('0' :: x :: ds)

/-- What is read as a natural number is digits. -/
theorem digits_of_natOfDigits? {ds : List Char} {n : Nat} (h : natOfDigits? ds = some n) :
    ds ≠ [] ∧ ∀ d ∈ ds, d.isDigit := by
  obtain ⟨⟨some, digits⟩, -⟩ := Option.ite_none_right_eq_some.1 h
  exact ⟨some, List.all_eq_true.1 digits⟩

/-- What is read as an exponent part is one. -/
theorem isExponent_of_read {cs : List Char} {e : Int} (h : exponentPart? cs = some e) :
    IsExponent cs := by
  unfold exponentPart? at h
  split at h
  next => exact .none
  next c rest =>
    obtain ⟨letter, read⟩ := Option.ite_none_right_eq_some.1 h
    split at read <;> obtain ⟨n, digits, -⟩ := Option.map_eq_some_iff.1 read <;>
      obtain ⟨m, digits, -⟩ := Option.bind_eq_some_iff.1 digits <;>
      obtain ⟨some, digits⟩ := digits_of_natOfDigits? digits
    next => exact @IsExponent.some c ['-'] _ letter (.inr (.inr rfl)) some digits
    next => exact @IsExponent.some c ['+'] _ letter (.inr (.inl rfl)) some digits
    next => exact @IsExponent.some c [] _ letter (.inl rfl) some digits

/-- The digits at the front of a text, and what follows them. -/
theorem spanDigits_spec (cs : List Char) :
    (spanDigits cs).1 ++ (spanDigits cs).2 = cs ∧ ∀ d ∈ (spanDigits cs).1, d.isDigit :=
  ⟨List.takeWhile_append_dropWhile, fun _ mem => List.mem_takeWhile_imp mem⟩

/-- What is read as a numeral is digits with at most one point and an exponent part. -/
theorem isUnsigned_of_read {cs : List Char} {n : Numeral} (h : Numeral.read? cs = some n) :
    IsUnsigned cs := by
  obtain ⟨same, digits⟩ := spanDigits_spec cs
  unfold Numeral.read? at h
  generalize spanDigits cs = parts at same digits h
  obtain ⟨whole, rest⟩ := parts
  subst same
  dsimp only at digits h
  split at h
  -- a point, with or without digits behind it
  next more =>
    obtain ⟨same, digits'⟩ := spanDigits_spec more
    generalize spanDigits more = parts at same digits' h
    obtain ⟨fraction, exponent⟩ := parts
    subst same
    obtain ⟨some, read⟩ := Option.ite_none_left_eq_some.1 h
    obtain ⟨e, read, -⟩ := Option.map_eq_some_iff.1 read
    have ends := isExponent_of_read read
    by_cases none : whole = []
    · subst none
      exact .pointFirst (fun none => some ⟨rfl, none⟩) digits' ends
    · exact .point none digits digits' ends
  -- no point
  next =>
    obtain ⟨some, read⟩ := Option.ite_none_left_eq_some.1 h
    obtain ⟨e, read, -⟩ := Option.map_eq_some_iff.1 read
    exact .whole (fun none => some ⟨none, rfl⟩) digits (isExponent_of_read read)

/-- Every unsigned decimal literal but `Infinity` is read as a numeral. -/
theorem IsUnsigned.read {cs : List Char} (h : IsUnsigned cs) :
    cs = "Infinity".toList ∨ ∃ n, Numeral.read? cs = some n := by
  cases h with
  | infinity => exact .inl rfl
  | whole some digits ends =>
    obtain ⟨e, read⟩ := ends.exists_read
    exact .inr ⟨_, Numeral.read?_whole digits some ends read⟩
  | point some digits digits' ends =>
    obtain ⟨e, read⟩ := ends.exists_read
    exact .inr ⟨_, Numeral.read?_point digits digits' (fun none => some none.1) ends read⟩
  | pointFirst some digits ends =>
    obtain ⟨e, read⟩ := ends.exists_read
    have digitless : ∀ d ∈ ([] : List Char), d.isDigit := List.forall_mem_nil _
    exact .inr ⟨_, Numeral.read?_point digitless digits (fun none => some none.2) ends read⟩

/-- **What is read as an unsigned literal is one, and the other way round.** -/
theorem isSome_ofSigned? (negative : Bool) (cs : List Char) :
    (ofSigned? negative cs).isSome = true ↔ IsUnsigned cs := by
  rw [ofSigned?, ofNumeral?_eq]
  by_cases infinite : cs = "Infinity".toList
  · rw [if_pos infinite]
    exact iff_of_true rfl (infinite ▸ .infinity)
  · rw [if_neg infinite, Option.isSome_map, Option.isSome_map, Option.isSome_iff_exists]
    constructor
    · rintro ⟨n, read⟩
      exact isUnsigned_of_read read
    · exact fun literal => literal.read.resolve_left infinite

/-- An unsigned literal begins with a digit, a point or the letter `I`. -/
theorem IsUnsigned.head {cs : List Char} (h : IsUnsigned cs) :
    ∃ c rest, cs = c :: rest ∧ (c.isDigit ∨ c = '.' ∨ c = 'I') := by
  cases h with
  | infinity => exact ⟨_, _, rfl, .inr (.inr rfl)⟩
  | whole some digits | point some digits =>
    obtain ⟨d, ds, rfl⟩ := List.exists_cons_of_ne_nil some
    exact ⟨_, _, rfl, .inl (digits d List.mem_cons_self)⟩
  | pointFirst => exact ⟨_, _, rfl, .inr (.inl rfl)⟩

/-- No letter `x` follows a zero at the beginning of an unsigned literal. -/
theorem IsUnsigned.ne_hex {x : Char} {ds : List Char} (letter : x = 'x' ∨ x = 'X') :
    ¬IsUnsigned ('0' :: x :: ds) := by
  intro literal
  rcases literal.read with same | ⟨n, read⟩
  · cases same
  · rcases letter with rfl | rfl <;> cases read

/-- Hexadecimal digits have values. -/
theorem isSome_hexDigit? (c : Char) : (hexDigit? c).isSome = true ↔ IsHexDigit c := by
  have digit : ('0' ≤ c ∧ c ≤ '9') ↔ c.isDigit = true := by
    simp [Char.isDigit, Char.le_def]
  rw [hexDigit?, IsHexDigit, ← digit]
  split
  next h => simp [h]
  next h =>
    split
    next h' => simp [h']
    next h' =>
      split
      next h'' => simp [h'']
      next h'' => simp [h, h', h'']

/-- The value of a hexadecimal digit is below sixteen. -/
theorem hexDigit?_lt {c : Char} {n : Nat} (h : hexDigit? c = some n) : n < 16 := by
  have codes : '0'.toNat = 48 ∧ '9'.toNat = 57 ∧ 'a'.toNat = 97 ∧ 'f'.toNat = 102 ∧
      'A'.toNat = 65 ∧ 'F'.toNat = 70 := by decide
  have order (a b : Char) : a ≤ b ↔ a.toNat ≤ b.toNat := UInt32.le_iff_toNat_le
  simp only [hexDigit?, order, codes] at h
  split at h
  next range =>
    cases h
    omega
  split at h
  next range =>
    cases h
    omega
  obtain ⟨range, same⟩ := Option.ite_none_right_eq_some.1 h
  cases same
  omega

/-- What is read as a hexadecimal numeral is its digits. -/
theorem isSome_ofHex? (ds : List Char) : (ofHex? ds).isSome = true ↔ ∀ d ∈ ds, IsHexDigit d := by
  constructor
  · suffices all : ∀ x : Float, (ds.foldlM
        (fun x c => (hexDigit? c).map fun d => x * 16 + Float.ofNat d) x).isSome = true →
        ∀ d ∈ ds, IsHexDigit d from all 0
    induction ds with
    | nil => exact fun _ _ => List.forall_mem_nil _
    | cons d ds ih =>
      intro x read
      rw [List.foldlM_cons] at read
      cases digit : hexDigit? d with
      | none =>
        rw [digit] at read
        cases read
      | some n =>
        rw [digit] at read
        exact List.forall_mem_cons.2 ⟨(isSome_hexDigit? d).1 (by rw [digit]; rfl), ih _ read⟩
  · intro digits
    exact Option.isSome_iff_exists.2 (exists_ofHex? fun d mem => (isSome_hexDigit? d).2 (digits d mem))

/-- Behind a sign, a decimal literal stands. -/
theorem isNumeric_sign {c : Char} {cs : List Char} (sign : c = '+' ∨ c = '-') :
    IsNumeric (c :: cs) ↔ IsUnsigned cs := by
  constructor
  · generalize same : c :: cs = whole
    intro numeric
    cases numeric with
    | empty => cases same
    | hex =>
      cases same
      rcases sign with h | h <;> cases h
    | decimal signed literal =>
      rcases signed with rfl | rfl | rfl
      · obtain ⟨d, rest, rfl, front⟩ := literal.head
        cases same
        exact absurd front (by rcases sign with rfl | rfl <;> decide)
      · cases same
        exact literal
      · cases same
        exact literal
  · intro literal
    rcases sign with rfl | rfl
    · exact .decimal (.inr (.inl rfl)) literal
    · exact .decimal (.inr (.inr rfl)) literal

/-- Behind a zero and the letter `x`, hexadecimal digits stand. -/
theorem isNumeric_hex {x : Char} {ds : List Char} (letter : x = 'x' ∨ x = 'X') :
    IsNumeric ('0' :: x :: ds) ↔ ds ≠ [] ∧ ∀ d ∈ ds, IsHexDigit d := by
  constructor
  · generalize same : '0' :: x :: ds = whole
    intro numeric
    cases numeric with
    | empty => cases same
    | hex _ some digits =>
      cases same
      exact ⟨some, digits⟩
    | decimal signed literal =>
      rcases signed with rfl | rfl | rfl
      · subst same
        exact absurd literal (IsUnsigned.ne_hex letter)
      · cases same
      · cases same
  · exact fun h => .hex letter h.1 h.2

/-- **What is read without blank characters is empty or a numeric literal, and the other way round.** -/
theorem isSome_ofTrimmed? (cs : List Char) : (ofTrimmed? cs).isSome = true ↔ IsNumeric cs := by
  have hex (ds : List Char) : (if ds = [] then none else ofHex? ds).isSome = true ↔
      ds ≠ [] ∧ ∀ d ∈ ds, IsHexDigit d := by
    rw [← isSome_ofHex?]
    split
    next none => exact iff_of_false nofun fun h => h.1 none
    next some => exact (and_iff_right some).symm
  unfold ofTrimmed?
  split
  -- nothing, or hexadecimal digits behind either prefix
  next => exact iff_of_true rfl .empty
  next ds => rw [isNumeric_hex (.inl rfl), hex]
  next ds => rw [isNumeric_hex (.inr rfl), hex]
  -- a sign
  next cs => rw [isNumeric_sign (.inr rfl), isSome_ofSigned?]
  next cs => rw [isNumeric_sign (.inl rfl), isSome_ofSigned?]
  -- neither a prefix nor a sign
  next some small large minus plus =>
    rw [isSome_ofSigned?]
    constructor
    · exact fun literal => @IsNumeric.decimal [] _ (.inl rfl) literal
    · intro numeric
      cases numeric with
      | empty => exact absurd rfl some
      | hex letter =>
        rcases letter with rfl | rfl
        · exact absurd rfl (small _)
        · exact absurd rfl (large _)
      | decimal signed literal =>
        rcases signed with rfl | rfl | rfl
        · exact literal
        · exact absurd rfl (plus _)
        · exact absurd rfl (minus _)

/-! ## Numbers that are read -/

section Numbers

open Float.Model Float.Model.UnpackedFloat

/-- The bits of a number are those of an infinity, or their exponent field is not full. -/
theorem isNaN_unpack {b : BitVec 64}
    (number : @unpackExponent double b = -1#_ → @unpackMantissa double b = 0#_) :
    (UnpackedFloat.unpack double b).isNaN = false := by
  unfold UnpackedFloat.unpack
  dsimp only
  by_cases special : @unpackExponent double b = -1#(double.exponentBits)
  · rw [if_pos special, if_pos (number special)]
    rfl
  rw [if_neg special]
  by_cases exponent : @unpackExponent double b = 0#(double.exponentBits)
  · rw [if_pos exponent]
    by_cases mantissa : @unpackMantissa double b = 0#(double.mantissaBitsWithoutImplicit)
    · rw [dif_pos mantissa]
      rfl
    · rw [dif_neg mantissa]
      rfl
  · rw [if_neg exponent]
    rfl

/-- The bits of a number are packed from its fields. -/
theorem isNaN_unpack_packComponents {s : Sign} {e : BitVec 11} {m : BitVec 52}
    (number : e = -1#11 → m = 0#52) :
    (UnpackedFloat.unpack double (packComponents double s e m)).isNaN = false := by
  refine isNaN_unpack ?_
  rw [unpackExponent_packComponents, unpackMantissa_packComponents]
  exact number

/-- A number that is packed is a number. -/
theorem isNaN_pack {u : UnpackedFloat} (number : u.isNaN = false) :
    (Float.ofModel (.pack u)).isNaN = false := by
  show (UnpackedFloat.unpack double (UnpackedFloat.pack double u)).isNaN = false
  cases u with
  | notANumber => cases number
  | infinity s => exact isNaN_unpack_packComponents fun _ => rfl
  | zero s => exact isNaN_unpack_packComponents fun full => absurd full (by decide)
  | finite s m e positive =>
    delta UnpackedFloat.pack
    dsimp only
    split
    next => exact isNaN_unpack_packComponents fun _ => rfl
    next small =>
      split
      next =>
        refine isNaN_unpack_packComponents fun full => ?_
        -- a full field would have been packed as an infinity
        have same := congrArg BitVec.toNat full
        rw [BitVec.toNat_ofNat] at same
        have ones : (-1#11).toNat = 2047 := rfl
        change ¬2048 ≤ _ + 1 at small
        omega
      next => exact isNaN_unpack_packComponents fun full => absurd full (by decide)

/-- One of two numbers is a number. -/
theorem isNaN_dite {p : Prop} [Decidable p] {f : p → UnpackedFloat} {g : ¬p → UnpackedFloat}
    (first : ∀ h, (f h).isNaN = false) (second : ∀ h, (g h).isNaN = false) :
    (dite p f g).isNaN = false := by
  by_cases h : p
  · rw [dif_pos h]
    exact first h
  · rw [dif_neg h]
    exact second h

theorem isNaN_ite {p : Prop} [Decidable p] {u v : UnpackedFloat} (first : u.isNaN = false)
    (second : v.isNaN = false) : (ite p u v).isNaN = false :=
  isNaN_dite (fun _ => first) fun _ => second

/-- Rounding gives a number. -/
theorem isNaN_roundWithAccuracy (s : Sign) (m : Nat) (e : Int) (a : Accuracy) :
    (UnpackedFloat.roundWithAccuracy double s m e a).isNaN = false :=
  isNaN_dite (fun _ => rfl) fun _ => rfl

theorem isNaN_normalize (m e : Int) (s : Sign) : (UnpackedFloat.normalize double m e s).isNaN = false := by
  unfold UnpackedFloat.normalize
  split
  · exact isNaN_roundWithAccuracy ..
  · rfl
  · exact isNaN_roundWithAccuracy ..

variable {x y : Float}

/-- A finite number other than zero has a positive magnitude. -/
theorem unpack_of_nonzero (finite : isFinite y = true) (nonzero : (y == 0) = false) :
    ∃ s m e positive, y.toModel.unpack = .finite s m e positive := by
  refine (unpack_of_isFinite finite).resolve_left ?_
  rintro ⟨s, unpacked⟩
  have zero : (y == 0) = true := by
    show (y.toModel.unpack.compare (.zero .positive) == some .eq) = true
    rw [unpacked]
    rfl
  cases nonzero.symm.trans zero

/-- An operation gives a number for every number when it does for the infinities, the zeros and
the finite numbers other than zero. -/
theorem isNaN_of_cases {f : UnpackedFloat → UnpackedFloat} (number : x.isNaN = false)
    (infinity : ∀ s, (f (.infinity s)).isNaN = false) (zero : ∀ s, (f (.zero s)).isNaN = false)
    (finite : ∀ s m e positive, (f (.finite s m e positive)).isNaN = false) :
    (f x.toModel.unpack).isNaN = false := by
  have number : x.toModel.unpack.isNaN = false := number
  cases unpacked : x.toModel.unpack with
  | notANumber => rw [unpacked] at number; cases number
  | infinity s => exact infinity s
  | zero s => exact zero s
  | finite s m e positive => exact finite s m e positive

/-- The product of a number and a finite number other than zero is a number. -/
theorem isNaN_mul (number : x.isNaN = false) (finite : isFinite y = true)
    (nonzero : (y == 0) = false) : (x * y).isNaN = false := by
  obtain ⟨s, m, e, positive, unpacked⟩ := unpack_of_nonzero finite nonzero
  refine isNaN_pack (u := UnpackedFloat.mul double x.toModel.unpack y.toModel.unpack) ?_
  rw [unpacked]
  exact isNaN_of_cases (f := (UnpackedFloat.mul double · _)) number (fun _ => rfl) (fun _ => rfl)
    fun _ _ _ _ => isNaN_roundWithAccuracy ..

/-- The quotient of a number and a finite number other than zero is a number. -/
theorem isNaN_div (number : x.isNaN = false) (finite : isFinite y = true)
    (nonzero : (y == 0) = false) : (x / y).isNaN = false := by
  obtain ⟨s, m, e, positive, unpacked⟩ := unpack_of_nonzero finite nonzero
  refine isNaN_pack (u := UnpackedFloat.div double x.toModel.unpack y.toModel.unpack) ?_
  rw [unpacked]
  exact isNaN_of_cases (f := (UnpackedFloat.div double · _)) number (fun _ => rfl) (fun _ => rfl)
    fun _ _ _ _ => isNaN_roundWithAccuracy ..

/-- The sum of a number and a finite number is a number. -/
theorem isNaN_add (number : x.isNaN = false) (finite : isFinite y = true) :
    (x + y).isNaN = false := by
  refine isNaN_pack (u := UnpackedFloat.add double x.toModel.unpack y.toModel.unpack) ?_
  rcases unpack_of_isFinite finite with ⟨s, unpacked⟩ | ⟨s, m, e, positive, unpacked⟩ <;>
    rw [unpacked]
  · exact isNaN_of_cases (f := (UnpackedFloat.add double · _)) number (fun _ => rfl)
      (fun _ => isNaN_ite rfl rfl) fun _ _ _ _ => rfl
  · exact isNaN_of_cases (f := (UnpackedFloat.add double · _)) number (fun _ => rfl)
      (fun _ => rfl) fun _ _ _ _ => isNaN_normalize ..

/-- The negation of a number is a number. -/
theorem isNaN_neg (number : x.isNaN = false) : (-x).isNaN = false :=
  isNaN_pack <| isNaN_of_cases (f := UnpackedFloat.neg) number (fun _ => rfl) (fun _ => rfl)
    fun _ _ _ _ => rfl

/-- What scientific notation is rounded to is a number. -/
theorem isNaN_scientific (m : Nat) (e : Int) :
    (UnpackedFloat.ofScientific double m e).isNaN = false :=
  isNaN_dite (fun _ => rfl) fun _ => isNaN_ite rfl <| isNaN_ite rfl <|
    isNaN_ite (isNaN_roundWithAccuracy ..) (isNaN_roundWithAccuracy ..)

/-- A number in scientific notation is a number. -/
theorem isNaN_ofScientific (m : Nat) (negative : Bool) (e : Nat) :
    (Float.ofScientific m negative e).isNaN = false := by
  unfold Float.ofScientific
  split
  next fast =>
    have powers : ∀ p ∈ Float.exactlyRepresentablePowersOfTen,
        isFinite p = true ∧ (p == 0) = false := by decide +kernel
    have size : e < Float.exactlyRepresentablePowersOfTen.size := by
      have : Float.exactlyRepresentablePowersOfTen.size = 23 := rfl
      omega
    obtain ⟨finite, nonzero⟩ := powers _ (Array.getElem_mem size)
    have mantissa : m.toUInt64.toFloat.isNaN = false := isNaN_pack (isNaN_normalize ..)
    cases negative with
    | true => exact isNaN_div mantissa finite nonzero
    | false => exact isNaN_mul mantissa finite nonzero
  next =>
    exact isNaN_pack (isNaN_scientific ..)

/-- A decimal numeral denotes a number. -/
theorem isNaN_ofDecimal (m : Nat) (e : Int) : (ofDecimal m e).isNaN = false := by
  unfold ofDecimal
  dsimp only
  split
  · decide +kernel
  split
  · decide +kernel
  split
  · decide +kernel
  split
  · exact isNaN_ofScientific ..
  · exact isNaN_ofScientific ..

/-- A hexadecimal numeral denotes a number. -/
theorem isNaN_ofHex? {ds : List Char} {x : Float} (h : ofHex? ds = some x) : x.isNaN = false := by
  suffices all : ∀ a : Float, a.isNaN = false → ds.foldlM
      (fun x c => (hexDigit? c).map fun d => x * 16 + Float.ofNat d) a = some x → x.isNaN = false from
    all 0 (by decide +kernel) h
  clear h
  induction ds with
  | nil =>
    rintro a number ⟨⟩
    exact number
  | cons d ds ih =>
    intro a number read
    rw [List.foldlM_cons] at read
    obtain ⟨b, step, read⟩ := Option.bind_eq_some_iff.1 read
    obtain ⟨n, digit, rfl⟩ := Option.map_eq_some_iff.1 step
    have digits : ∀ n < 16, isFinite (Float.ofNat n) = true := by decide +kernel
    have sixteen : isFinite 16 = true ∧ ((16 : Float) == 0) = false := by decide +kernel
    exact ih _ (isNaN_add (isNaN_mul number sixteen.1 sixteen.2) (digits n (hexDigit?_lt digit))) read

/-- A signed literal denotes a number. -/
theorem isNaN_ofSigned? {negative : Bool} {cs : List Char} (h : ofSigned? negative cs = some x) :
    x.isNaN = false := by
  unfold ofSigned? at h
  split at h
  next =>
    cases h
    cases negative <;> decide +kernel
  next =>
    obtain ⟨y, read, rfl⟩ := Option.map_eq_some_iff.1 h
    rw [ofNumeral?_eq] at read
    obtain ⟨n, -, rfl⟩ := Option.map_eq_some_iff.1 read
    have number := isNaN_ofDecimal n.mantissa n.lastPower
    cases negative with
    | true => exact isNaN_neg number
    | false => exact number

/-- What is read without blank characters is a number. -/
theorem isNaN_ofTrimmed? {cs : List Char} (h : ofTrimmed? cs = some x) : x.isNaN = false := by
  unfold ofTrimmed? at h
  split at h
  next =>
    cases h
    decide +kernel
  next => exact isNaN_ofHex? (Option.ite_none_left_eq_some.1 h).2
  next => exact isNaN_ofHex? (Option.ite_none_left_eq_some.1 h).2
  next => exact isNaN_ofSigned? h
  next => exact isNaN_ofSigned? h
  next => exact isNaN_ofSigned? h

end Numbers

/-! ## Strings -/

/-- A string converts to a number if it is numeric without the characters that are removed. -/
theorem isNaN_ofString (s : String) :
    (ofString s).isNaN = false ↔ IsNumeric (Text.trimBy Text.isBlank s.toList) := by
  rw [← isSome_ofTrimmed?, ofString]
  cases read : ofTrimmed? (Text.trimBy Text.isBlank s.toList) with
  | none => exact iff_of_false (by decide +kernel) nofun
  | some x => exact iff_of_true (isNaN_ofTrimmed? read) rfl

open Text

/-- U+0085 is not among digits. -/
theorem nextLine_notMem_digits {ds : List Char} (digits : ∀ d ∈ ds, d.isDigit) : nextLine ∉ ds :=
  fun mem => absurd (digits _ mem) (by decide)

theorem IsExponent.nextLine_notMem {cs : List Char} (h : IsExponent cs) : nextLine ∉ cs := by
  cases h with
  | none => exact List.not_mem_nil
  | @some e sign ds letter signed _ digits =>
    have first : nextLine ≠ e := by rcases letter with rfl | rfl <;> decide
    have second : nextLine ∉ sign := by rcases signed with rfl | rfl | rfl <;> decide
    simp only [List.mem_cons, List.mem_append, not_or]
    exact ⟨first, second, nextLine_notMem_digits digits⟩

theorem IsUnsigned.nextLine_notMem {cs : List Char} (h : IsUnsigned cs) : nextLine ∉ cs := by
  have point : nextLine ≠ '.' := by decide
  cases h with
  | infinity => decide
  | whole _ digits ends =>
    simp only [List.mem_append, not_or]
    exact ⟨nextLine_notMem_digits digits, ends.nextLine_notMem⟩
  | point _ digits digits' ends =>
    simp only [List.mem_append, List.mem_cons, not_or]
    exact ⟨nextLine_notMem_digits digits, point, nextLine_notMem_digits digits', ends.nextLine_notMem⟩
  | pointFirst _ digits ends =>
    simp only [List.mem_append, List.mem_cons, not_or]
    exact ⟨point, nextLine_notMem_digits digits, ends.nextLine_notMem⟩

/-- U+0085 is no part of a numeric literal. -/
theorem IsNumeric.nextLine_notMem {cs : List Char} (h : IsNumeric cs) : nextLine ∉ cs := by
  cases h with
  | empty => exact List.not_mem_nil
  | decimal signed literal =>
    have sign : ∀ sign, sign = [] ∨ sign = ['+'] ∨ sign = ['-'] → nextLine ∉ sign := by
      rintro _ (rfl | rfl | rfl) <;> decide
    rw [List.mem_append, not_or]
    exact ⟨sign _ signed, literal.nextLine_notMem⟩
  | hex letter _ digits =>
    have noDigit : ¬IsHexDigit nextLine := by
      unfold IsHexDigit
      decide
    have zero : nextLine ≠ '0' := by decide
    have second : ∀ x, x = 'x' ∨ x = 'X' → nextLine ≠ x := by rintro _ (rfl | rfl) <;> decide
    simp only [List.mem_cons, not_or]
    exact ⟨zero, second _ letter, fun mem => noDigit (digits _ mem)⟩

/-- A text with U+0085 at an end is not numeric. -/
theorem IsNumeric.not_hasNextLine {cs : List Char} (h : IsNumeric cs) : ¬HasNextLine cs := by
  rintro (first | last)
  · exact h.nextLine_notMem (List.mem_of_head? first)
  · exact h.nextLine_notMem (List.mem_of_getLast? last)

/-- **A string converts to a number if it is one without blank characters.** A string converts to a
number other than NaN if and only if, without the white space and line terminators of scripts at its
ends, it is empty or a numeric literal; or if U+0085 stands at an end of what is left, and it is empty
or a numeric literal without this as well. -/
theorem isNaN_ofString_eq_false_iff (s : String) : (ofString s).isNaN = false ↔
    IsNumeric (trimScript s.toList) ∨
      HasNextLine (trimScript s.toList) ∧ IsNumeric (trimBy isBlank s.toList) := by
  rw [isNaN_ofString]
  by_cases line : HasNextLine (trimScript s.toList)
  · have literal : ¬IsNumeric (trimScript s.toList) := fun h => h.not_hasNextLine line
    rw [or_iff_right literal, and_iff_right line]
  · rw [trimBy_isBlank line]
    exact (or_iff_left fun h => line h.1).symm

/-- U+0085 alone converts to zero, although scripts do not call it blank and it is no numeric
literal. -/
theorem isNaN_ofString_nextLine :
    (ofString "\u0085").isNaN = false ∧ trimScript "\u0085".toList = [nextLine] ∧
      ¬IsNumeric [nextLine] :=
  ⟨by decide +kernel, by decide, fun h => h.not_hasNextLine (.inl rfl)⟩

end Number

end AbstractScript
