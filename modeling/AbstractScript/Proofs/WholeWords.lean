import AbstractScript.Proofs.Marks
import AbstractScript.Proofs.TokenLayout
import AbstractScript.Proofs.TokenShape

/-!
# Words are whole

No keyword, identifier or numeral of a script is followed by a character that a name can go on with,
so that no word of the source text is split in two (`words_whole`). Keywords and identifiers see to
that themselves. Numerals only look out for the beginning of a name and for digits; the other parts
of names, here called joiners, begin nothing outside words, so that a match never gets past one
(`Gives.keeps_joiner`). The words `get` and `set` of an accessor are fixed texts, and a name that is
written right behind them runs together with them.
-/
namespace AbstractScript

open Grammar

/-! ## Tokens in a tree -/

namespace Grammar

variable {R : Type} {g : RuleSet R} {source : String}

mutual

/-- A token and the tokens inside it. -/
def Token.all : Token R → List (Token R)
  | .word r span text => [.word r span text]
  | .node r span ts => .node r span ts :: Token.allOf ts

/-- The tokens of several trees. -/
def Token.allOf : List (Token R) → List (Token R)
  | [] => []
  | t :: rest => t.all ++ Token.allOf rest

end

theorem Token.mem_allOf {u : Token R} {ts : List (Token R)} :
    u ∈ Token.allOf ts ↔ ∃ t ∈ ts, u ∈ t.all := by
  induction ts with
  | nil => simp [Token.allOf]
  | cons t ts ih => simp [Token.allOf, ih]

theorem Token.allOf_append (ts us : List (Token R)) :
    Token.allOf (ts ++ us) = Token.allOf ts ++ Token.allOf us := by
  induction ts with
  | nil => rfl
  | cons t ts ih => simp [Token.allOf, ih]

/-- **Each token of a tree has been matched** somewhere in the source text. -/
theorem Gives.exists_match {w : Bool} {goal : Goal R} {c : Cursor} {found : Found R}
    (h : Gives g w goal c found) (isIn : c.IsIn source) {ts : List (Token R)} {c' : Cursor}
    (is : found = some (ts, c')) : ∀ u ∈ Token.allOf ts, ∃ a b, a.IsIn source ∧ b.IsIn source ∧
      Gives g false (.once (.rule u.rule)) a (some ([u], b)) := by
  have nothing : ∀ u ∈ Token.allOf ([] : List (Token R)), ∃ a b, a.IsIn source ∧ b.IsIn source ∧
      Gives g false (.once (.rule u.rule)) a (some ([u], b)) := by
    rw [Token.allOf]
    exact List.forall_mem_nil _
  induction h generalizing ts c' with
  | text taken | char taken =>
    obtain ⟨c'', taken, same⟩ := Option.map_eq_some_iff.1 (taken.trans is)
    cases same
    exact nothing
  | seq first between second ih _ ih' | more first between second _ ih ih' =>
    cases is
    obtain ⟨front, reads⟩ := first.reads
    obtain ⟨back, reads'⟩ := between.reads
    rw [Token.allOf_append, List.forall_mem_append]
    exact ⟨ih (by first | exact isIn | exact isIn.reads reads) rfl,
      ih' ((isIn.reads reads).reads reads') rfl⟩
  | many first further ih ih' =>
    cases is
    obtain ⟨front, reads⟩ := first.reads
    rw [Token.allOf_append, List.forall_mem_append]
    exact ⟨ih isIn rfl, ih' (isIn.reads reads) rfl⟩
  | left _ ih | right _ _ _ ih | opt _ ih | apart _ ih => exact ih isIn is
  | @rule w r c ts c₁ inside ih =>
    cases is
    obtain ⟨front, reads⟩ := inside.reads
    -- the token of a rule outside a word is itself such a match
    have here : ∀ u, g.tokens false r c c₁ ts = [u] → w = false → u.rule = r →
        ∃ a b, a.IsIn source ∧ b.IsIn source ∧
          Gives g false (.once (.rule u.rule)) a (some ([u], b)) := by
      rintro u token rfl rfl
      exact ⟨c, c₁, isIn, isIn.reads reads, token ▸ .rule inside⟩
    cases w with
    | true => exact nothing
    | false =>
      cases manner : g.manner r with
      | word =>
        have token : g.tokens false r c c₁ ts = [.word r (c.spanTo c₁) (c.textTo c₁)] := by
          simp [RuleSet.tokens, manner]
        rw [token, Token.allOf, Token.all, Token.allOf, List.append_nil, List.forall_mem_singleton]
        exact here _ token rfl rfl
      | ordinary =>
        have token : g.tokens false r c c₁ ts = [.node r (c.spanTo c₁) ts] := by
          simp [RuleSet.tokens, manner]
        rw [token, Token.allOf, Token.all, Token.allOf, List.append_nil, List.forall_mem_cons]
        exact ⟨here _ token rfl rfl, ih isIn rfl⟩
  | stop | noOpt | noMany | noGap | noMore | «unless» | close =>
    cases is
    exact nothing
  | noStop | noFirst | noBetween | noSecond | noUnless | noRule => cases is

/-- A match of several patterns one after another begins with a match of the first. -/
theorem Gives.front {w : Bool} {p : Pattern R} {ps : List (Pattern R)} {c c' : Cursor}
    {ts : List (Token R)} (h : Gives g w (.once (ps.foldl .seq p)) c (some (ts, c'))) :
    ∃ us vs c₁, Gives g w (.once p) c (some (us, c₁)) ∧ ts = us ++ vs := by
  induction ps generalizing p with
  | nil => exact ⟨ts, [], c', h, (List.append_nil ts).symm⟩
  | cons q ps ih =>
    obtain ⟨us, vs, c₁, first, rfl⟩ := ih h
    cases first with
    | @seq _ _ _ _ ts c₂ _ _ us _ first =>
      exact ⟨ts, us ++ vs, c₂, first, List.append_assoc ..⟩

/-- A match of one of several patterns. -/
theorem Gives.exists_oneOf {w : Bool} {ps : List (Pattern R)} {c c' : Cursor} {ts : List (Token R)}
    (h : Gives g w (.once (.oneOf ps)) c (some (ts, c'))) :
    ∃ p ∈ ps, Gives g w (.once p) c (some (ts, c')) := by
  induction ps with
  | nil =>
    cases h with
    | «unless» inside =>
      cases inside with
      | text taken => cases taken
  | cons p ps ih =>
    cases ps with
    | nil => exact ⟨p, List.mem_singleton_self p, h⟩
    | cons q ps =>
      cases h with
      | left first => exact ⟨p, List.mem_cons_self, first⟩
      | right _ others =>
        obtain ⟨q', mem, gives⟩ := ih others
        exact ⟨q', List.mem_cons_of_mem p mem, gives⟩

end Grammar

/-! ## Characters of a source text -/

/-- The character `c` stands at an offset of a source text. -/
def Follows (source : String) (offset : Nat) (c : Char) : Prop :=
  ∃ front back, source.toList = front ++ c :: back ∧ Cursor.bytes front = offset

/-- No name goes on at an offset of a source text. -/
def EndsWhole (source : String) (offset : Nat) : Prop :=
  ∀ c, Follows source offset c → isNamePart c = false

/-- The character at the offset of a place is the first one of what follows. -/
theorem Grammar.Cursor.IsIn.follows_iff {source : String} {a : Cursor} (isIn : a.IsIn source)
    {c : Char} : Follows source a.position.offset c ↔ c ∈ a.rest.head? := by
  obtain ⟨before, reads⟩ := isIn
  have whole : source.toList = before ++ a.rest := reads.text
  have offset : a.position.offset = Cursor.bytes before := reads.offset.trans (Nat.zero_add _)
  constructor
  · rintro ⟨front, back, text, size⟩
    have same : front = before := by
      rw [← Cursor.takeBytes_bytes front (c :: back), ← text, size, offset, whole,
        Cursor.takeBytes_bytes]
    rw [whole, same] at text
    rw [List.append_cancel_left text]
    rfl
  · intro mem
    obtain ⟨back, rest⟩ := List.head?_eq_some_iff.1 mem
    exact ⟨before, back, by rw [whole, rest], offset.symm⟩

/-- Places with the same offset are the same place. -/
theorem Grammar.Cursor.Reads.eq_of_offset_eq {a b : Cursor} {front : List Char}
    (reads : a.Reads front b) (same : b.position.offset = a.position.offset) : b = a := by
  cases front with
  | nil => exact reads.unique (.refl a)
  | cons c front =>
    have offset := reads.offset
    have positive := c.utf8Size_pos
    rw [Cursor.bytes_eq_utf8Len, String.utf8Len_cons] at offset
    omega

/-- No name goes on at a place whose next character is no part of one. -/
theorem Grammar.Cursor.IsIn.endsWhole {source : String} {a : Cursor} (isIn : a.IsIn source)
    (ends : ∀ c ∈ a.rest.head?, isNamePart c = false) : EndsWhole source a.position.offset :=
  fun c follows => ends c (isIn.follows_iff.1 follows)

/-! ## Words that end by themselves -/

namespace Grammar

variable {a b : Cursor} {ts : List ScriptToken} {p q : Pattern Rule} {f : Char → Bool}

/-- Where one character is not picked, it does not stand. -/
theorem Picks.ends {w : Bool} (picks : Picks p f) (inWord : w = true)
    (none : Gives scripts w (.once p) a none) : ∀ c ∈ a.rest.head?, f c = false := by
  subst inWord
  intro c mem
  refine Bool.eq_false_iff.2 fun holds => ?_
  obtain ⟨rest, same⟩ := List.head?_eq_some_iff.1 mem
  have takes : Takes (.once p) (c :: rest) rest := picks.takes holds
  obtain ⟨place', taken⟩ := takes a.position
  rw [← same] at taken
  cases none.unique taken

/-- What a pattern must not be followed by does not follow it. -/
theorem Gives.notBefore (h : Gives scripts true (.once (.notBefore p q)) a (some (ts, b))) :
    Gives scripts true (.once q) b none := by
  cases h with
  | seq _ between second =>
    cases between
    cases second with
    | «unless» inside => exact inside

/-- A keyword is whole. -/
theorem Gives.ends_keyword {s : String}
    (h : Gives scripts true (.once (wholeWord s)) a (some (ts, b))) :
    ∀ c ∈ b.rest.head?, isNamePart c = false := picks_identifierPart.ends rfl h.notBefore

/-- As many characters as there are leave none. -/
theorem Picks.ends_more (picks : Picks p f) {goal : Goal Rule} {w : Bool} {found : Found Rule}
    (h : Gives scripts w goal a found) (inWord : w = true) (more : goal = .more p)
    (is : found = some (ts, b)) : ∀ c ∈ b.rest.head?, f c = false := by
  induction h generalizing ts b with
  | more _ _ _ _ _ ih =>
    cases is
    exact ih inWord more rfl
  | noGap between =>
    subst inWord
    cases between
  | noMore between first =>
    subst inWord
    cases is
    cases more
    cases between
    exact picks.ends rfl first
  | _ => cases more

/-- A name is whole. -/
theorem Gives.ends_identifierName
    (h : Gives scripts true (.once Rule.identifierName.body) a (some (ts, b))) :
    ∀ c ∈ b.rest.head?, isNamePart c = false := by
  cases h with
  | seq _ between second =>
    cases between
    cases second with
    | many _ further => exact picks_identifierPart.ends_more further rfl rfl rfl
    | noMany none => exact picks_identifierPart.ends rfl none

/-- An identifier is whole. -/
theorem Gives.ends_identifier
    (h : Gives scripts true (.once Rule.identifier.body) a (some (ts, b))) :
    ∀ c ∈ b.rest.head?, isNamePart c = false := by
  cases h with
  | seq _ between second =>
    cases between
    cases second with
    | rule inside => exact inside.ends_identifierName

/-- A reserved word is whole. -/
theorem Gives.ends_reservedWord
    (h : Gives scripts true (.once Rule.reservedWord.body) a (some (ts, b))) :
    ∀ c ∈ b.rest.head?, isNamePart c = false := by
  obtain ⟨p, mem, gives⟩ := Gives.exists_oneOf h
  rcases List.mem_append.1 mem with mem | mem
  · obtain ⟨s, -, rfl⟩ := List.mem_map.1 mem
    cases gives with
    | rule inside => exact inside.ends_keyword
  · obtain rfl := List.mem_singleton.1 mem
    exact picks_identifierPart.ends rfl gives.notBefore

/-- The last character that is taken is no part of a name, or no name goes on behind it. -/
def Unsplit (a b : Cursor) : Prop :=
  (∃ front x, a.Reads (front ++ [x]) b ∧ isNamePart x = false) ∨
    ∀ c ∈ b.rest.head?, isNamePart c = false

/-- True for patterns that end in a mark or a keyword. -/
def Pattern.isClosed : Pattern Rule → Bool
  | .text cs => cs.getLast?.any (!isNamePart ·)
  | .alt a b => a.isClosed && b.isClosed
  | .seq a (.unless _) => a.isClosed
  | .seq _ b => b.isClosed
  | .rule (.keyword _) => true
  | _ => false

/-- Whatever such a pattern takes, no word is split behind it. -/
theorem Gives.unsplit (closed : p.isClosed = true)
    (h : Gives scripts true (.once p) a (some (ts, b))) : Unsplit a b := by
  induction p generalizing a b ts with
  | text cs =>
    obtain ⟨x, last, other⟩ := Option.any_eq_true _ _ |>.1 closed
    obtain ⟨front, rfl⟩ := List.getLast?_eq_some_iff.1 last
    cases h with
    | text taken =>
      obtain ⟨c', taken, same⟩ := Option.map_eq_some_iff.1 taken
      cases same
      exact .inl ⟨front, x, Cursor.take?_eq_some_iff.1 taken, by simpa using other⟩
  | alt p q ih ih' =>
    obtain ⟨first, second⟩ := Bool.and_eq_true_iff.1 closed
    cases h with
    | left h => exact ih first h
    | right _ h => exact ih' second h
  | seq p q ih ih' =>
    cases h with
    | seq first between second =>
      cases between
      obtain ⟨front, reads⟩ := first.reads
      have last (closed : q.isClosed = true) : Unsplit a b := by
        refine (ih' closed second).imp_left ?_
        rintro ⟨back, x, reads', other⟩
        exact ⟨front ++ back, x, List.append_assoc .. ▸ reads.trans reads', other⟩
      -- a look-ahead reads nothing, so that the end is that of the pattern in front of it
      cases q with
      | «unless» q =>
        cases second with
        | «unless» => exact ih closed first
      | _ => exact last closed
  | rule r =>
    cases r with
    | keyword s =>
      cases h with
      | rule inside => exact .inr inside.ends_keyword
    | _ => cases closed
  | char | stop | many | opt | «unless» => cases closed

end Grammar

/-! ## Joiners -/

/-- A part of a name that begins neither a name nor a numeral. -/
def isJoiner (c : Char) : Bool := isNamePart c && !isNameStart c && !c.isDigit

/-- A joiner stands first. -/
def JoinerFirst (cs : List Char) : Prop := ∃ c ∈ cs.head?, isJoiner c = true

/-- Where a joiner stands first, nothing is skipped. -/
theorem JoinerFirst.bare {cs : List Char} (h : JoinerFirst cs) : Bare cs := by
  obtain ⟨j, first, joiner⟩ := h
  obtain ⟨rest, rfl⟩ := List.head?_eq_some_iff.1 first
  have part : isNamePart j = true := by
    simp only [isJoiner, Bool.and_eq_true] at joiner
    exact joiner.1.1
  refine bare_cons (Bool.eq_false_iff.2 fun blank => ?_) ?_
  · cases part.symm.trans (isNamePart_blank blank)
  · rintro rfl
    exact absurd part (by decide)

namespace Grammar

variable {p : Pattern Rule} {r : Rule} {cs : List Char} {source : String}

/-- True for the openings that do not begin with a joiner. -/
def Pattern.missesJoiners : Pattern Rule → Bool
  | .text (c :: _) => !isJoiner c
  | .char k => k ∈ [.asciiLetter, .digit, .nonzeroDigit, .letter]
  | .rule (.keyword s) => s ∈ keywords
  | _ => false

/-- A text that begins with no joiner is refused where one stands first. -/
theorem refuses_joiner_text {x : Char} {xs : List Char} (other : isJoiner x = false)
    (joiner : JoinerFirst cs) : Refuses true (.text (x :: xs)) cs := by
  obtain ⟨j, first, holds⟩ := joiner
  refine refuses_text fun c mem => ?_
  obtain rfl : c = j := Option.some.inj (mem.symm.trans first)
  rintro rfl
  cases holds.symm.trans other

/-- Such an opening refuses joiners. -/
theorem refuses_joiner (h : p.missesJoiners = true) (joiner : JoinerFirst cs) :
    Refuses true p cs := by
  cases p with
  | text cs' =>
    cases cs' with
    | nil => cases h
    | cons c cs' => exact refuses_joiner_text (by simpa [Pattern.missesJoiners] using h) joiner
  | char k =>
    obtain ⟨j, first, holds⟩ := joiner
    refine (Picks.char k).refuses fun c mem => ?_
    obtain rfl : c = j := Option.some.inj (mem.symm.trans first)
    obtain ⟨⟨-, start⟩, digit⟩ : (isNamePart c = true ∧ isNameStart c = false) ∧
        c.isDigit = false := by simpa [isJoiner] using holds
    simp only [isNameStart, Bool.or_eq_false_iff] at start
    have listed : k = .asciiLetter ∨ k = .digit ∨ k = .nonzeroDigit ∨ k = .letter := by
      simpa [Pattern.missesJoiners] using h
    rcases listed with rfl | rfl | rfl | rfl <;> simp [CharClass.holds, start, digit]
  | rule r =>
    cases r with
    | keyword s =>
      -- no keyword starts with a joiner
      have letters : ∀ s ∈ keywords, (s.toList.head?.any (!isJoiner ·)) = true := by decide +kernel
      obtain ⟨c, first, other⟩ := Option.any_eq_true _ _ |>.1 (letters s (of_decide_eq_true h))
      obtain ⟨cs', spelled⟩ := List.head?_eq_some_iff.1 first
      refine .word rfl (.first ?_)
      rw [Pattern.lit, spelled]
      exact refuses_joiner_text (by simpa using other) joiner
    | _ => cases h
  | _ => cases h

/-- The word rules that leave a token, other than the end of the input. -/
def Rule.isWord : Rule → Bool
  | .keyword s => s ∈ keywords
  | .endOfInput => false
  | r => r.manner = .word

/-- Their openings do not begin with a joiner. Identifiers have none of their own. -/
theorem missesJoiners_openings (isWord : r.isWord = true) (other : r ≠ .identifier) :
    ∀ q ∈ (Pattern.rule r).openings isNaming 60, q.missesJoiners = true := by
  cases r with
  | keyword s => simpa [Pattern.openings, isNaming, Pattern.missesJoiners, Rule.isWord] using isWord
  | identifier => exact absurd rfl other
  | _ => first | (cases isWord; done) | exact List.all_eq_true.1 (by decide +kernel)

/-- No word begins with a joiner. -/
theorem refuses_joiner_word (isWord : r.isWord = true) (joiner : JoinerFirst cs) :
    Refuses true (.rule r) cs := by
  have plain : ∀ {r : Rule}, r.isWord = true → r ≠ .identifier → Refuses true (.rule r) cs :=
    fun isWord other => refuses_of_openings (fun _ => manner_of_isNaming)
      (fun q mem => refuses_joiner (missesJoiners_openings isWord other q mem) joiner) true
  by_cases is : r = .identifier
  · subst is
    exact .word rfl (.second (.unless (plain (r := .reservedWord) rfl (by decide)))
      (plain (r := .identifierName) rfl (by decide)))
  · exact plain isWord is

/-- True for patterns without a text or a word that begins with a joiner. -/
def Pattern.shunsJoiners : Pattern Rule → Bool
  | .text cs => cs.head?.all (!isJoiner ·)
  | .rule r => r.manner = .ordinary || r.isWord || r = .endOfInput
  | .seq a b | .alt a b => a.shunsJoiners && b.shunsJoiners
  | .many a | .opt a => a.shunsJoiners
  | .stop | .unless _ => true
  | .char _ => false

/-- The pattern whose matches a goal asks for is one. -/
def Goal.shunsJoiners : Goal Rule → Bool
  | .once p | .more p => p.shunsJoiners
  | .gap => true

/-- All patterns of the grammar outside words are such patterns. -/
theorem shunsJoiners_body (ordinary : r.manner = .ordinary) : r.body.shunsJoiners = true := by
  cases r with
  | _ => first | (cases ordinary; done) | decide +kernel

/-- A word rule has no match before a joiner, the one at the end of the input apart. -/
theorem Gives.keeps_joiner_word {a b : Cursor} {ts : List ScriptToken} (word : r.manner = .word)
    (shuns : (Pattern.rule r).shunsJoiners = true) (joiner : JoinerFirst a.rest)
    (h : Gives scripts true (.once r.body) a (some (ts, b))) : JoinerFirst b.rest := by
  by_cases ended : r = .endOfInput
  · subst ended
    cases h with
    | stop => exact joiner
  · have isWord : r.isWord = true := by
      simpa [Pattern.shunsJoiners, word, ended] using shuns
    cases refuses_joiner_word isWord joiner a.position with
    | noRule none =>
      rw [Bool.true_or] at none
      cases none.unique h

/-- **A match never gets past a joiner**, outside words. -/
theorem Gives.keeps_joiner {w : Bool} {goal : Goal Rule} {c : Cursor} {found : Found Rule}
    (h : Gives scripts w goal c found) (outside : w = false) (shuns : goal.shunsJoiners = true)
    (joiner : JoinerFirst c.rest) {ts : List ScriptToken} {c' : Cursor}
    (is : found = some (ts, c')) : JoinerFirst c'.rest := by
  induction h generalizing ts c' with
  | @text w cs c r taken =>
    obtain ⟨c'', taken, same⟩ := Option.map_eq_some_iff.1 (taken.trans is)
    cases same
    cases cs with
    | nil =>
      cases taken
      exact joiner
    | cons x xs =>
      have other : isJoiner x = false := by
        simpa [Goal.shunsJoiners, Pattern.shunsJoiners] using shuns
      -- a text that begins otherwise is not read in front of a joiner
      have refused : Refuses true (.text (x :: xs)) c.rest := refuses_joiner_text other joiner
      cases refused c.position with
      | text refused => cases (Option.map_eq_none_iff.1 refused).symm.trans taken
  | char => cases shuns
  | seq _ _ _ ih₁ ih₂ ih₃ =>
    cases is
    obtain ⟨first, second⟩ := Bool.and_eq_true_iff.1 shuns
    exact ih₃ outside second (ih₂ outside rfl (ih₁ outside first joiner rfl) rfl) rfl
  | more _ _ _ ih₁ ih₂ ih₃ =>
    cases is
    exact ih₃ outside shuns (ih₂ outside shuns (ih₁ outside rfl joiner rfl) rfl) rfl
  | many _ _ ih₁ ih₂ =>
    cases is
    exact ih₂ outside shuns (ih₁ outside shuns joiner rfl) rfl
  | left _ ih => exact ih outside (Bool.and_eq_true_iff.1 shuns).1 joiner is
  | right _ _ _ ih => exact ih outside (Bool.and_eq_true_iff.1 shuns).2 joiner is
  | opt _ ih => exact ih outside shuns joiner is
  | @apart c found blanks =>
    obtain ⟨place', skipped⟩ := (Skips.refl joiner.bare).gap c.position
    cases (Gives.apart blanks).unique skipped
    cases is
    exact joiner
  | @rule w r c ts c₁ inside ih =>
    cases is
    subst outside
    cases manner : r.manner with
    | ordinary =>
      have outside : (false || decide (scripts.manner r = .word)) = false := by
        rw [show scripts.manner r = .ordinary from manner]
        rfl
      exact ih outside (shunsJoiners_body manner) joiner rfl
    | word =>
      have inWord : (false || decide (scripts.manner r = .word)) = true := by
        rw [show scripts.manner r = .word from manner]
        rfl
      rw [inWord] at inside
      exact inside.keeps_joiner_word manner shuns joiner
  | stop | noOpt | noMany | noGap | noMore | «unless» | close =>
    cases is
    exact joiner
  | noStop | noFirst | noBetween | noSecond | noUnless | noRule => cases is

/-- Behind a numeral stands no part of a name, or a joiner. -/
theorem Gives.ends_numericLiteral {a b : Cursor} {ts : List ScriptToken}
    (h : Gives scripts true (.once Rule.numericLiteral.body) a (some (ts, b))) :
    (∀ c ∈ b.rest.head?, isNamePart c = false) ∨ JoinerFirst b.rest := by
  have ends := (picks_identifierStart.alt (.char .digit)).ends rfl h.notBefore
  by_cases part : ∃ c ∈ b.rest.head?, isNamePart c = true
  · obtain ⟨c, first, part⟩ := part
    obtain ⟨start, digit⟩ := Bool.or_eq_false_iff.1 (ends c first)
    have digit : c.isDigit = false := digit
    exact .inr ⟨c, first, by simp [isJoiner, part, start, digit]⟩
  · exact .inl fun c first => Bool.eq_false_iff.2 fun holds => part ⟨c, first, holds⟩

theorem once_ne_gap (p : Pattern Rule) : Goal.once p ≠ .gap := by
  intro same
  cases same

theorem more_ne_gap (p : Pattern Rule) : Goal.more p ≠ .gap := by
  intro same
  cases same

/-- Numerals are whole, or the match ends at a joiner. -/
theorem Gives.numerals_whole {w : Bool} {goal : Goal Rule} {c : Cursor} {found : Found Rule}
    (h : Gives scripts w goal c found) (outside : w = false) (asks : goal ≠ .gap)
    (shuns : goal.shunsJoiners = true) (isIn : c.IsIn source) {ts : List ScriptToken} {c' : Cursor}
    (is : found = some (ts, c')) :
    (∀ u ∈ Token.allOf ts, u.rule = .numericLiteral → EndsWhole source u.span.stop) ∨
      JoinerFirst c'.rest := by
  have nothing : ∀ u ∈ Token.allOf ([] : List ScriptToken), u.rule = .numericLiteral →
      EndsWhole source u.span.stop := by
    rw [Token.allOf]
    exact List.forall_mem_nil _
  induction h generalizing ts c' with
  | text taken | char taken =>
    obtain ⟨c'', taken, same⟩ := Option.map_eq_some_iff.1 (taken.trans is)
    cases same
    exact .inl nothing
  | seq first between second ih₁ _ ih₃ =>
    cases is
    obtain ⟨shuns₁, shuns₂⟩ := Bool.and_eq_true_iff.1 shuns
    obtain ⟨front, reads⟩ := first.reads
    obtain ⟨blanks, reads'⟩ := between.reads
    rw [Token.allOf_append, List.forall_mem_append]
    rcases ih₁ outside (once_ne_gap _) shuns₁ isIn rfl with whole | joiner
    · exact (ih₃ outside (once_ne_gap _) shuns₂ ((isIn.reads reads).reads reads') rfl).imp_left
        (.intro whole)
    -- a joiner left behind the first part is still there behind the second
    · exact .inr (second.keeps_joiner outside shuns₂ (between.keeps_joiner outside rfl joiner rfl) rfl)
  | more between first further _ ih₂ ih₃ =>
    cases is
    obtain ⟨blanks, reads⟩ := between.reads
    obtain ⟨front, reads'⟩ := first.reads
    have isIn := isIn.reads reads
    rw [Token.allOf_append, List.forall_mem_append]
    rcases ih₂ outside (once_ne_gap _) shuns isIn rfl with whole | joiner
    · exact (ih₃ outside (more_ne_gap _) shuns (isIn.reads reads') rfl).imp_left (.intro whole)
    · exact .inr (further.keeps_joiner outside shuns joiner rfl)
  | many first further ih₁ ih₂ =>
    cases is
    obtain ⟨front, reads⟩ := first.reads
    rw [Token.allOf_append, List.forall_mem_append]
    rcases ih₁ outside (once_ne_gap _) shuns isIn rfl with whole | joiner
    · exact (ih₂ outside (more_ne_gap _) shuns (isIn.reads reads) rfl).imp_left (.intro whole)
    · exact .inr (further.keeps_joiner outside shuns joiner rfl)
  | left _ ih => exact ih outside (once_ne_gap _) (Bool.and_eq_true_iff.1 shuns).1 isIn is
  | right _ _ _ ih => exact ih outside (once_ne_gap _) (Bool.and_eq_true_iff.1 shuns).2 isIn is
  | opt _ ih => exact ih outside (once_ne_gap _) shuns isIn is
  | close | apart => exact absurd rfl asks
  | @rule w r c ts c₁ inside ih =>
    cases is
    subst outside
    obtain ⟨front, reads⟩ := inside.reads
    cases manner : scripts.manner r with
    | ordinary =>
      rw [RuleSet.tokens, if_neg Bool.false_ne_true, manner]
      rw [manner] at ih
      simp only [Token.allOf, Token.all, List.append_nil, List.forall_mem_cons]
      refine (ih rfl (once_ne_gap _) (shunsJoiners_body manner) isIn rfl).imp_left (.intro ?_)
      rintro rfl
      cases manner
    | word =>
      rw [RuleSet.tokens, if_neg Bool.false_ne_true, manner]
      rw [manner] at inside
      simp only [Token.allOf, Token.all, List.append_nil, List.forall_mem_singleton]
      by_cases numeral : r = .numericLiteral
      · subst numeral
        refine inside.ends_numericLiteral.imp_left fun ends _ => ?_
        exact (isIn.reads reads).endsWhole ends
      · exact .inl fun is => absurd is numeral
  | stop | noOpt | noMany | noGap | noMore | «unless» =>
    cases is
    exact .inl nothing
  | noStop | noFirst | noBetween | noSecond | noUnless | noRule => cases is

/-- A match of a rule outside words leaves the token of the rule. -/
theorem Gives.of_rule {R : Type} {g : RuleSet R} {r : R} {a b : Cursor} {us : List (Token R)}
    (h : Gives g false (.once (.rule r)) a (some (us, b))) :
    ∃ ts, us = g.tokens false r a b ts ∧
      Gives g (g.manner r = .word) (.once (g.body r)) a (some (ts, b)) := by
  generalize found : some (us, b) = x at h
  cases h with
  | rule inside =>
    cases found
    exact ⟨_, rfl, inside⟩
  | noRule => cases found

/-- The token of a word rule. -/
theorem Gives.of_word {R : Type} {g : RuleSet R} {r : R} (manner : g.manner r = .word)
    {a b : Cursor} {us : List (Token R)} (h : Gives g false (.once (.rule r)) a (some (us, b))) :
    us = [.word r (a.spanTo b) (a.textTo b)] ∧
      ∃ ts, Gives g true (.once (g.body r)) a (some (ts, b)) := by
  obtain ⟨ts, rfl, inside⟩ := h.of_rule
  rw [manner] at inside
  exact ⟨by simp [RuleSet.tokens, manner], ts, inside⟩

/-- The token of a rule that is no word. -/
theorem Gives.of_node {R : Type} {g : RuleSet R} {r : R} (manner : g.manner r = .ordinary)
    {a b : Cursor} {us : List (Token R)} (h : Gives g false (.once (.rule r)) a (some (us, b))) :
    ∃ ts, us = [.node r (a.spanTo b) ts] ∧
      Gives g false (.once (g.body r)) a (some (ts, b)) := by
  obtain ⟨ts, rfl, inside⟩ := h.of_rule
  rw [manner] at inside
  exact ⟨ts, by simp [RuleSet.tokens, manner], inside⟩

end Grammar

/-! ## Scripts -/

namespace ScriptToken

/-- Keywords, also those that are operators, identifiers and numerals. -/
def isWordlike : ScriptToken → Bool
  | .word (.keyword _) .. | .word .identifierName .. | .word .identifier ..
  | .word .numericLiteral .. => true
  | .word _ _ text => text ∈ keywords
  | .node .. => false

/-- The getters and setters of object literals. -/
def isAccessor (t : ScriptToken) : Bool := t.rule = .propertyGetter || t.rule = .propertySetter

/-- True for an accessor whose name stands right behind its first word and begins with a part of a
name. -/
def runsTogether : ScriptToken → Bool
  | .node _ span (.node _ nameSpan [.word _ _ text] :: _) =>
    nameSpan.start = span.start + 3 && text.toList.head?.any isNamePart
  | _ => false

end ScriptToken

namespace Grammar

variable {a b : Cursor} {source : String}

/-- A word that is no numeral ends by itself. -/
theorem Gives.ends_wordlike {r : Rule} {span : Span} {ts : List ScriptToken}
    (h : Gives scripts true (.once r.body) a (some (ts, b))) (manner : r.manner = .word)
    (wordlike : ScriptToken.isWordlike (.word r span (a.textTo b)) = true)
    (other : r ≠ .numericLiteral) : ∀ c ∈ b.rest.head?, isNamePart c = false := by
  have closed (closed : r.body.isClosed = true) (listed : a.textTo b ∈ keywords) :
      ∀ c ∈ b.rest.head?, isNamePart c = false := by
    -- the text of a keyword ends in a part of a name
    refine (h.unsplit closed).resolve_left ?_
    rintro ⟨front, x, reads, last⟩
    have parts : ∀ s ∈ keywords, (s.toList.getLast?.any isNamePart) = true := by decide +kernel
    have part := parts _ listed
    rw [reads.textTo, String.toList_ofList, List.getLast?_concat, Option.any_some, last] at part
    cases part
  cases r with
  | keyword s => exact h.ends_keyword
  | identifierName => exact h.ends_identifierName
  | identifier => exact h.ends_identifier
  | reservedWord => exact h.ends_reservedWord
  | numericLiteral => exact absurd rfl other
  | endOfInput =>
    cases h with
    | stop ended =>
      rw [List.isEmpty_iff.1 ended]
      nofun
  | _ => first | (cases manner; done) | exact closed (by decide +kernel) (of_decide_eq_true wordlike)

/-- What is skipped does not begin with a part of a name. -/
theorem Gives.ends_gap {ts : List ScriptToken} (h : Gives scripts false .gap a (some (ts, b)))
    (apart : b.position.offset ≠ a.position.offset) :
    ∀ c ∈ a.rest.head?, isNamePart c = false := by
  intro c first
  refine Bool.eq_false_iff.2 fun part => apart ?_
  obtain ⟨rest, same⟩ := List.head?_eq_some_iff.1 first
  have bare : Bare a.rest := by
    rw [same]
    refine bare_cons (Bool.eq_false_iff.2 fun blank => ?_) ?_
    · cases part.symm.trans (isNamePart_blank blank)
    · rintro rfl
      exact absurd part (by decide)
  obtain ⟨place', skipped⟩ := (Skips.refl bare).gap a.position
  cases h.unique skipped
  obtain ⟨front, reads⟩ := h.reads
  obtain rfl : front = [] := List.self_eq_append_left.1 reads.text
  exact reads.offset

/-- The name of a property is a word, whose first character stands where the name begins. -/
theorem Gives.exists_name {us : List ScriptToken}
    (h : Gives scripts false (.once (.rule .propertyName)) a (some (us, b))) :
    ∃ nameSpan k span text, us = [.node .propertyName nameSpan [.word k span text]] ∧
      nameSpan.start = a.position.offset ∧ text.toList.head? = a.rest.head? := by
  obtain ⟨ws, rfl, name⟩ := h.of_node rfl
  have shorter := h.length_lt scriptRanking_sound rfl
  obtain ⟨p, mem, word⟩ := Gives.exists_oneOf name
  obtain ⟨k, rfl, manner⟩ : ∃ k, p = .rule k ∧ scripts.manner k = .word := by
    simp only [List.mem_cons, List.not_mem_nil, or_false] at mem
    rcases mem with rfl | rfl | rfl <;> exact ⟨_, rfl, rfl⟩
  obtain ⟨rfl, -⟩ := word.of_word manner
  obtain ⟨front, reads⟩ := word.reads
  refine ⟨_, k, _, _, rfl, rfl, ?_⟩
  rw [reads.textTo, String.toList_ofList, reads.text]
  cases front with
  | nil =>
    rw [reads.text, List.nil_append] at shorter
    exact absurd shorter (Nat.lt_irrefl _)
  | cons c front => rfl

/-- An accessor begins with its word, and its name stands behind what is skipped after the word. -/
theorem Gives.exists_accessor {r : Rule} {u : ScriptToken}
    (h : Gives scripts false (.once (.rule r)) a (some ([u], b)))
    (accessor : r = .propertyGetter ∨ r = .propertySetter) :
    ∃ mark ∈ ["get", "set"], ∃ c c' skipped, a.Reads mark.toList c ∧
      Gives scripts false .gap c (some (skipped, c')) ∧ u.span.start = a.position.offset ∧
      u.runsTogether =
        (decide (c'.position.offset = a.position.offset + 3) && c'.rest.head?.any isNamePart) := by
  -- both bodies begin with the word and the name
  obtain ⟨mark, listed, ordinary, rest, body⟩ : ∃ mark ∈ ["get", "set"],
      scripts.manner r = .ordinary ∧ ∃ rest : List (Pattern Rule),
        scripts.body r = rest.foldl .seq (.seq (.lit mark) (.rule .propertyName)) := by
    rcases accessor with rfl | rfl
    · exact ⟨"get", by simp, rfl, [.lit "(", .lit ")", .rule .functionBody], rfl⟩
    · exact ⟨"set", by simp, rfl,
        [.lit "(", .rule .identifier, .lit ")", .rule .functionBody], rfl⟩
  obtain ⟨ts, token, inside⟩ := h.of_node ordinary
  obtain rfl := List.singleton_inj.1 token
  rw [body] at inside
  obtain ⟨us, vs, c₃, front, rfl⟩ := inside.front
  cases front with
  | @seq _ _ _ _ _ c skipped c' us _ first between second =>
    cases first with
    | text taken =>
      obtain ⟨_, taken, same⟩ := Option.map_eq_some_iff.1 taken
      cases same
      obtain ⟨nameSpan, k, span, text, rfl, start, spelled⟩ := second.exists_name
      refine ⟨mark, listed, c, c', skipped, Cursor.take?_eq_some_iff.1 taken, between, rfl, ?_⟩
      rw [← start, ← spelled]
      rfl

/-- **What stands behind `get` and `set`**: a part of a name if and only if the accessor's name runs
together with the word. -/
theorem Gives.endsWhole_accessor {u : ScriptToken} (isIn : a.IsIn source)
    (h : Gives scripts false (.once (.rule u.rule)) a (some ([u], b)))
    (accessor : u.isAccessor = true) :
    Token.slice source u.span.start (u.span.start + 3) ∈ ["get", "set"] ∧
      (EndsWhole source (u.span.start + 3) ↔ u.runsTogether = false) := by
  obtain ⟨mark, listed, c, c', skipped, reads, between, start, together⟩ :=
    h.exists_accessor (by simpa [ScriptToken.isAccessor] using accessor)
  have size : Cursor.bytes mark.toList = 3 := by
    have sizes : ∀ s ∈ ["get", "set"], Cursor.bytes s.toList = 3 := by decide
    exact sizes mark listed
  have behind : c.position.offset = u.span.start + 3 := by rw [reads.offset, size, start]
  rw [← start] at together
  constructor
  · rw [start] at behind ⊢
    rw [← behind, isIn.slice reads, String.ofList_toList]
    exact listed
  · have ends : EndsWhole source (u.span.start + 3) ↔ ∀ x ∈ c.rest.head?, isNamePart x = false := by
      rw [← behind]
      exact forall_congr' fun x => imp_congr_left (isIn.reads reads).follows_iff
    rw [ends, together]
    by_cases here : c'.position.offset = u.span.start + 3
    · -- nothing is skipped, and the name begins right behind the word
      obtain ⟨front, reads'⟩ := between.reads
      obtain rfl := reads'.eq_of_offset_eq (here.trans behind.symm)
      rw [decide_eq_true here, Bool.true_and]
      cases c'.rest.head? <;> simp
    · rw [decide_eq_false here, Bool.false_and]
      exact ⟨fun _ => rfl, fun _ => between.ends_gap (by rw [behind]; exact here)⟩

/-- A script ends where the text ends. -/
theorem Gives.rest_script {ts : List ScriptToken}
    (h : Gives scripts false (.once (.rule .script)) a (some (ts, b))) : b.rest = [] := by
  obtain ⟨_, -, inside⟩ := h.of_node rfl
  cases inside with
  | seq _ _ last =>
    obtain ⟨-, _, ended⟩ := last.of_word rfl
    cases ended with
    | stop ended => exact List.isEmpty_iff.1 ended

end Grammar

/-- **Words are whole.** In every source text that the grammar accepts, no keyword, no identifier and
no numeral is directly followed by a character that a name can go on with. Neither is the `get` or
`set` of an accessor, unless the name of the accessor is written right behind it and begins with such
a character. -/
theorem words_whole {source : String} {t : ScriptToken} (parsed : parseScript source = .ok t) :
    (∀ u : ScriptToken, u ∈ t.all → u.isWordlike = true → EndsWhole source u.span.stop) ∧
      ∀ u : ScriptToken, u ∈ t.all → u.isAccessor = true →
        Token.slice source u.span.start (u.span.start + 3) ∈ ["get", "set"] ∧
          (EndsWhole source (u.span.start + 3) ↔ u.runsTogether = false) := by
  obtain ⟨c, gives⟩ := parseScript_eq_ok_iff.1 parsed
  have begins := Cursor.isIn_ofChars source
  have listed : ∀ u : ScriptToken, u ∈ t.all → u ∈ Token.allOf [t] := fun u mem =>
    Token.mem_allOf.2 ⟨t, List.mem_singleton_self t, mem⟩
  refine ⟨fun u mem wordlike => ?_, fun u mem accessor => ?_⟩
  · obtain ⟨a, b, isIn, isIn', matched⟩ := gives.exists_match begins rfl u (listed u mem)
    cases u with
    | node => cases wordlike
    | word r span text =>
      by_cases numeral : r = .numericLiteral
      · -- a joiner behind a numeral would be behind the whole script
        refine (gives.numerals_whole rfl (once_ne_gap _) rfl begins rfl).resolve_right ?_ _
          (listed _ mem) numeral
        rintro ⟨j, first, -⟩
        rw [gives.rest_script] at first
        cases first
      · have manner : scripts.manner r = .word := by
          cases manner : scripts.manner r with
          | word => rfl
          | ordinary =>
            obtain ⟨_, same, -⟩ := Gives.of_node manner matched
            cases same
        obtain ⟨same, _, inside⟩ := Gives.of_word manner matched
        cases List.singleton_inj.1 same
        exact isIn'.endsWhole (inside.ends_wordlike manner wordlike numeral)
  · obtain ⟨a, b, isIn, -, matched⟩ := gives.exists_match begins rfl u (listed u mem)
    exact matched.endsWhole_accessor isIn accessor

/-- A script with an accessor whose name stands apart, a keyword that is an operator, and numerals of
two kinds. -/
def spacedWords : String := "(\x7bget x() \x7b return 0x1F in 1.5e3; \x7d\x7d, typeof $.if);"

/-- In a script with spaces between its words, the words are whole. -/
theorem words_whole_spaced :
    ∃ t : ScriptToken, parseScript spacedWords = .ok t ∧
      (∀ u : ScriptToken, u ∈ t.all → u.isWordlike = true → EndsWhole spacedWords u.span.stop) ∧
      ∀ u : ScriptToken, u ∈ t.all → u.isAccessor = true →
        Token.slice spacedWords u.span.start (u.span.start + 3) ∈ ["get", "set"] ∧
          (EndsWhole spacedWords (u.span.start + 3) ↔ u.runsTogether = false) := by
  have read : (parseScript spacedWords).isOk = true := by decide +kernel
  cases parsed : parseScript spacedWords with
  | ok t => exact ⟨t, rfl, words_whole parsed⟩
  | error e =>
    rw [parsed] at read
    cases read

/-- A script with a getter whose name is written directly behind `get`. -/
def joinedWords : String := "(\x7bgetx()\x7b\x7d\x7d);"

/-- The name of a getter may run together with `get`: here an `x` follows it directly. -/
theorem accessor_runsTogether_getx :
    ∃ t u : ScriptToken, parseScript joinedWords = .ok t ∧ u ∈ t.all ∧
      u.isAccessor = true ∧ Token.slice joinedWords u.span.start (u.span.start + 3) = "get" ∧
      Follows joinedWords (u.span.start + 3) 'x' ∧ isNamePart 'x' = true := by
  have found : ((parseScript joinedWords).toOption.bind fun t =>
      (t.all.find? ScriptToken.isAccessor).map (·.span.start)) = some 2 := by decide +kernel
  cases parsed : parseScript joinedWords with
  | error e =>
    rw [parsed] at found
    cases found
  | ok t =>
    rw [parsed] at found
    obtain ⟨u, accessor, start⟩ := Option.map_eq_some_iff.1 found
    refine ⟨t, u, rfl, List.mem_of_find?_eq_some accessor, List.find?_some accessor, ?_, ?_, ?_⟩
    · rw [start]
      decide +kernel
    · rw [start]
      exact ⟨"(\x7bget".toList, "()\x7b\x7d\x7d);".toList, rfl, rfl⟩
    · decide

end AbstractScript
