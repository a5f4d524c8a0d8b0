import AbstractScript.Proofs.Matching

/-!
# The shape of token trees

What a rule can take and what it can leave, whatever the text is. `Spells` says which texts a
pattern takes inside a word, `Yields` which tokens it leaves outside words. The matches that a
pattern forbids (`unless`) are left out, so that both say a little too much.
-/
namespace AbstractScript.Grammar

variable {R : Type} {g : RuleSet R}

/-! ## Texts of words -/

/-- The text `cs` is taken by `p` at some place inside a word. -/
def Spells (g : RuleSet R) (p : Pattern R) (cs : List Char) : Prop :=
  ∃ a b ts, Gives g true (.once p) a (some (ts, b)) ∧ a.Reads cs b

namespace Spells

variable {a b : Pattern R} {front : List Char}

/-- The text that a match takes. -/
theorem of_gives {c c' : Cursor} {ts : List (Token R)}
    (h : Gives g true (.once a) c (some (ts, c'))) : ∃ front, Spells g a front ∧ c.Reads front c' :=
  let ⟨front, reads⟩ := h.reads
  ⟨front, ⟨c, c', ts, h, reads⟩, reads⟩

/-- A fixed text spells itself. -/
theorem text {cs : List Char} (h : Spells g (.text cs) front) : front = cs := by
  obtain ⟨c, c', ts, h, reads⟩ := h
  cases h with
  | text taken =>
    obtain ⟨c'', taken, same⟩ := Option.map_eq_some_iff.1 taken
    cases same
    exact reads.text_unique (Cursor.take?_eq_some_iff.1 taken)

/-- A class of characters spells one of its characters. -/
theorem char {k : CharClass} (h : Spells g (.char k) front) : ∃ x, k.holds x ∧ front = [x] := by
  obtain ⟨c, c', ts, h, reads⟩ := h
  cases h with
  | char taken =>
    obtain ⟨c'', taken, same⟩ := Option.map_eq_some_iff.1 taken
    cases same
    obtain ⟨x, holds, reads'⟩ := Cursor.takeChar?_eq_some_iff.1 taken
    exact ⟨x, holds, reads.text_unique reads'⟩

/-- One text after another. -/
theorem seq (h : Spells g (.seq a b) front) :
    ∃ xs ys, Spells g a xs ∧ Spells g b ys ∧ front = xs ++ ys := by
  obtain ⟨c, c', ts, h, reads⟩ := h
  cases h with
  | seq first between second =>
    cases between
    obtain ⟨xs, spelled, reads₁⟩ := of_gives first
    obtain ⟨ys, spelled', reads₂⟩ := of_gives second
    exact ⟨xs, ys, spelled, spelled', reads.text_unique (reads₁.trans reads₂)⟩

/-- The text of one of two patterns. -/
theorem alt (h : Spells g (.alt a b) front) : Spells g a front ∨ Spells g b front := by
  obtain ⟨c, c', ts, h, reads⟩ := h
  cases h with
  | left first => exact .inl ⟨c, c', ts, first, reads⟩
  | right _ second => exact .inr ⟨c, c', ts, second, reads⟩

/-- A text or nothing. -/
theorem opt (h : Spells g (.opt a) front) : Spells g a front ∨ front = [] := by
  obtain ⟨c, c', ts, h, reads⟩ := h
  cases h with
  | opt inside => exact .inl ⟨c, c', ts, inside, reads⟩
  | noOpt => exact .inr (reads.text_unique (.refl c))

/-- Nothing. -/
theorem «unless» (h : Spells g (.unless a) front) : front = [] := by
  obtain ⟨c, c', ts, h, reads⟩ := h
  cases h with
  | «unless» => exact reads.text_unique (.refl c)

/-- A text that does not go on. -/
theorem notBefore (h : Spells g (.notBefore a b) front) : Spells g a front := by
  obtain ⟨xs, ys, spelled, none, rfl⟩ := h.seq
  rwa [«unless» none, List.append_nil]

/-- The texts of all further matches. -/
theorem of_more {goal : Goal R} {c c' : Cursor} {ts : List (Token R)}
    (h : Gives g true goal c (some (ts, c'))) (more : goal = .more a) :
    ∃ xss : List (List Char), (∀ xs ∈ xss, Spells g a xs) ∧ c.Reads xss.flatten c' := by
  generalize inWord : true = w at h
  generalize found : some (ts, c') = r at h
  induction h generalizing ts c' with
  | more between first further _ _ ih =>
    cases found
    cases more
    cases inWord
    cases between
    obtain ⟨xs, spelled, reads⟩ := of_gives first
    obtain ⟨xss, spelled', reads'⟩ := ih rfl rfl rfl
    exact ⟨xs :: xss, List.forall_mem_cons.2 ⟨spelled, spelled'⟩, reads.trans reads'⟩
  | noGap | noMore =>
    cases found
    exact ⟨[], List.forall_mem_nil _, .refl _⟩
  | _ => cases more

/-- The texts of as many matches as there are. -/
theorem many (h : Spells g (.many a) front) :
    ∃ xss : List (List Char), (∀ xs ∈ xss, Spells g a xs) ∧ front = xss.flatten := by
  obtain ⟨c, c', ts, h, reads⟩ := h
  cases h with
  | many first further =>
    obtain ⟨xs, spelled, reads₁⟩ := of_gives first
    obtain ⟨xss, spelled', reads₂⟩ := of_more further rfl
    exact ⟨xs :: xss, List.forall_mem_cons.2 ⟨spelled, spelled'⟩,
      reads.text_unique (reads₁.trans reads₂)⟩
  | noMany => exact ⟨[], List.forall_mem_nil _, reads.text_unique (.refl c)⟩

/-- The text of one of several patterns. -/
theorem oneOf {ps : List (Pattern R)} (h : Spells g (.oneOf ps) front) :
    ∃ p ∈ ps, Spells g p front := by
  induction ps with
  | nil =>
    obtain ⟨c, c', ts, h, -⟩ := h
    cases h with
    | «unless» inside =>
      cases inside with
      | text taken => cases taken
  | cons p rest ih =>
    cases rest with
    | nil => exact ⟨p, List.mem_singleton_self p, h⟩
    | cons q rest =>
      rcases alt h with first | others
      · exact ⟨p, List.mem_cons_self, first⟩
      · obtain ⟨q', mem, spelled⟩ := ih others
        exact ⟨q', List.mem_cons_of_mem p mem, spelled⟩

/-- One of several fixed texts. -/
theorem oneOfTexts {texts : List String} (h : Spells g (.oneOfTexts texts) front) :
    ∃ s ∈ texts, front = s.toList := by
  obtain ⟨p, mem, spelled⟩ := oneOf h
  obtain ⟨s, listed, rfl⟩ := List.mem_map.1 mem
  exact ⟨s, listed, spelled.text⟩

/-- The text of a word's pattern is the text of the word. -/
theorem of_rule {r : R} (h : Spells g (.rule r) front) : Spells g (g.body r) front := by
  obtain ⟨c, c', ts, h, reads⟩ := h
  cases h with
  | rule inside => exact ⟨c, c', _, inside, reads⟩

end Spells

/-! ## Tokens of rules -/

/-- The rules that a pattern names, as often as it names them. -/
def Pattern.rules : Pattern R → List R
  | .text _ | .char _ | .stop | .unless _ => []
  | .rule r => [r]
  | .seq a b | .alt a b => a.rules ++ b.rules
  | .many a | .opt a => a.rules

/-- The tokens `ts` are what `p` may leave outside words. -/
inductive Yields (g : RuleSet R) : Pattern R → List (Token R) → Prop
  | text {cs} : Yields g (.text cs) []
  | char {k} : Yields g (.char k) []
  | stop : Yields g .stop []
  | unless {a} : Yields g (.unless a) []
  | seq {a b ts us} (first : Yields g a ts) (second : Yields g b us) :
    Yields g (.seq a b) (ts ++ us)
  | left {a b ts} (first : Yields g a ts) : Yields g (.alt a b) ts
  | right {a b ts} (second : Yields g b ts) : Yields g (.alt a b) ts
  | opt {a ts} (inside : Yields g a ts) : Yields g (.opt a) ts
  | noOpt {a} : Yields g (.opt a) []
  | many {a ts us} (first : Yields g a ts) (further : Yields g (.many a) us) :
    Yields g (.many a) (ts ++ us)
  | noMany {a} : Yields g (.many a) []
  | word {r span text} (manner : g.manner r = .word) (spelled : Spells g (g.body r) text.toList) :
    Yields g (.rule r) [.word r span text]
  | node {r span ts} (manner : g.manner r = .ordinary) (inside : Yields g (g.body r) ts) :
    Yields g (.rule r) [.node r span ts]

/-- The token `t` is one that the rule `r` may leave. -/
def Token.IsOf (g : RuleSet R) (r : R) (t : Token R) : Prop := Yields g (.rule r) [t]

/-- The pattern whose tokens a goal leaves. -/
def Goal.pattern? : Goal R → Option (Pattern R)
  | once p => some p
  | more p => some (.many p)
  | gap => none

namespace Yields

/-- What a goal gives outside words, its pattern may leave. -/
theorem of_goal {w : Bool} {goal : Goal R} {c : Cursor} {r : Found R} (h : Gives g w goal c r)
    (outside : w = false) {p : Pattern R} (is : goal.pattern? = some p) :
    ∀ {ts c'}, r = some (ts, c') → Yields g p ts := by
  induction h generalizing p with
  | text taken =>
    rintro ts c' rfl
    obtain ⟨c'', taken, same⟩ := Option.map_eq_some_iff.1 taken
    cases same
    cases is
    exact .text
  | char taken =>
    rintro ts c' rfl
    obtain ⟨c'', taken, same⟩ := Option.map_eq_some_iff.1 taken
    cases same
    cases is
    exact .char
  | stop =>
    rintro ts c' ⟨⟩
    cases is
    exact .stop
  | seq _ _ _ first _ second =>
    rintro ts c' ⟨⟩
    cases is
    exact .seq (first outside rfl rfl) (second outside rfl rfl)
  | left _ first =>
    rintro ts c' ⟨⟩
    cases is
    exact .left (first outside rfl rfl)
  | right _ _ _ second =>
    rintro ts c' rfl
    cases is
    exact .right (second outside rfl rfl)
  | opt _ inside =>
    rintro ts c' ⟨⟩
    cases is
    exact .opt (inside outside rfl rfl)
  | noOpt =>
    rintro ts c' ⟨⟩
    cases is
    exact .noOpt
  | many _ _ first further | more _ _ _ _ first further =>
    rintro ts c' ⟨⟩
    cases is
    exact .many (first outside rfl rfl) (further outside rfl rfl)
  | noMany | noGap | noMore =>
    rintro ts c' ⟨⟩
    cases is
    exact .noMany
  | «unless» =>
    rintro ts c' ⟨⟩
    cases is
    exact .unless
  | @rule w r c ts c₁ inside ih =>
    rintro ts c' ⟨⟩
    cases is
    -- outside a word, a rule makes a token of its own
    cases outside
    rw [RuleSet.tokens, if_neg Bool.false_ne_true]
    cases manner : g.manner r with
    | word =>
      rw [manner] at inside
      obtain ⟨front, spelled, reads⟩ := Spells.of_gives inside
      refine .word manner ?_
      rwa [reads.textTo, String.toList_ofList]
    | ordinary =>
      rw [manner] at ih
      exact .node manner (ih rfl rfl rfl)
  | noStop | noFirst | noBetween | noSecond | noUnless | noRule => nofun
  | close | apart => cases is

/-- What a pattern gives outside words, it may leave. -/
theorem of_gives {p : Pattern R} {c c' : Cursor} {ts : List (Token R)}
    (h : Gives g false (.once p) c (some (ts, c'))) : Yields g p ts := of_goal h rfl rfl rfl

/-- Each token is one of a rule that the pattern names. -/
theorem exists_rule {p : Pattern R} {ts : List (Token R)} (h : Yields g p ts) :
    ∀ t ∈ ts, ∃ r ∈ p.rules, t.IsOf g r := by
  induction h with
  | text | char | stop | «unless» | noOpt | noMany => nofun
  | seq _ _ first second =>
    refine List.forall_mem_append.2 ⟨fun t mem => ?_, fun t mem => ?_⟩
    · obtain ⟨r, named, is⟩ := first t mem
      exact ⟨r, List.mem_append_left _ named, is⟩
    · obtain ⟨r, named, is⟩ := second t mem
      exact ⟨r, List.mem_append_right _ named, is⟩
  | left _ first =>
    intro t mem
    obtain ⟨r, named, is⟩ := first t mem
    exact ⟨r, List.mem_append_left _ named, is⟩
  | right _ second =>
    intro t mem
    obtain ⟨r, named, is⟩ := second t mem
    exact ⟨r, List.mem_append_right _ named, is⟩
  | opt _ inside => exact inside
  | many _ _ first further => exact List.forall_mem_append.2 ⟨first, further⟩
  | @word r span text manner spelled =>
    exact List.forall_mem_singleton.2 ⟨r, List.mem_singleton_self r, .word manner spelled⟩
  | @node r span ts manner inside =>
    exact List.forall_mem_singleton.2 ⟨r, List.mem_singleton_self r, .node manner inside⟩

/-- Where a pattern names rules from a list only, all tokens are of those rules. -/
theorem exists_mem {p : Pattern R} {rs : List R} {ts : List (Token R)} (h : Yields g p ts)
    (only : ∀ r ∈ p.rules, r ∈ rs) : ∀ t ∈ ts, ∃ r ∈ rs, t.IsOf g r := by
  intro t mem
  obtain ⟨r, named, is⟩ := h.exists_rule t mem
  exact ⟨r, only r named, is⟩

/-- Where a pattern names a single rule, all tokens are of that rule. -/
theorem forall_isOf {p : Pattern R} {r : R} {ts : List (Token R)} (h : Yields g p ts)
    (only : ∀ r' ∈ p.rules, r' = r) : ∀ t ∈ ts, t.IsOf g r := by
  intro t mem
  obtain ⟨r', named, is⟩ := h.exists_rule t mem
  exact only r' named ▸ is

end Yields

/-! ## Reading token lists from the left -/

/-- Token lists that begin with tokens of a pattern and go on with a list that has property `P`. The
tokens of a repetition stay together. -/
def Leaves (g : RuleSet R) : Pattern R → (List (Token R) → Prop) → List (Token R) → Prop
  | .text _, P | .char _, P | .stop, P | .unless _, P => P
  | .rule r, P => fun ts => ∃ t us, t.IsOf g r ∧ P us ∧ ts = t :: us
  | .seq a b, P => Leaves g a (Leaves g b P)
  | .alt a b, P => fun ts => Leaves g a P ts ∨ Leaves g b P ts
  | .opt a, P => fun ts => Leaves g a P ts ∨ P ts
  | .many a, P => fun ts => ∃ us vs, Yields g (.many a) us ∧ P vs ∧ ts = us ++ vs

namespace Yields

/-- What a pattern may leave, before what goes on. -/
theorem leaves {p : Pattern R} {ts us : List (Token R)} {P : List (Token R) → Prop}
    (h : Yields g p ts) (rest : P us) : Leaves g p P (ts ++ us) := by
  induction h generalizing P us with
  | text | char | stop | «unless» => exact rest
  | seq _ _ first second =>
    rw [List.append_assoc]
    exact first (second rest)
  | left _ first => exact .inl (first rest)
  | right _ second => exact .inr (second rest)
  | opt _ inside => exact .inl (inside rest)
  | noOpt => exact .inr rest
  | many first further => exact ⟨_, us, .many first further, rest, rfl⟩
  | noMany => exact ⟨[], us, .noMany, rest, rfl⟩
  | word manner spelled => exact ⟨_, us, .word manner spelled, rest, rfl⟩
  | node manner inside => exact ⟨_, us, .node manner inside, rest, rfl⟩

/-- All that a pattern may leave. -/
theorem parts {p : Pattern R} {ts : List (Token R)} (h : Yields g p ts) :
    Leaves g p (· = []) ts :=
  List.append_nil ts ▸ h.leaves (P := (· = [])) rfl

end Yields

/-- The token of one of several rules. -/
theorem Leaves.oneOfRules {P : List (Token R) → Prop} {ts : List (Token R)} {r : R} {rs : List R}
    (h : Leaves g (.oneOf ((r :: rs).map .rule)) P ts) :
    ∃ r' ∈ r :: rs, ∃ t us, t.IsOf g r' ∧ P us ∧ ts = t :: us := by
  induction rs generalizing r with
  | nil => exact ⟨r, List.mem_singleton_self r, h⟩
  | cons r' rs ih =>
    rcases h with first | others
    · exact ⟨r, List.mem_cons_self, first⟩
    · obtain ⟨r'', mem, found⟩ := ih others
      exact ⟨r'', List.mem_cons_of_mem r mem, found⟩

end AbstractScript.Grammar
