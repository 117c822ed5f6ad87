import SurveyBranching.Proofs.Scanning
import Mathlib.Computability.Language
/-!
# The patterns of the words

Each kind of word is a regular language over characters, written as its pattern:

* the ten keywords, one for each clause and each relation;
* `val[0-9]+` and `cnt[0-9]+`;
* `"([^"\\]|\\.)*"`, where `.` is any character but a line feed;
* `-?[0-9]+\.[0-9]+` and `-?[0-9]+`.

A word stands for a token (`Token.Denotes`): a keyword for its own, `val` or `cnt` and digits
for the subject of the number the digits write, when it fits in 32 bits, and a text or a number
for its own characters. A subject whose number is larger is `Token.Oversized`.

The longest word at the start of a text is found kind by kind: each helper of `Token.munch` is
proved to find the longest start of the text that its own pattern holds (`Token.Describes`).

## Main definitions

* `Token.keywordPattern`, `Token.subjectPattern`, `Token.textPattern`, `Token.decimalPattern`,
  `Token.integerPattern`, `Token.wordPattern`: the patterns.
* `Token.LongestIn`, `Token.NoneIn`: the longest start of a text in a language, or none.
* `Token.Describes`: what a result of the longest-word search says about a text.

## Main statements

* `Token.keywordAt_some`, `Token.keywordAt_none`, `Token.subjectAt_describes`,
  `Token.numberAt_describes`, `Token.textSpan_ok`, `Token.textSpan_error`: each kind's search
  finds the longest start in that kind's pattern.
-/

namespace SurveyBranching.Token

open Computability

/-! ## The patterns -/

/-- The one-character words whose character passes `p`: a character class. -/
def charClass (p : Char → Prop) : Language Char := {w | ∃ c, p c ∧ w = [c]}

/-- `[0-9]+`. -/
def digitRun : Language Char := charClass (·.isDigit) * (charClass (·.isDigit))∗

/-- `-?`. -/
def minusSign : Language Char := 1 + {['-']}

/-- The keywords: the word of each clause and of each relation. -/
def keywordPattern : Language Char :=
  {w | (∃ c : Clause, c.word.toList = w) ∨ ∃ r : Relation, r.word.toList = w}

/-- `val[0-9]+` and `cnt[0-9]+`. -/
def subjectPattern : Language Char := ({['v', 'a', 'l']} + {['c', 'n', 't']}) * digitRun

/-- `([^"\\]|\\.)*`: characters other than a quote and a backslash, and pairs of a backslash
and any character but a line feed. -/
def textBody : Language Char :=
  (charClass (fun c => c ≠ '"' ∧ c ≠ '\\') + {['\\']} * charClass (· ≠ '\n'))∗

/-- `"([^"\\]|\\.)*"`. -/
def textPattern : Language Char := {['"']} * textBody * {['"']}

/-- `-?[0-9]+\.[0-9]+`. -/
def decimalPattern : Language Char := minusSign * digitRun * {['.']} * digitRun

/-- `-?[0-9]+`. -/
def integerPattern : Language Char := minusSign * digitRun

/-- The numbers, decimal or integer. -/
def numberPattern : Language Char := decimalPattern + integerPattern

/-- Every word. -/
def wordPattern : Language Char := keywordPattern + subjectPattern + textPattern + numberPattern

/-- The token a word stands for. -/
inductive Denotes : List Char → Token → Prop
  | clause (c : Clause) : Denotes c.word.toList (.clause c)
  | relation (r : Relation) : Denotes r.word.toList (.relation r)
  /-- `val` and digits: the number the digits write, which must fit in 32 bits. -/
  | value {ds : List Char} {n : UInt32} : ds ∈ digitRun → n.toNat = Nat.ofDigitChars 10 ds 0 →
      Denotes (['v', 'a', 'l'] ++ ds) (.subject (.value n))
  | count {ds : List Char} {n : UInt32} : ds ∈ digitRun → n.toNat = Nat.ofDigitChars 10 ds 0 →
      Denotes (['c', 'n', 't'] ++ ds) (.subject (.count n))
  | text {w : List Char} : w ∈ textPattern → Denotes w (.text (String.ofList w))
  | decimal {w : List Char} : w ∈ decimalPattern → Denotes w (.decimal (String.ofList w))
  | integer {w : List Char} : w ∈ integerPattern → Denotes w (.integer (String.ofList w))

/-- `val` or `cnt` and digits that write a number above the largest 32-bit number. -/
def Oversized (w : List Char) : Prop :=
  ∃ k ds, (k = ['v', 'a', 'l'] ∨ k = ['c', 'n', 't']) ∧ ds ∈ digitRun ∧ w = k ++ ds ∧
    4294967295 < Nat.ofDigitChars 10 ds 0

/-- `w` is the longest start of `cs` that `L` holds. -/
def LongestIn (L : Language Char) (w cs : List Char) : Prop :=
  w <+: cs ∧ w ∈ L ∧ ∀ v, v <+: cs → v ∈ L → v.length ≤ w.length

/-- No start of `cs` is in `L`. -/
def NoneIn (L : Language Char) (cs : List Char) : Prop :=
  ∀ v, v <+: cs → v ∉ L

/-- What a result of the longest-word search says about a text `cs`, against the words of `L`:
the word found is the longest start of `cs` in `L`, with its token, or an oversized subject;
an unclosed quote or no result means that no start of `cs` is in `L`. -/
def Describes (L : Language Char) (cs : List Char) : Option Munch → Prop
  | some (.word t n) => LongestIn L (cs.take n) cs ∧ Denotes (cs.take n) t
  | some (.oversized n) => LongestIn L (cs.take n) cs ∧ Oversized (cs.take n)
  | some (.unclosed _) => NoneIn L cs
  | none => NoneIn L cs

/-! ## Membership -/

theorem mem_singleton_iff {u w : List Char} : w ∈ ({u} : Language Char) ↔ w = u := Iff.rfl

theorem append_mem_kstar {l : Language Char} {a b : List Char} (ha : a ∈ l) (hb : b ∈ l∗) :
    a ++ b ∈ l∗ := by
  rw [← Language.one_add_self_mul_kstar_eq_kstar, Language.mem_add]
  exact .inr (Language.append_mem_mul ha hb)

/-- Repeating a character class gives the words of that class's characters. -/
theorem mem_kstar_charClass {p : Char → Prop} {w : List Char} :
    w ∈ (charClass p)∗ ↔ ∀ c ∈ w, p c := by
  constructor
  · rintro ⟨L, rfl, hL⟩ c hc
    obtain ⟨y, hy, hcy⟩ := List.mem_flatten.mp hc
    obtain ⟨d, hd, rfl⟩ := hL y hy
    rwa [List.mem_singleton.mp hcy]
  · intro h
    induction w with
    | nil => exact Language.nil_mem_kstar _
    | cons c w ih =>
      exact append_mem_kstar (a := [c]) ⟨c, h c List.mem_cons_self, rfl⟩
        (ih fun d hd => h d (List.mem_cons_of_mem c hd))

theorem mem_digitRun {w : List Char} : w ∈ digitRun ↔ w ≠ [] ∧ ∀ c ∈ w, c.isDigit := by
  constructor
  · rintro ⟨_, ⟨c, hc, rfl⟩, b, hb, rfl⟩
    refine ⟨List.cons_ne_nil c b, fun d hd => ?_⟩
    rcases List.mem_cons.mp hd with rfl | hd
    · exact hc
    · exact mem_kstar_charClass.mp hb d hd
  · rintro ⟨hne, hdig⟩
    obtain ⟨c, b, rfl⟩ := List.exists_cons_of_ne_nil hne
    exact Language.append_mem_mul (a := [c]) ⟨c, hdig c List.mem_cons_self, rfl⟩
      (mem_kstar_charClass.mpr fun d hd => hdig d (List.mem_cons_of_mem c hd))

theorem mem_minusSign {w : List Char} : w ∈ minusSign ↔ w = [] ∨ w = ['-'] := by
  simp only [minusSign, Language.mem_add, Language.mem_one, mem_singleton_iff]

theorem mem_subjectPattern {w : List Char} :
    w ∈ subjectPattern ↔ ∃ k ds, (k = ['v', 'a', 'l'] ∨ k = ['c', 'n', 't']) ∧ ds ∈ digitRun ∧
      w = k ++ ds := by
  simp only [subjectPattern, Language.mem_mul, Language.mem_add, mem_singleton_iff]
  constructor
  · rintro ⟨k, hk, ds, hds, rfl⟩
    exact ⟨k, ds, hk, hds, rfl⟩
  · rintro ⟨k, ds, hk, hds, rfl⟩
    exact ⟨k, hk, ds, hds, rfl⟩

theorem mem_integerPattern {w : List Char} :
    w ∈ integerPattern ↔ ∃ sg ds, sg ∈ minusSign ∧ ds ∈ digitRun ∧ w = sg ++ ds := by
  simp only [integerPattern, Language.mem_mul]
  constructor
  · rintro ⟨sg, hsg, ds, hds, rfl⟩
    exact ⟨sg, ds, hsg, hds, rfl⟩
  · rintro ⟨sg, ds, hsg, hds, rfl⟩
    exact ⟨sg, hsg, ds, hds, rfl⟩

theorem mem_decimalPattern {w : List Char} :
    w ∈ decimalPattern ↔ ∃ sg whole frac, sg ∈ minusSign ∧ whole ∈ digitRun ∧
      frac ∈ digitRun ∧ w = sg ++ whole ++ '.' :: frac := by
  simp only [decimalPattern, Language.mem_mul, mem_singleton_iff]
  constructor
  · rintro ⟨_, ⟨_, ⟨sg, hsg, whole, hwhole, rfl⟩, _, rfl, rfl⟩, frac, hfrac, rfl⟩
    exact ⟨sg, whole, frac, hsg, hwhole, hfrac, by simp⟩
  · rintro ⟨sg, whole, frac, hsg, hwhole, hfrac, rfl⟩
    exact ⟨_, ⟨_, ⟨sg, hsg, whole, hwhole, rfl⟩, _, rfl, rfl⟩, frac, hfrac, by simp⟩

theorem mem_textPattern {w : List Char} :
    w ∈ textPattern ↔ ∃ body ∈ textBody, w = '"' :: (body ++ ['"']) := by
  simp only [textPattern, Language.mem_mul, mem_singleton_iff]
  constructor
  · rintro ⟨_, ⟨_, rfl, body, hbody, rfl⟩, _, rfl, rfl⟩
    exact ⟨body, hbody, by simp⟩
  · rintro ⟨body, hbody, rfl⟩
    exact ⟨_, ⟨_, rfl, body, hbody, rfl⟩, _, rfl, by simp⟩

/-! ## What each pattern starts with -/

/-- Two words that start the same text start with the same character. -/
theorem head_eq_of_starts {a b : Char} {u v cs : List Char} (hu : a :: u <+: cs)
    (hv : b :: v <+: cs) : a = b := by
  obtain ⟨x, rfl⟩ := hu
  obtain ⟨y, hy⟩ := hv
  simp only [List.cons_append, List.cons.injEq] at hy
  exact hy.1.symm

/-- Two words of two characters or more that start the same text start with the same two. -/
theorem second_eq_of_starts {a a' b b' : Char} {u v cs : List Char} (hu : a :: a' :: u <+: cs)
    (hv : b :: b' :: v <+: cs) : a = b ∧ a' = b' := by
  obtain ⟨x, rfl⟩ := hu
  obtain ⟨y, hy⟩ := hv
  simp only [List.cons_append, List.cons.injEq] at hy
  exact ⟨hy.1.symm, hy.2.1.symm⟩

/-- The keywords in the order the scanner tries them, one for each clause, then one for each
relation. -/
theorem keywords_eq : keywords =
    [Clause.and, Clause.or].map (fun c => (c.word.toList, Token.clause c)) ++
      [Relation.gt, .gte, .lt, .lte, .eq, .neq, .contains, .notContains].map
        (fun r => (r.word.toList, Token.relation r)) := rfl

theorem mem_keywords {w : List Char} {t : Token} (h : (w, t) ∈ keywords) :
    w ∈ keywordPattern ∧ Denotes w t := by
  rw [keywords_eq, List.mem_append, List.mem_map, List.mem_map] at h
  rcases h with ⟨c, -, hc⟩ | ⟨r, -, hr⟩
  · obtain ⟨rfl, rfl⟩ := Prod.mk.inj hc
    exact ⟨.inl ⟨c, rfl⟩, .clause c⟩
  · obtain ⟨rfl, rfl⟩ := Prod.mk.inj hr
    exact ⟨.inr ⟨r, rfl⟩, .relation r⟩

theorem exists_mem_keywords {w : List Char} (h : w ∈ keywordPattern) : ∃ t, (w, t) ∈ keywords := by
  rw [keywords_eq]
  rcases h with ⟨c, rfl⟩ | ⟨r, rfl⟩
  · exact ⟨.clause c, List.mem_append_left _ (List.mem_map.mpr ⟨c, by cases c <;> decide, rfl⟩)⟩
  · exact ⟨.relation r, List.mem_append_right _ (List.mem_map.mpr ⟨r, by cases r <;> decide, rfl⟩)⟩

/-- A keyword starts with two lower-case letters, and neither with `va` nor with `cn`. -/
theorem exists_of_mem_keywordPattern {w : List Char} (h : w ∈ keywordPattern) :
    ∃ a b u, w = a :: b :: u ∧ a.isLower ∧ a ≠ 'v' ∧ (a = 'c' → b ≠ 'n') := by
  rcases h with ⟨c, rfl⟩ | ⟨r, rfl⟩
  · cases c <;> exact ⟨_, _, _, rfl, by decide, by decide, by decide⟩
  · cases r <;> exact ⟨_, _, _, rfl, by decide, by decide, by decide⟩

theorem exists_of_mem_subjectPattern {w : List Char} (h : w ∈ subjectPattern) :
    ∃ u, w = 'v' :: 'a' :: u ∨ w = 'c' :: 'n' :: u := by
  obtain ⟨k, ds, hk | hk, -, rfl⟩ := mem_subjectPattern.mp h <;> subst hk
  · exact ⟨'l' :: ds, .inl rfl⟩
  · exact ⟨'t' :: ds, .inr rfl⟩

theorem exists_of_mem_textPattern {w : List Char} (h : w ∈ textPattern) : ∃ u, w = '"' :: u := by
  obtain ⟨body, -, rfl⟩ := mem_textPattern.mp h
  exact ⟨_, rfl⟩

/-- A number starts with a minus or a digit. -/
theorem exists_of_mem_numberPattern {w : List Char} (h : w ∈ numberPattern) :
    ∃ c u, w = c :: u ∧ (c = '-' ∨ c.isDigit) := by
  have hsign : ∀ sg ds x, sg ∈ minusSign → ds ∈ digitRun →
      ∃ c u, sg ++ ds ++ x = c :: u ∧ (c = '-' ∨ c.isDigit) := by
    intro sg ds x hsg hds
    obtain ⟨hne, hdig⟩ := mem_digitRun.mp hds
    obtain ⟨d, ds, rfl⟩ := List.exists_cons_of_ne_nil hne
    rcases mem_minusSign.mp hsg with rfl | rfl
    · exact ⟨d, ds ++ x, rfl, .inr (hdig d List.mem_cons_self)⟩
    · exact ⟨'-', d :: ds ++ x, rfl, .inl rfl⟩
  rcases h with h | h
  · obtain ⟨sg, whole, frac, hsg, hwhole, -, rfl⟩ := mem_decimalPattern.mp h
    exact hsign sg whole ('.' :: frac) hsg hwhole
  · obtain ⟨sg, ds, hsg, hds, rfl⟩ := mem_integerPattern.mp h
    simpa using hsign sg ds [] hsg hds

/-- No word is empty. -/
theorem ne_nil_of_mem_wordPattern {w : List Char} (h : w ∈ wordPattern) : w ≠ [] := by
  rcases h with ((h | h) | h) | h
  · obtain ⟨a, b, u, rfl, -⟩ := exists_of_mem_keywordPattern h
    exact List.cons_ne_nil _ _
  · obtain ⟨u, rfl | rfl⟩ := exists_of_mem_subjectPattern h <;> exact List.cons_ne_nil _ _
  · obtain ⟨u, rfl⟩ := exists_of_mem_textPattern h
    exact List.cons_ne_nil _ _
  · obtain ⟨c, u, rfl, -⟩ := exists_of_mem_numberPattern h
    exact List.cons_ne_nil _ _

@[simp] theorem describes_word {L : Language Char} {cs : List Char} {t : Token} {n : Nat} :
    Describes L cs (some (.word t n)) ↔ LongestIn L (cs.take n) cs ∧ Denotes (cs.take n) t :=
  Iff.rfl

@[simp] theorem describes_oversized {L : Language Char} {cs : List Char} {n : Nat} :
    Describes L cs (some (.oversized n)) ↔ LongestIn L (cs.take n) cs ∧ Oversized (cs.take n) :=
  Iff.rfl

@[simp] theorem describes_unclosed {L : Language Char} {cs : List Char} {n : Nat} :
    Describes L cs (some (.unclosed n)) ↔ NoneIn L cs := Iff.rfl

@[simp] theorem describes_none {L : Language Char} {cs : List Char} :
    Describes L cs none ↔ NoneIn L cs := Iff.rfl

/-! ## Keywords -/

/-- What the keyword search knows after trying the keywords `seen`: nothing when none of them
starts `cs`, else the longest of them that does, with its token. -/
def BestKeyword (cs : List Char) (seen : List (List Char × Token)) : Option (Token × Nat) → Prop
  | none => ∀ p ∈ seen, ¬ p.1 <+: cs
  | some (t, n) => (cs.take n, t) ∈ seen ∧ n ≤ cs.length ∧ ∀ p ∈ seen, p.1 <+: cs → p.1.length ≤ n

/-- Taking a keyword that starts the text, longer than the best so far, keeps the longest. -/
theorem bestKeyword_take {cs w : List Char} {t : Token} {seen : List (List Char × Token)}
    (hw : w <+: cs) (hmax : ∀ p ∈ seen, p.1 <+: cs → p.1.length ≤ w.length) :
    BestKeyword cs (seen ++ [(w, t)]) (some (t, w.length)) := by
  refine ⟨?_, hw.length_le, fun p hp hpc => ?_⟩
  · rw [← List.prefix_iff_eq_take.mp hw]
    exact List.mem_append_right _ (List.mem_singleton_self _)
  · rcases List.mem_append.mp hp with hp | hp
    · exact hmax p hp hpc
    · rw [List.mem_singleton.mp hp]

/-- Keeping the best so far is right when the new keyword does not start the text or is no
longer than the best. -/
theorem bestKeyword_keep {cs w : List Char} {t : Token} {seen : List (List Char × Token)}
    {best : Option (Token × Nat)} (h : BestKeyword cs seen best)
    (hshort : w <+: cs → ∃ b ∈ best, w.length ≤ b.2) :
    BestKeyword cs (seen ++ [(w, t)]) best := by
  cases best with
  | none =>
    intro p hp hpc
    rcases List.mem_append.mp hp with hp | hp
    · exact h p hp hpc
    · rw [List.mem_singleton.mp hp] at hpc
      obtain ⟨b, hb, -⟩ := hshort hpc
      cases hb
  | some b =>
    obtain ⟨hmem, hle, hmax⟩ := h
    refine ⟨List.mem_append_left _ hmem, hle, fun p hp hpc => ?_⟩
    rcases List.mem_append.mp hp with hp | hp
    · exact hmax p hp hpc
    · rw [List.mem_singleton.mp hp] at hpc ⊢
      obtain ⟨b', hb', hwb⟩ := hshort hpc
      obtain rfl := Option.mem_some_iff.mp hb'
      exact hwb

/-- Trying one more keyword keeps the longest that starts the text. -/
theorem bestKeyword_step {cs : List Char} {seen : List (List Char × Token)}
    {best : Option (Token × Nat)} (w : List Char) (t : Token) (h : BestKeyword cs seen best) :
    BestKeyword cs (seen ++ [(w, t)])
      (if w.isPrefixOf cs && best.all (·.2 < w.length) then some (t, w.length) else best) := by
  by_cases hw : w <+: cs
  · rw [List.isPrefixOf_iff_prefix.mpr hw, Bool.true_and]
    cases best with
    | none => exact bestKeyword_take hw fun p hp hpc => absurd hpc (h p hp)
    | some b =>
      by_cases hlt : b.2 < w.length
      · simp only [Option.all_some, hlt, decide_true, if_true]
        exact bestKeyword_take hw fun p hp hpc => (h.2.2 p hp hpc).trans hlt.le
      · simp only [Option.all_some, hlt, decide_false, Bool.false_eq_true, if_false]
        exact bestKeyword_keep h fun _ => ⟨b, rfl, Nat.le_of_not_lt hlt⟩
  · rw [Bool.eq_false_iff.mpr fun h => hw (List.isPrefixOf_iff_prefix.mp h), Bool.false_and]
    exact bestKeyword_keep h fun h => absurd h hw

/-- The search over a list of keywords keeps the longest that starts the text. -/
theorem bestKeyword_foldl (cs : List Char)
    {f : Option (Token × Nat) → List Char × Token → Option (Token × Nat)}
    (hf : ∀ best w t, f best (w, t) =
      if w.isPrefixOf cs && best.all (·.2 < w.length) then some (t, w.length) else best) :
    ∀ (L seen : List (List Char × Token)) (best : Option (Token × Nat)),
      BestKeyword cs seen best → BestKeyword cs (seen ++ L) (L.foldl f best) := by
  intro L
  induction L with
  | nil => intro seen best h; simpa using h
  | cons p L ih =>
    intro seen best h
    obtain ⟨w, t⟩ := p
    rw [List.foldl_cons, show seen ++ (w, t) :: L = seen ++ [(w, t)] ++ L by simp, hf]
    exact ih _ _ (bestKeyword_step w t h)

theorem bestKeyword_keywordAt (cs : List Char) : BestKeyword cs keywords (keywordAt cs) := by
  unfold keywordAt
  exact bestKeyword_foldl cs (fun _ _ _ => rfl) keywords [] none
    fun _ h => absurd h List.not_mem_nil

/-- A keyword found is the longest keyword that starts the text. -/
theorem keywordAt_some {cs : List Char} {t : Token} {n : Nat} (h : keywordAt cs = some (t, n)) :
    Describes keywordPattern cs (some (.word t n)) := by
  have hbest := bestKeyword_keywordAt cs
  rw [h] at hbest
  obtain ⟨hmem, hle, hmax⟩ := hbest
  obtain ⟨hkw, hden⟩ := mem_keywords hmem
  refine ⟨⟨List.take_prefix n cs, hkw, fun v hv hvk => ?_⟩, hden⟩
  obtain ⟨t', ht'⟩ := exists_mem_keywords hvk
  rw [List.length_take_of_le hle]
  exact hmax _ ht' hv

/-- No keyword found: no keyword starts the text. -/
theorem keywordAt_none {cs : List Char} (h : keywordAt cs = none) : NoneIn keywordPattern cs := by
  have hbest := bestKeyword_keywordAt cs
  rw [h] at hbest
  intro v hv hvk
  obtain ⟨t, ht⟩ := exists_mem_keywords hvk
  exact hbest _ ht hv

/-! ## Quoted texts -/

/-- The pieces of a quoted text's body: a character other than a quote or a backslash, or a
backslash and a character other than a line feed. -/
theorem mem_textPiece {y : List Char} :
    y ∈ charClass (fun c => c ≠ '"' ∧ c ≠ '\\') + {['\\']} * charClass (· ≠ '\n') ↔
      (∃ c, c ≠ '"' ∧ c ≠ '\\' ∧ y = [c]) ∨ ∃ d, d ≠ '\n' ∧ y = ['\\', d] := by
  rw [Language.mem_add, Language.mem_mul]
  constructor
  · rintro (⟨c, ⟨hq, hb⟩, rfl⟩ | ⟨_, rfl, _, ⟨d, hd, rfl⟩, rfl⟩)
    · exact .inl ⟨c, hq, hb, rfl⟩
    · exact .inr ⟨d, hd, rfl⟩
  · rintro (⟨c, hq, hb, rfl⟩ | ⟨d, hd, rfl⟩)
    · exact .inl ⟨c, ⟨hq, hb⟩, rfl⟩
    · exact .inr ⟨['\\'], rfl, [d], ⟨d, hd, rfl⟩, rfl⟩

theorem plain_cons_mem_textBody {c : Char} {body : List Char} (hq : c ≠ '"') (hb : c ≠ '\\')
    (h : body ∈ textBody) : c :: body ∈ textBody :=
  append_mem_kstar (a := [c]) (mem_textPiece.mpr (.inl ⟨c, hq, hb, rfl⟩)) h

theorem escape_cons_mem_textBody {d : Char} {body : List Char} (hd : d ≠ '\n')
    (h : body ∈ textBody) : '\\' :: d :: body ∈ textBody :=
  append_mem_kstar (a := ['\\', d]) (mem_textPiece.mpr (.inr ⟨d, hd, rfl⟩)) h

/-- A body of the pattern followed by a quote closes the text there. -/
theorem textSpan_body {body : List Char} (h : body ∈ textBody) (rest : List Char) (k : Nat) :
    textSpan (body ++ '"' :: rest) k = .ok (k + body.length + 1) := by
  obtain ⟨L, rfl, hL⟩ := h
  -- one piece of the body at a time
  induction L generalizing k with
  | nil => simp [textSpan]
  | cons y L ih =>
    have hrest := fun k => ih k (fun z hz => hL z (List.mem_cons_of_mem y hz))
    rw [List.flatten_cons, List.append_assoc, List.length_append]
    rcases mem_textPiece.mp (hL y List.mem_cons_self) with ⟨c, hq, hb, rfl⟩ | ⟨d, hd, rfl⟩
    · rw [List.singleton_append,
        textSpan.eq_5 _ _ _ hq (fun _ _ h _ => hb h) (fun h _ => hb h), hrest]
      congr 1
      simp only [List.length_singleton]
      omega
    · rw [List.cons_append, List.singleton_append, textSpan.eq_3, if_neg (by simpa using hd),
        hrest]
      congr 1
      simp only [List.length_cons, List.length_nil]
      omega

/-- Where the scan of a quoted text closes, a body of the pattern and a quote start the text. -/
theorem textSpan_eq_ok {cs : List Char} {k m : Nat} (h : textSpan cs k = .ok m) :
    ∃ body ∈ textBody, ∃ rest, cs = body ++ '"' :: rest ∧ m = k + body.length + 1 := by
  fun_induction textSpan cs k with
  | case1 => cases h
  | case2 tail n =>
    cases h
    exact ⟨[], Language.nil_mem_kstar _, tail, rfl, rfl⟩
  | case3 => cases h
  | case4 c rest n hc ih =>
    obtain ⟨body, hbody, x, rfl, rfl⟩ := ih h
    refine ⟨'\\' :: c :: body, escape_cons_mem_textBody (fun h' => hc (beq_iff_eq.mpr h')) hbody,
      x, rfl, ?_⟩
    simp only [List.length_cons]
    omega
  | case5 => cases h
  | case6 c rest n hq hesc hend ih =>
    have hb : c ≠ '\\' := fun hc => by
      cases rest with
      | nil => exact hend hc rfl
      | cons d r => exact hesc d r hc rfl
    obtain ⟨body, hbody, x, rfl, rfl⟩ := ih h
    refine ⟨c :: body, plain_cons_mem_textBody hq hb hbody, x, rfl, ?_⟩
    simp only [List.length_cons]
    omega

/-- A quoted text that starts a text after its opening quote is where the scan closes it. -/
theorem textSpan_of_starts {rest v : List Char} (hv : v <+: '"' :: rest) (hmem : v ∈ textPattern) :
    textSpan rest 1 = .ok v.length := by
  obtain ⟨body, hbody, rfl⟩ := mem_textPattern.mp hmem
  obtain ⟨x, hx⟩ := hv
  have hrest : rest = body ++ '"' :: x := by simpa using hx.symm
  rw [hrest, textSpan_body hbody]
  simp only [List.length_cons, List.length_append, List.length_nil]
  congr 1
  omega

/-- A quote that the scan closes starts the one quoted text of the text. -/
theorem textSpan_ok {rest : List Char} {n : Nat} (h : textSpan rest 1 = .ok n) :
    Describes textPattern ('"' :: rest)
      (some (.word (.text (String.ofList (('"' :: rest).take n))) n)) := by
  obtain ⟨body, hbody, x, rfl, rfl⟩ := textSpan_eq_ok h
  have htake : ('"' :: (body ++ '"' :: x)).take (1 + body.length + 1) =
      '"' :: (body ++ ['"']) := by
    rw [show 1 + body.length + 1 = (body.length + 1) + 1 by omega, List.take_succ_cons,
      List.take_length_add_append]
    rfl
  have hmem : '"' :: (body ++ ['"']) ∈ textPattern := mem_textPattern.mpr ⟨body, hbody, rfl⟩
  rw [describes_word, htake]
  refine ⟨⟨⟨x, by simp⟩, hmem, fun v hv hvt => ?_⟩, .text hmem⟩
  have hspan := textSpan_of_starts hv hvt
  rw [textSpan_body hbody] at hspan
  simp only [Except.ok.injEq] at hspan
  simp only [List.length_cons, List.length_append, List.length_nil]
  omega

/-- A quote that the scan does not close starts no quoted text. -/
theorem textSpan_error {rest : List Char} {n : Nat} (h : textSpan rest 1 = .error n) :
    NoneIn textPattern ('"' :: rest) := fun v hv hvt => by
  rw [textSpan_of_starts hv hvt] at h
  cases h

/-! ## Runs of digits -/

/-- A run of digits that starts a text is no longer than the text's leading digits, which are
therefore some. -/
theorem digitRun_le_takeWhile {d rest : List Char} (hd : d ∈ digitRun) (h : d <+: rest) :
    rest.takeWhile Char.isDigit ≠ [] ∧ d.length ≤ (rest.takeWhile Char.isDigit).length := by
  obtain ⟨hne, hdig⟩ := mem_digitRun.mp hd
  obtain ⟨x, rfl⟩ := h
  rw [List.takeWhile_append_of_pos hdig]
  refine ⟨fun h => hne (List.append_eq_nil_iff.mp h).1, ?_⟩
  rw [List.length_append]
  omega

/-- The leading digits of a text, when there are some, are a run of digits. -/
theorem takeWhile_mem_digitRun {rest : List Char} (h : rest.takeWhile Char.isDigit ≠ []) :
    rest.takeWhile Char.isDigit ∈ digitRun :=
  mem_digitRun.mpr ⟨h, List.all_eq_true.mp List.all_takeWhile⟩

theorem take_length_takeWhile (p : Char → Bool) (rest : List Char) :
    rest.take (rest.takeWhile p).length = rest.takeWhile p :=
  (List.prefix_iff_eq_take.mp (List.takeWhile_prefix p)).symm

/-- The scanner's value of digits is the number they write in decimal. -/
theorem digitsValue_eq_ofDigitChars (ds : List Char) :
    digitsValue ds = Nat.ofDigitChars 10 ds 0 := by
  rw [digitsValue, Nat.ofDigitChars]
  exact List.foldl_ext _ _ _ fun a b _ => by rw [Nat.mul_comm]

/-! ## Subjects -/

/-- A subject that starts a text that opens with `val` (or `cnt`) is `val` (or `cnt`) and digits
that start the rest. -/
theorem subject_starts {k rest v : List Char} (hk : k = ['v', 'a', 'l'] ∨ k = ['c', 'n', 't'])
    (hv : v <+: k ++ rest) (hmem : v ∈ subjectPattern) :
    ∃ d, v = k ++ d ∧ d ∈ digitRun ∧ d <+: rest := by
  obtain ⟨k', d, hk', hd, rfl⟩ := mem_subjectPattern.mp hmem
  obtain ⟨x, hx⟩ := hv
  have hlen : k'.length = k.length := by
    rcases hk with rfl | rfl <;> rcases hk' with rfl | rfl <;> rfl
  obtain ⟨rfl, hrest⟩ := List.append_inj (by rw [← hx, List.append_assoc]) hlen
  exact ⟨d, rfl, hd, x, hrest⟩

/-- After `val` or `cnt`, the subject found is the word and all the digits that follow, when
there are some: a word if their number fits in 32 bits, else an oversized subject. -/
theorem subject_describes {k : List Char} (hk : k = ['v', 'a', 'l'] ∨ k = ['c', 'n', 't'])
    (mk : UInt32 → Subject)
    (hmk : ∀ {ds : List Char} {n : UInt32}, ds ∈ digitRun → n.toNat = Nat.ofDigitChars 10 ds 0 →
      Denotes (k ++ ds) (.subject (mk n)))
    (rest : List Char) :
    Describes subjectPattern (k ++ rest)
      (if (rest.takeWhile Char.isDigit).isEmpty then none
      else if digitsValue (rest.takeWhile Char.isDigit) < 4294967296 then
        some (.word (.subject (mk (UInt32.ofNat (digitsValue (rest.takeWhile Char.isDigit)))))
          (3 + (rest.takeWhile Char.isDigit).length))
      else some (.oversized (3 + (rest.takeWhile Char.isDigit).length))) := by
  have hk3 : k.length = 3 := by rcases hk with rfl | rfl <;> rfl
  have htake : (k ++ rest).take (3 + (rest.takeWhile Char.isDigit).length) =
      k ++ rest.takeWhile Char.isDigit := by
    rw [← hk3, List.take_length_add_append, take_length_takeWhile]
  -- every subject that starts the text is at most the word and all the digits
  have hmax : ∀ v, v <+: k ++ rest → v ∈ subjectPattern →
      v.length ≤ (k ++ rest.takeWhile Char.isDigit).length := fun v hv hmem => by
    obtain ⟨d, rfl, hd, hdr⟩ := subject_starts hk hv hmem
    have := (digitRun_le_takeWhile hd hdr).2
    simp only [List.length_append]
    omega
  generalize hds : rest.takeWhile Char.isDigit = ds at htake hmax
  have hpre : k ++ ds <+: k ++ rest := by
    rw [← hds]; exact (List.prefix_append_right_inj k).mpr (List.takeWhile_prefix _)
  by_cases hnil : ds = []
  · subst hnil
    simp only [List.isEmpty_nil, if_true, describes_none]
    intro v hv hmem
    obtain ⟨d, -, hd, hdr⟩ := subject_starts hk hv hmem
    exact (digitRun_le_takeWhile hd hdr).1 hds
  · have hrun : ds ∈ digitRun := hds ▸ takeWhile_mem_digitRun (hds ▸ hnil)
    have hsub : k ++ ds ∈ subjectPattern := mem_subjectPattern.mpr ⟨k, ds, hk, hrun, rfl⟩
    have hlongest : LongestIn subjectPattern (k ++ ds) (k ++ rest) := ⟨hpre, hsub, hmax⟩
    rw [if_neg (by simpa using hnil)]
    split_ifs with hfit
    · rw [describes_word, htake]
      refine ⟨hlongest, hmk hrun ?_⟩
      rw [UInt32.toNat_ofNat_of_lt' hfit, digitsValue_eq_ofDigitChars]
    · rw [describes_oversized, htake]
      refine ⟨hlongest, k, ds, hk, hrun, rfl, ?_⟩
      rw [← digitsValue_eq_ofDigitChars]
      omega

/-- The subject found at the start of a text is the longest. -/
theorem subjectAt_describes (cs : List Char) : Describes subjectPattern cs (subjectAt cs) := by
  unfold subjectAt
  split
  · exact subject_describes (.inl rfl) .value (fun hds hn => .value hds hn) _
  · exact subject_describes (.inr rfl) .count (fun hds hn => .count hds hn) _
  · next hval hcnt =>
    intro v hv hmem
    obtain ⟨k, ds, hk | hk, -, rfl⟩ := mem_subjectPattern.mp hmem <;> subst hk <;>
      obtain ⟨x, rfl⟩ := hv
    · exact hval (ds ++ x) (by simp)
    · exact hcnt (ds ++ x) (by simp)

/-! ## Numbers

The number scan takes one character for a leading minus (`S`), then the digits that follow
(`D`), then a point and more digits if there are some. -/

section Numbers

variable {cs D : List Char} {S : Nat}
  (hS : (if (cs.head? == some '-') = true then 1 else 0) = S)
  (hD : (cs.drop S).takeWhile Char.isDigit = D)
include hS

theorem take_sign_mem : cs.take S ∈ minusSign := by
  subst hS
  rw [mem_minusSign]
  cases cs with
  | nil => exact .inl (by simp)
  | cons c t =>
    by_cases hc : c = '-'
    · subst hc
      exact .inr (by simp)
    · exact .inl (by simp [hc])

theorem length_take_sign : (cs.take S).length = S := by
  subst hS
  cases cs with
  | nil => simp
  | cons c t => by_cases hc : c = '-' <;> simp [hc]

/-- A sign and digits that start the text: the sign is the one the scan takes. -/
theorem sign_starts {sg d x : List Char} (hsg : sg ∈ minusSign) (hd : d ∈ digitRun)
    (hcs : cs = sg ++ d ++ x) :
    sg.length = S ∧ cs.drop S = d ++ x := by
  obtain ⟨hne, hdig⟩ := mem_digitRun.mp hd
  have hlen : (if (sg ++ d ++ x).head? == some '-' then 1 else 0) = sg.length :=
    sign_eq_length (mem_minusSign.mp hsg) hne hdig
  rw [← hcs, hS] at hlen
  subst hlen
  exact ⟨rfl, by rw [hcs, List.append_assoc, List.drop_left]⟩

include hD

/-- An integer that starts the text is no longer than the sign and all the leading digits. -/
theorem integer_starts {v : List Char} (hv : v <+: cs) (hmem : v ∈ integerPattern) :
    D ≠ [] ∧ v.length ≤ S + D.length := by
  obtain ⟨sg, d, hsg, hd, rfl⟩ := mem_integerPattern.mp hmem
  obtain ⟨x, hx⟩ := hv
  obtain ⟨hlen, hdrop⟩ := sign_starts hS hsg hd hx.symm
  obtain ⟨hne, hle⟩ := digitRun_le_takeWhile hd ⟨x, hdrop.symm⟩
  rw [hD] at hne hle
  refine ⟨hne, ?_⟩
  rw [List.length_append]
  omega

/-- A decimal that starts the text is the sign and all the leading digits, a point and at most
all the digits after it. -/
theorem decimal_starts {v : List Char} (hv : v <+: cs) (hmem : v ∈ decimalPattern) :
    D ≠ [] ∧ ∃ after, (cs.drop S).drop D.length = '.' :: after ∧
      after.takeWhile Char.isDigit ≠ [] ∧
      v.length ≤ S + D.length + 1 + (after.takeWhile Char.isDigit).length := by
  obtain ⟨sg, whole, frac, hsg, hwhole, hfrac, rfl⟩ := mem_decimalPattern.mp hmem
  obtain ⟨x, hx⟩ := hv
  have hcs : cs = sg ++ whole ++ ('.' :: (frac ++ x)) := by rw [← hx]; simp
  obtain ⟨hlen, hdrop⟩ := sign_starts hS hsg hwhole hcs
  -- the leading digits stop at the point
  obtain rfl : D = whole := by
    rw [← hD, hdrop]
    exact takeWhile_isDigit (mem_digitRun.mp hwhole).2 (by simp)
  obtain ⟨hFne, hfle⟩ := digitRun_le_takeWhile hfrac (List.prefix_append frac x)
  refine ⟨(mem_digitRun.mp hwhole).1, frac ++ x, by rw [hdrop, List.drop_left], hFne, ?_⟩
  simp only [List.length_append, List.length_cons]
  omega

/-- The sign and all the leading digits, when no decimal starts the text, are the longest
number. -/
theorem integer_describes (hne : D ≠ []) (hdec : ∀ v, v <+: cs → v ∉ decimalPattern) :
    Describes numberPattern cs
      (some (.word (.integer (String.ofList (cs.take (S + D.length)))) (S + D.length))) := by
  have htake : cs.take (S + D.length) = cs.take S ++ D := by
    rw [List.take_add, ← hD, take_length_takeWhile]
  have hrun : D ∈ digitRun := hD ▸ takeWhile_mem_digitRun (by rwa [hD])
  have hmem : cs.take S ++ D ∈ integerPattern :=
    mem_integerPattern.mpr ⟨_, _, take_sign_mem hS, hrun, rfl⟩
  rw [describes_word, htake]
  refine ⟨⟨htake ▸ List.take_prefix _ cs, .inr hmem, fun v hv hvn => ?_⟩, .integer hmem⟩
  rcases hvn with hvd | hvi
  · exact absurd hvd (hdec v hv)
  · rw [List.length_append, length_take_sign hS]
    exact (integer_starts hS hD hv hvi).2

/-- The sign, all the leading digits, a point and all the digits after it are the longest
number. -/
theorem decimal_describes (hne : D ≠ []) {after : List Char}
    (hafter : (cs.drop S).drop D.length = '.' :: after)
    (hF : after.takeWhile Char.isDigit ≠ []) :
    Describes numberPattern cs
      (some (.word (.decimal (String.ofList
        (cs.take (S + D.length + 1 + (after.takeWhile Char.isDigit).length))))
        (S + D.length + 1 + (after.takeWhile Char.isDigit).length))) := by
  have hR : cs.drop S = D ++ '.' :: after := by
    rw [← List.take_append_drop D.length (cs.drop S), hafter, ← hD, take_length_takeWhile]
  have htake : cs.take (S + D.length + 1 + (after.takeWhile Char.isDigit).length) =
      cs.take S ++ (D ++ '.' :: after.takeWhile Char.isDigit) := by
    rw [show S + D.length + 1 + (after.takeWhile Char.isDigit).length =
        S + (D.length + ((after.takeWhile Char.isDigit).length + 1)) by omega,
      List.take_add, hR, List.take_length_add_append, List.take_succ_cons,
      take_length_takeWhile]
  have hrun : D ∈ digitRun := hD ▸ takeWhile_mem_digitRun (by rwa [hD])
  have hmem : cs.take S ++ (D ++ '.' :: after.takeWhile Char.isDigit) ∈ decimalPattern :=
    mem_decimalPattern.mpr ⟨_, D, _, take_sign_mem hS, hrun, takeWhile_mem_digitRun hF,
      by simp⟩
  rw [describes_word, htake]
  refine ⟨⟨htake ▸ List.take_prefix _ cs, .inl hmem, fun v hv hvn => ?_⟩, .decimal hmem⟩
  simp only [List.length_append, List.length_cons, length_take_sign hS]
  rcases hvn with hvd | hvi
  · obtain ⟨-, after', hafter', -, hle⟩ := decimal_starts hS hD hv hvd
    rw [hafter, List.cons.injEq] at hafter'
    rw [← hafter'.2] at hle
    omega
  · have := (integer_starts hS hD hv hvi).2
    omega

end Numbers

/-- The number found at the start of a text is the longest. -/
theorem numberAt_describes (cs : List Char) : Describes numberPattern cs (numberAt cs) := by
  unfold numberAt
  dsimp only
  generalize hS : (if (cs.head? == some '-') = true then 1 else 0) = S
  generalize hD : (cs.drop S).takeWhile Char.isDigit = D
  split_ifs with h0
  · -- no digit after the sign: no number
    have hD0 : D = [] := List.eq_nil_of_length_eq_zero h0
    intro v hv hmem
    rcases hmem with hmem | hmem
    · exact (decimal_starts hS hD hv hmem).1 hD0
    · exact (integer_starts hS hD hv hmem).1 hD0
  · have hne : D ≠ [] := fun h => h0 (by rw [h]; rfl)
    split
    · next after hafter =>
      split_ifs with hF0
      · -- a point and no digit: the integer before it
        refine integer_describes hS hD hne fun v hv hvd => ?_
        obtain ⟨-, after', hafter', hF, -⟩ := decimal_starts hS hD hv hvd
        rw [hafter, List.cons.injEq] at hafter'
        rw [← hafter'.2] at hF
        exact hF (List.eq_nil_of_length_eq_zero hF0)
      · exact decimal_describes hS hD hne hafter fun h => hF0 (by rw [h]; rfl)
    · next hnot =>
      -- no point after the digits: no decimal
      refine integer_describes hS hD hne fun v hv hvd => ?_
      obtain ⟨-, after', hafter', -, -⟩ := decimal_starts hS hD hv hvd
      exact hnot after' hafter'

end SurveyBranching.Token
