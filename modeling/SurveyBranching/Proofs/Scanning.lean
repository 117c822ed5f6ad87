import SurveyBranching.Expr.Parser
import SurveyBranching.Text.Blank
import Mathlib.Data.List.Basic
/-!
# Scanning the text of a tree

The text of a tree is its words with single blanks between them. Scanning it gives back those
words, one for each: each word is the longest at its place and ends where a blank or the text
does. This holds for every tree whose decimals are written as decimals (`Expr.Readable`); the
texts of quoted literals may hold anything, since quoting escapes the quote and the backslash.

The argument is made word by word (`Token.Munches`): a keyword is not the start of a longer
keyword once a blank follows it, a subject's and a number's digits stop at the blank, and a
quoted text ends at its closing quote. A blank text, on the other hand, has no word at all.

## Main definitions

* `Literal.token`, `Expr.tokens`: the words of a tree's text.
* `Literal.Readable`, `Expr.Readable`: decimals written as an optional minus, digits, a point
  and digits.
* `Token.Munches`: a text read as one word wherever a blank or the end follows it.

## Main statements

* `Expr.scan_render`: the text of a readable tree scans to the tree's words.
* `Token.scanFrom_of_isBlank`: a blank text scans to no word.
-/

namespace SurveyBranching

/-- The word a literal is read as. -/
def Literal.token : Literal → Token
  | .text s => .text (Text.quote s)
  | .integer n => .integer (toString n.toInt)
  | .decimal l => .decimal l

/-- A literal whose text reads back as itself: a decimal must be written as an optional minus,
digits, a point and digits. -/
def Literal.Readable : Literal → Prop
  | .decimal l => ∃ sign whole frac, l.toList = sign ++ whole ++ '.' :: frac ∧
      (sign = [] ∨ sign = ['-']) ∧ whole ≠ [] ∧ frac ≠ [] ∧ ∀ c ∈ whole ++ frac, c.isDigit
  | _ => True

namespace Expr

/-- Every literal of the tree is readable. -/
def Readable : Expr → Prop
  | .test _ _ v => v.Readable
  | .logical _ l r => l.Readable ∧ r.Readable

/-- The words of a tree's text, in order. -/
def tokens : Expr → List Token
  | .test r s v => [.relation r, .subject s, v.token]
  | .logical c l r => .clause c :: l.tokens ++ r.tokens

end Expr

namespace Token

/-! ## Character classes -/

theorem isLower_of_isDigit {c : Char} (h : c.isDigit = true) : c.isLower = false := by
  simp only [Char.isDigit, Bool.and_eq_true, decide_eq_true_eq, UInt32.le_iff_toNat_le] at h
  show (decide (c.val ≥ 'a'.val) && decide (c.val ≤ 'z'.val)) = false
  simp only [Bool.and_eq_false_iff, decide_eq_false_iff_not, UInt32.le_iff_toNat_le]
  have : ('9' : Char).val.toNat = 57 := rfl
  have : ('a' : Char).val.toNat = 97 := rfl
  omega

theorem isGap_of_isDigit {c : Char} (h : c.isDigit = true) : isGap c = false := by
  cases hg : isGap c
  · rfl
  · simp only [isGap, Bool.or_eq_true, beq_iff_eq] at hg
    rcases hg with ((rfl | rfl) | rfl) | rfl <;> simp at h

theorem takeWhile_isDigit {ds rest : List Char} (hds : ∀ c ∈ ds, c.isDigit)
    (hrest : ∀ c ∈ rest.head?, c.isDigit = false) : (ds ++ rest).takeWhile Char.isDigit = ds := by
  rw [List.takeWhile_append_of_pos hds]
  cases rest with
  | nil => simp
  | cons c rest => simp [hrest c rfl]

theorem isDigit_of_blank {rest : List Char} (hrest : ∀ c ∈ rest.head?, c = ' ') :
    ∀ c ∈ rest.head?, c.isDigit = false := fun c hc => by rw [hrest c hc]; rfl

theorem isDigit_of_mem_toDigits {n : Nat} {c : Char} (h : c ∈ Nat.toDigits 10 n) : c.isDigit :=
  Nat.isDigit_of_mem_toDigits (by decide) (by decide) h

theorem digitsValue_toDigits (n : Nat) : digitsValue (Nat.toDigits 10 n) = n := by
  rw [digitsValue, List.foldl_ext _ (fun sofar c => 10 * sofar + (c.toNat - '0'.toNat)) _
    fun a b _ => by rw [Nat.mul_comm]]
  exact Nat.ofDigitChars_ten_toDigits

/-! ## Keywords -/

/-- A keyword is a prefix of a text exactly when it is one of a shorter text that the text
extends, unless that shorter text is a proper prefix of the keyword. -/
theorem isPrefixOf_append (w u rest : List Char)
    (h : u.isPrefixOf w = false ∨ w.length ≤ u.length) :
    w.isPrefixOf (u ++ rest) = w.isPrefixOf u := by
  induction u generalizing w with
  | nil =>
    cases w with
    | nil => rfl
    | cons a w => simp at h
  | cons x u ih =>
    cases w with
    | nil => rfl
    | cons a w =>
      simp only [List.cons_append, List.isPrefixOf_cons_cons]
      by_cases hax : a = x
      · subst hax
        rw [ih w (by simpa [List.isPrefixOf_cons_cons] using h)]
      · simp only [beq_eq_false_iff_ne.mpr hax, Bool.false_and]

/-- The keyword found at the start of a text depends only on which keywords start it. -/
theorem keywordAt_congr {cs cs' : List Char}
    (h : ∀ p ∈ keywords, p.1.isPrefixOf cs = p.1.isPrefixOf cs') :
    keywordAt cs = keywordAt cs' := by
  unfold keywordAt
  refine List.foldl_ext _ _ _ fun best p hp => ?_
  obtain ⟨w, t⟩ := p
  simp only [h _ hp]

/-- What follows a text that no keyword properly extends does not change the keyword found. -/
theorem keywordAt_append (u rest : List Char)
    (h : ∀ p ∈ keywords, u.isPrefixOf p.1 = false ∨ p.1.length ≤ u.length) :
    keywordAt (u ++ rest) = keywordAt u :=
  keywordAt_congr fun p hp => isPrefixOf_append p.1 u rest (h p hp)

/-- Keywords are written in lower-case letters, so no keyword starts at any other character. -/
theorem keywordAt_cons_of_not_lower {c : Char} (hc : c.isLower = false) (tail : List Char) :
    keywordAt (c :: tail) = none := by
  have hkw : keywords.all (fun p => p.1.head?.any Char.isLower) = true := by decide
  rw [show keywordAt (c :: tail) = keywordAt [] from keywordAt_congr fun p hp => ?_]
  · decide
  · have hlower := List.all_eq_true.mp hkw p hp
    cases hp' : p.1 with
    | nil => simp [hp'] at hlower
    | cons a w =>
      have hac : a ≠ c := by
        rintro rfl
        simp [hp', hc] at hlower
      simp [List.isPrefixOf_cons_cons, hac]

/-! ## The longest word -/

/-- Away from a quote, the longest word is a keyword, else a subject, else a number. -/
theorem munch_of_head_ne {cs : List Char} (h : cs.head? ≠ some '"') :
    munch cs = match keywordAt cs with
      | some (t, n) => some (.word t n)
      | none => match subjectAt cs with
        | some m => some m
        | none => numberAt cs := by
  unfold munch
  split
  · simp at h
  · rfl

/-- A text starting with neither a quote nor a letter can only be a number. -/
theorem munch_of_not_lower {c : Char} (hc : c.isLower = false) (hq : c ≠ '"')
    (tail : List Char) : munch (c :: tail) = numberAt (c :: tail) := by
  have hv : c ≠ 'v' := by rintro rfl; simp at hc
  have hcnt : c ≠ 'c' := by rintro rfl; simp at hc
  rw [munch_of_head_ne (by simpa using hq), keywordAt_cons_of_not_lower hc]
  simp [subjectAt, hv, hcnt]


/-- `w` is read as the single word `t` wherever it stands before a blank or at the end. -/
def Munches (w : List Char) (t : Token) : Prop :=
  w ≠ [] ∧ (∀ c ∈ w.head?, isGap c = false) ∧
    ∀ rest : List Char, (∀ c ∈ rest.head?, c = ' ') → munch (w ++ rest) = some (.word t w.length)

/-- A keyword that is found alone and before a blank, and that no longer keyword extends. -/
theorem munches_keyword {w : List Char} {t : Token} (hw : w ≠ [])
    (hhead : w.head?.all (fun c => !isGap c && c != '"') = true)
    (hend : keywordAt w = some (t, w.length)) (hblank : keywordAt (w ++ [' ']) = some (t, w.length))
    (hext : ∀ p ∈ keywords, (w ++ [' ']).isPrefixOf p.1 = false ∨ p.1.length ≤ (w ++ [' ']).length) :
    Munches w t := by
  obtain ⟨c, tail, rfl⟩ := List.exists_cons_of_ne_nil hw
  have hc : isGap c = false ∧ c ≠ '"' := by simpa using hhead
  refine ⟨hw, fun c' hc' => ?_, fun rest hrest => ?_⟩
  · obtain rfl : c' = c := by simpa using hc'.symm
    exact hc.1
  have hkw : keywordAt (c :: tail ++ rest) = some (t, (c :: tail).length) := by
    cases rest with
    | nil => simpa using hend
    | cons b rest =>
      obtain rfl : b = ' ' := hrest b rfl
      rw [show c :: tail ++ ' ' :: rest = (c :: tail ++ [' ']) ++ rest by simp,
        keywordAt_append _ _ hext, hblank]
  rw [munch_of_head_ne (by simpa using hc.2), hkw]

theorem munches_clause (c : Clause) : Munches c.word.toList (.clause c) := by
  cases c <;> exact munches_keyword (by decide) (by decide) (by decide) (by decide)
    (by decide)

theorem munches_relation (r : Relation) : Munches r.word.toList (.relation r) := by
  cases r <;> exact munches_keyword (by decide) (by decide) (by decide) (by decide)
    (by decide)

/-- `val` or `cnt` and the digits of a number that fits in 32 bits. -/
theorem munches_subject (s : Subject) : Munches s.render.toList (.subject s) := by
  refine ⟨?_, ?_, fun rest hrest => ?_⟩
  · cases s <;> simp [Subject.render]
  · cases s <;> simp [Subject.render, isGap]
  · cases s with
    | value n =>
      have hlt : n.toNat < 4294967296 := n.toNat_lt
      have hkw : keywordAt (['v'] ++ 'a' :: 'l' :: (Nat.toDigits 10 n.toNat ++ rest)) = none := by
        rw [keywordAt_append _ _ (by decide)]; decide
      simp only [List.singleton_append] at hkw
      simp [Subject.render, Nat.toString_eq_repr, Nat.toList_repr, munch, hkw, subjectAt,
        takeWhile_isDigit (fun _ => isDigit_of_mem_toDigits) (isDigit_of_blank hrest), digitsValue_toDigits, Nat.toDigits_ne_nil, hlt]
      omega
    | count n =>
      have hlt : n.toNat < 4294967296 := n.toNat_lt
      have hkw : keywordAt (['c', 'n'] ++ 't' :: (Nat.toDigits 10 n.toNat ++ rest)) = none := by
        rw [keywordAt_append _ _ (by decide)]; decide
      simp only [List.cons_append, List.nil_append] at hkw
      simp [Subject.render, Nat.toString_eq_repr, Nat.toList_repr, munch, hkw, subjectAt,
        takeWhile_isDigit (fun _ => isDigit_of_mem_toDigits) (isDigit_of_blank hrest), digitsValue_toDigits, Nat.toDigits_ne_nil, hlt]
      omega

/-- An escaped text runs to the first quote that no backslash stands before. -/
theorem textSpan_escape (cs rest : List Char) (n : Nat) :
    textSpan (Text.escape cs ++ '"' :: rest) n = .ok (n + (Text.escape cs).length + 1) := by
  induction cs generalizing n with
  | nil => simp [Text.escape, textSpan]
  | cons c cs ih =>
    by_cases h : c = '"' ∨ c = '\\'
    · have hnl : (c == '\n') = false := by rcases h with rfl | rfl <;> rfl
      simp only [Text.escape, h, if_true, List.cons_append, textSpan, hnl, ih,
        Bool.false_eq_true, if_false, List.length_cons]
      rw [show n + 2 + (Text.escape cs).length = n + ((Text.escape cs).length + 1 + 1) by omega]
    · simp only [not_or] at h
      simp only [Text.escape, h, or_self, if_false, List.cons_append, List.length_cons]
      rw [textSpan.eq_5 _ _ _ h.1 (fun _ _ hc _ => h.2 hc) (fun hc _ => h.2 hc), ih,
        show n + 1 + (Text.escape cs).length = n + ((Text.escape cs).length + 1) by omega]

/-- A quoted text is read as itself, whatever follows it. -/
theorem munches_quote (s : String) : Munches (Text.quote s).toList (.text (Text.quote s)) := by
  have hq : (Text.quote s).toList = '"' :: (Text.escape s.toList ++ ['"']) := by
    simp [Text.quote]
  refine ⟨by simp [hq], by simp [hq, isGap], fun rest _ => ?_⟩
  have htake : ('"' :: (Text.escape s.toList ++ '"' :: rest)).take
      (1 + (Text.escape s.toList).length + 1) = '"' :: (Text.escape s.toList ++ ['"']) := by
    rw [show 1 + (Text.escape s.toList).length + 1 = (Text.escape s.toList).length + 1 + 1 by
      omega, List.take_succ_cons, List.take_length_add_append]
    rfl
  have hlen : ('"' :: (Text.escape s.toList ++ ['"'])).length =
      1 + (Text.escape s.toList).length + 1 := by
    simp only [List.length_cons, List.length_append, List.length_nil]; omega
  rw [hq, hlen]
  simp only [munch, List.cons_append, List.append_assoc, List.nil_append, textSpan_escape, htake]
  rw [Text.quote, List.cons_append]

/-- A sign, if any, followed by digits: the number's sign counts one character. -/
theorem sign_eq_length {sign ds rest : List Char} (hsign : sign = [] ∨ sign = ['-'])
    (hds : ds ≠ []) (hdig : ∀ c ∈ ds, c.isDigit) :
    (if (sign ++ ds ++ rest).head? == some '-' then 1 else 0) = sign.length := by
  obtain ⟨d, ds, rfl⟩ := List.exists_cons_of_ne_nil hds
  have hd : d ≠ '-' := by rintro rfl; simp at hdig
  rcases hsign with rfl | rfl <;> simp [hd]

/-- An optional minus and digits, before a blank or at the end, are read as an integer. -/
theorem numberAt_integer {sign ds rest : List Char} (hsign : sign = [] ∨ sign = ['-'])
    (hds : ds ≠ []) (hdig : ∀ c ∈ ds, c.isDigit) (hrest : ∀ c ∈ rest.head?, c = ' ') :
    numberAt (sign ++ ds ++ rest) =
      some (.word (.integer (String.ofList (sign ++ ds))) (sign ++ ds).length) := by
  have hnot : ∀ after, rest ≠ '.' :: after := by
    rintro after rfl; simp at hrest
  unfold numberAt
  dsimp only
  rw [sign_eq_length hsign hds hdig, List.append_assoc, List.drop_left,
    takeWhile_isDigit hdig (isDigit_of_blank hrest), if_neg (by simpa using hds), List.drop_left]
  split
  · exact absurd rfl (hnot _)
  · rw [← List.length_append, ← List.append_assoc, List.take_left]

/-- Digits, then a point and digits, after an optional minus, before a blank or at the end,
are read as a decimal. -/
theorem numberAt_decimal {sign whole frac rest : List Char} (hsign : sign = [] ∨ sign = ['-'])
    (hwhole : whole ≠ []) (hfrac : frac ≠ []) (hdig : ∀ c ∈ whole ++ frac, c.isDigit)
    (hrest : ∀ c ∈ rest.head?, c = ' ') :
    numberAt (sign ++ whole ++ '.' :: frac ++ rest) =
      some (.word (.decimal (String.ofList (sign ++ whole ++ '.' :: frac)))
        (sign ++ whole ++ '.' :: frac).length) := by
  have hw : ∀ c ∈ whole, c.isDigit := fun c hc => hdig c (List.mem_append_left _ hc)
  have hf : ∀ c ∈ frac, c.isDigit := fun c hc => hdig c (List.mem_append_right _ hc)
  have hlen : (sign ++ whole ++ '.' :: frac).length =
      sign.length + whole.length + 1 + frac.length := by
    simp only [List.length_append, List.length_cons]; omega
  unfold numberAt
  dsimp only
  rw [show sign ++ whole ++ '.' :: frac ++ rest = sign ++ whole ++ ('.' :: (frac ++ rest)) by simp,
    sign_eq_length hsign hwhole hw, List.append_assoc, List.drop_left,
    takeWhile_isDigit hw (by simp), if_neg (by simpa using hwhole), List.drop_left]
  simp only [takeWhile_isDigit hf (isDigit_of_blank hrest), List.length_eq_zero_iff, hfrac,
    if_false]
  rw [← hlen, show sign ++ (whole ++ '.' :: (frac ++ rest)) = sign ++ whole ++ '.' :: frac ++ rest
    by simp, List.take_left]

/-- Whatever starts with a minus or a digit is a number, if anything. -/
theorem munches_of_numberAt {w : List Char} {t : Token} (hw : w ≠ [])
    (hhead : ∀ c ∈ w.head?, c = '-' ∨ c.isDigit)
    (hnum : ∀ rest : List Char, (∀ c ∈ rest.head?, c = ' ') →
      numberAt (w ++ rest) = some (.word t w.length)) :
    Munches w t := by
  obtain ⟨c, tail, rfl⟩ := List.exists_cons_of_ne_nil hw
  have hc : c = '-' ∨ c.isDigit := hhead c rfl
  have hlower : c.isLower = false := by
    rcases hc with rfl | hc
    · rfl
    · exact isLower_of_isDigit hc
  have hquote : c ≠ '"' := by rintro rfl; simp at hc
  refine ⟨hw, fun c' hc' => ?_, fun rest hrest => ?_⟩
  · obtain rfl : c' = c := by simpa using hc'.symm
    rcases hc with rfl | hc
    · rfl
    · exact isGap_of_isDigit hc
  · rw [List.cons_append, munch_of_not_lower hlower hquote, ← List.cons_append, hnum rest hrest]

/-- An integer is written as an optional minus and the digits of its absolute value. -/
theorem toList_toString_int (i : Int) :
    ∃ sign, (sign = [] ∨ sign = ['-']) ∧ (toString i).toList = sign ++ Nat.toDigits 10 i.natAbs := by
  cases i with
  | ofNat m => exact ⟨[], .inl rfl, by simp [toString, Int.repr, Nat.toList_repr]⟩
  | negSucc m => exact ⟨['-'], .inr rfl, by simp [toString, Int.repr, Nat.toList_repr]⟩

theorem munches_integer (i : Int) : Munches (toString i).toList (.integer (toString i)) := by
  obtain ⟨sign, hsign, heq⟩ := toList_toString_int i
  have hdig : ∀ c ∈ Nat.toDigits 10 i.natAbs, c.isDigit := fun _ => isDigit_of_mem_toDigits
  obtain ⟨d, ds, hds⟩ := List.exists_cons_of_ne_nil
    (Nat.toDigits_ne_nil : Nat.toDigits 10 i.natAbs ≠ [])
  rw [heq]
  refine munches_of_numberAt (by simp [hds]) (fun c hc => ?_) fun rest hrest => ?_
  · rw [hds] at hc hdig
    rcases hsign with rfl | rfl
    · simp only [List.nil_append, List.head?_cons, Option.mem_def, Option.some.injEq] at hc
      subst hc
      exact .inr (hdig _ List.mem_cons_self)
    · simp only [List.cons_append, List.nil_append, List.head?_cons, Option.mem_def,
        Option.some.injEq] at hc
      exact .inl hc.symm
  · rw [numberAt_integer hsign Nat.toDigits_ne_nil hdig hrest, ← heq, String.ofList_toList]

theorem munches_decimal {l : String} (hl : (Literal.decimal l).Readable) :
    Munches l.toList (.decimal l) := by
  obtain ⟨sign, whole, frac, heq, hsign, hwhole, hfrac, hdig⟩ := hl
  obtain ⟨d, ds, rfl⟩ := List.exists_cons_of_ne_nil hwhole
  rw [heq]
  refine munches_of_numberAt (by simp) (fun c hc => ?_) fun rest hrest => ?_
  · rcases hsign with rfl | rfl
    · simp only [List.nil_append, List.cons_append, List.head?_cons, Option.mem_def,
        Option.some.injEq] at hc
      subst hc
      exact .inr (hdig _ List.mem_cons_self)
    · simp only [List.cons_append, List.nil_append, List.head?_cons, Option.mem_def,
        Option.some.injEq] at hc
      exact .inl hc.symm
  · rw [numberAt_decimal hsign hwhole hfrac hdig hrest, ← heq, String.ofList_toList]

/-- Every readable literal is read back as its own word. -/
theorem munches_literal {v : Literal} (hv : v.Readable) : Munches v.render.toList v.token := by
  cases v with
  | text s => exact munches_quote s
  | integer n => exact munches_integer n.toInt
  | decimal l => exact munches_decimal hv

/-- No word starts with a blank character: blanks are neither quotes, letters, minus signs nor
digits. -/
theorem munch_of_isBlank {c : Char} (h : Text.isBlank c = true) (tail : List Char) :
    munch (c :: tail) = none := by
  have hrange : c.toNat < 34 ∨ c.toNat = 133 ∨ 160 ≤ c.toNat := by
    simp only [Text.isBlank, Text.blankRanges, List.any_cons, List.any_nil, Bool.or_false,
      Bool.or_eq_true, Bool.and_eq_true, decide_eq_true_eq] at h
    omega
  have hval : c.val.toNat = c.toNat := rfl
  have hlower : c.isLower = false := by
    show (decide (c.val ≥ 'a'.val) && decide (c.val ≤ 'z'.val)) = false
    simp only [Bool.and_eq_false_iff, decide_eq_false_iff_not, UInt32.le_iff_toNat_le]
    have : ('z' : Char).val.toNat = 122 := rfl
    have : ('a' : Char).val.toNat = 97 := rfl
    omega
  have hdigit : c.isDigit = false := by
    simp only [Char.isDigit, Bool.and_eq_false_iff, decide_eq_false_iff_not, UInt32.le_iff_toNat_le]
    have : ('9' : Char).val.toNat = 57 := rfl
    have : ('0' : Char).val.toNat = 48 := rfl
    omega
  have hquote : c ≠ '"' := by rintro rfl; revert hrange; decide
  have hminus : c ≠ '-' := by rintro rfl; revert hrange; decide
  rw [munch_of_not_lower hlower hquote]
  simp [numberAt, hminus, hdigit]

theorem scanFrom_of_isBlank {cs : List Char} (h : ∀ c ∈ cs, Text.isBlank c) (pos : Nat)
    (acc ws : List Spanned) (hscan : scanFrom pos acc cs = .ok ws) : ws = acc.reverse := by
  rw [scanFrom] at hscan
  split at hscan
  · next => exact (Except.ok.inj hscan).symm
  · next c tail hdrop =>
    have hc : c ∈ cs := List.mem_of_mem_drop (hdrop ▸ List.mem_cons_self)
    simp [munch_of_isBlank (h c hc)] at hscan

/-! ## Scanning -/

theorem scanFrom_nil (pos : Nat) (acc : List Spanned) : scanFrom pos acc [] = .ok acc.reverse := by
  rw [scanFrom]
  rfl

theorem takeWhile_isGap {g w : List Char} (hg : ∀ c ∈ g, isGap c)
    (hw : ∀ c ∈ w.head?, isGap c = false) : (g ++ w).takeWhile isGap = g := by
  rw [List.takeWhile_append_of_pos hg]
  cases w with
  | nil => simp
  | cons c w => simp [hw c rfl]

/-- A word after blanks is read and the scan goes on after it. -/
theorem scanFrom_munches {g w : List Char} {t : Token} (hg : ∀ c ∈ g, isGap c)
    (hw : Munches w t) (rest : List Char) (hrest : ∀ c ∈ rest.head?, c = ' ') (pos : Nat)
    (acc : List Spanned) :
    ∃ a b pos', scanFrom pos acc (g ++ w ++ rest) = scanFrom pos' (⟨t, a, b⟩ :: acc) rest := by
  obtain ⟨hne, hhead, hmunch⟩ := hw
  obtain ⟨c, tail, rfl⟩ := List.exists_cons_of_ne_nil hne
  have hgap : ((g ++ c :: tail ++ rest).takeWhile isGap).length = g.length := by
    rw [List.append_assoc, takeWhile_isGap hg (by simpa using hhead c rfl)]
  have hdrop : (g ++ c :: tail ++ rest).drop g.length = c :: (tail ++ rest) := by simp
  have hm := hmunch rest hrest
  rw [List.cons_append] at hm
  rw [scanFrom]
  split
  · next h => rw [hgap, hdrop] at h; cases h
  · next c' tail' h =>
    rw [hgap, hdrop] at h
    cases h
    simp only [hm, List.length_cons, Nat.zero_lt_succ, dite_true]
    exact ⟨_, _, _, by rw [show tail.length + 1 = (c :: tail).length from rfl, ← List.cons_append,
      List.drop_left]⟩

end Token

namespace Expr

open Token

/-- **The text of a readable tree scans to the tree's words**, whatever blanks stand before it
and whatever follows it after a blank. -/
theorem scanFrom_render {e : Expr} (he : e.Readable) :
    ∀ (g rest : List Char) (pos : Nat) (acc : List Spanned), (∀ c ∈ g, isGap c) →
      (∀ c ∈ rest.head?, c = ' ') →
      ∃ (pos' : Nat) (sp : List Spanned), sp.map (·.token) = e.tokens ∧
        scanFrom pos acc (g ++ e.render.toList ++ rest) = scanFrom pos' (sp.reverse ++ acc) rest := by
  have hblank : ∀ c ∈ [' '], isGap c := by simp [isGap]
  induction e with
  | test r s v =>
    intro g rest pos acc hg hrest
    have htext : g ++ (test r s v).render.toList ++ rest =
        g ++ r.word.toList ++ ([' '] ++ s.render.toList ++ ([' '] ++ v.render.toList ++ rest)) := by
      simp [render]
    obtain ⟨a₁, b₁, p₁, h₁⟩ := scanFrom_munches hg (munches_relation r)
      ([' '] ++ s.render.toList ++ ([' '] ++ v.render.toList ++ rest)) (by simp) pos acc
    obtain ⟨a₂, b₂, p₂, h₂⟩ := scanFrom_munches hblank (munches_subject s)
      ([' '] ++ v.render.toList ++ rest) (by simp) p₁ _
    obtain ⟨a₃, b₃, p₃, h₃⟩ := scanFrom_munches hblank (munches_literal he) rest hrest p₂ _
    exact ⟨p₃, [⟨.relation r, a₁, b₁⟩, ⟨.subject s, a₂, b₂⟩, ⟨v.token, a₃, b₃⟩], rfl,
      by rw [htext, h₁, h₂, h₃]; rfl⟩
  | logical c l r ihl ihr =>
    intro g rest pos acc hg hrest
    obtain ⟨hl, hr⟩ := he
    have htext : g ++ (logical c l r).render.toList ++ rest =
        g ++ c.word.toList ++ ([' '] ++ l.render.toList ++ ([' '] ++ r.render.toList ++ rest)) := by
      simp [render]
    obtain ⟨a, b, p₁, h₁⟩ := scanFrom_munches hg (munches_clause c)
      ([' '] ++ l.render.toList ++ ([' '] ++ r.render.toList ++ rest)) (by simp) pos acc
    obtain ⟨p₂, spl, htl, h₂⟩ := ihl hl [' '] ([' '] ++ r.render.toList ++ rest) p₁ _ hblank
      (by simp)
    obtain ⟨p₃, spr, htr, h₃⟩ := ihr hr [' '] rest p₂ _ hblank hrest
    refine ⟨p₃, ⟨.clause c, a, b⟩ :: spl ++ spr, by simp [tokens, htl, htr], ?_⟩
    rw [htext, h₁, h₂, h₃]
    simp

/-- The text of a readable tree scans to the tree's words. -/
theorem scan_render {e : Expr} (he : e.Readable) :
    ∃ sp : List Spanned, sp.map (·.token) = e.tokens ∧ scan e.render = .ok sp := by
  obtain ⟨pos, sp, htok, h⟩ := scanFrom_render he [] [] 0 [] (by simp) (by simp)
  refine ⟨sp, htok, ?_⟩
  rw [scan, show e.render.toList = [] ++ e.render.toList ++ [] by simp, h, scanFrom_nil]
  simp

end Expr

end SurveyBranching
