import SurveyBranching.Proofs.Patterns
/-!
# Scanning takes the longest word at each place

Scanning an expression skips blanks (space, tab, carriage return, line feed) and takes, at each
place, the longest start of the rest of the text that one of the word patterns holds, with the
token that word stands for. This is stated as a relation between the text and the words with
their byte spans (`Token.Tiles`): the words and the blanks between them make up the text read so
far, each word is the longest at its place, and its span holds its own UTF-8 bytes.

The scan either reads the whole text so, or stops where no word starts or where the longest word
is a subject whose number does not fit in 32 bits (`Token.Stuck`), and reports that byte offset.

## Main definitions

* `Token.Blank`: the characters between words.
* `Token.Tiles`: a text read as blanks and longest words with their spans.
* `Token.Ordered`: spans in order, each nonempty, within a bound.
* `Token.Stuck`: a place where the scan stops.
* `Token.ScanResult`: what a scan from any place may return.

## Main statements

* `Token.munch_describes`: the longest-word search finds the longest word of all the patterns.
* `Token.scanFrom_spec`: what a scan from any place reads.
* `Token.scan_longest_words`: the words of an expression are its longest words, in order.
-/

namespace SurveyBranching.Token

/-! ## The longest word of all the patterns -/

/-- A result for the words of `L` holds for all the words of `M` when every word of `M` that
starts the text is in `L`. -/
theorem Describes.widen {L M : Language Char} {cs : List Char} {m : Option Munch}
    (hsub : ∀ v, v ∈ L → v ∈ M) (honly : ∀ v, v <+: cs → v ∈ M → v ∈ L)
    (h : Describes L cs m) : Describes M cs m := by
  have hnone : NoneIn L cs → NoneIn M cs := fun hn v hv hvm => hn v hv (honly v hv hvm)
  have hlong : ∀ {w}, LongestIn L w cs → LongestIn M w cs := fun ⟨hp, hw, hmax⟩ =>
    ⟨hp, hsub _ hw, fun v hv hvm => hmax v hv (honly v hv hvm)⟩
  rcases m with _ | (⟨t, n⟩ | n | n)
  · exact hnone h
  · exact ⟨hlong h.1, h.2⟩
  · exact ⟨hlong h.1, h.2⟩
  · exact hnone h

/-- Every word that starts a text opening with a quote is a quoted text. -/
theorem mem_textPattern_of_quote {rest v : List Char} (hv : v <+: '"' :: rest)
    (hmem : v ∈ wordPattern) : v ∈ textPattern := by
  have hhead : ∀ {c u}, v = c :: u → c = '"' := fun hu =>
    head_eq_of_starts (hu ▸ hv) (List.prefix_refl _)
  rcases hmem with ((hk | hs) | ht) | hn
  · obtain ⟨a, b, u, rfl, ha, -⟩ := exists_of_mem_keywordPattern hk
    rw [hhead rfl] at ha
    exact absurd ha (by decide)
  · obtain ⟨u, hu | hu⟩ := exists_of_mem_subjectPattern hs <;> exact absurd (hhead hu) (by decide)
  · exact ht
  · obtain ⟨c, u, hu, hc⟩ := exists_of_mem_numberPattern hn
    rw [hhead hu] at hc
    exact absurd hc (by decide)

/-- Every word that starts a text that a keyword starts is a keyword. -/
theorem mem_keywordPattern_of_starts {cs w v : List Char} (hw : w <+: cs)
    (hkw : w ∈ keywordPattern) (hv : v <+: cs) (hmem : v ∈ wordPattern) : v ∈ keywordPattern := by
  obtain ⟨a, b, u, rfl, ha, hav, hacn⟩ := exists_of_mem_keywordPattern hkw
  rcases hmem with ((hk | hs) | ht) | hn
  · exact hk
  · -- subjects start with `va` or `cn`, which no keyword does
    obtain ⟨u', rfl | rfl⟩ := exists_of_mem_subjectPattern hs
    · exact absurd (second_eq_of_starts hw hv).1 hav
    · obtain ⟨rfl, rfl⟩ := second_eq_of_starts hw hv
      exact absurd rfl (hacn rfl)
  · obtain ⟨u', rfl⟩ := exists_of_mem_textPattern ht
    rw [head_eq_of_starts hw hv] at ha
    exact absurd ha (by decide)
  · obtain ⟨c, u', rfl, hc⟩ := exists_of_mem_numberPattern hn
    rw [head_eq_of_starts hw hv] at ha
    rcases hc with rfl | hc
    · exact absurd ha (by decide)
    · rw [isLower_of_isDigit hc] at ha
      exact absurd ha (by decide)

/-- A subject is found only where the text starts with `v` or `c`. -/
theorem subjectAt_some_head {cs : List Char} {m : Munch} (h : subjectAt cs = some m) :
    ∃ u, cs = 'v' :: u ∨ cs = 'c' :: u := by
  unfold subjectAt at h
  split at h
  · exact ⟨_, .inl rfl⟩
  · exact ⟨_, .inr rfl⟩
  · cases h

/-- Every word that starts a text opening with `v` or `c` is a keyword or a subject. -/
theorem mem_of_subject_head {cs v : List Char} (hcs : ∃ u, cs = 'v' :: u ∨ cs = 'c' :: u)
    (hv : v <+: cs) (hmem : v ∈ wordPattern) : v ∈ keywordPattern ∨ v ∈ subjectPattern := by
  obtain ⟨u, hu⟩ := hcs
  have hhead : ∀ {c w}, v = c :: w → c = 'v' ∨ c = 'c' := fun hw => by
    rcases hu with rfl | rfl
    · exact .inl (head_eq_of_starts (hw ▸ hv) (List.prefix_refl _))
    · exact .inr (head_eq_of_starts (hw ▸ hv) (List.prefix_refl _))
  rcases hmem with ((hk | hs) | ht) | hn
  · exact .inl hk
  · exact .inr hs
  · obtain ⟨w, hw⟩ := exists_of_mem_textPattern ht
    rcases hhead hw with h | h <;> exact absurd h (by decide)
  · obtain ⟨c, w, hw, hc⟩ := exists_of_mem_numberPattern hn
    rcases hhead hw with rfl | rfl <;> exact absurd hc (by decide)

/-- **The longest-word search finds the longest word of all the patterns**: a quoted text after
a quote, else the longest keyword, else a subject, else a number. -/
theorem munch_describes (cs : List Char) : Describes wordPattern cs (munch cs) := by
  unfold munch
  split
  · -- after a quote only a quoted text can start
    next rest =>
    have hsub : ∀ v, v ∈ textPattern → v ∈ wordPattern := fun v h => .inl (.inr h)
    split
    · next n hn => exact (textSpan_ok hn).widen hsub fun v hv h => mem_textPattern_of_quote hv h
    · next n hn =>
      exact Describes.widen (m := some (.unclosed n)) hsub
        (fun v hv h => mem_textPattern_of_quote hv h) (textSpan_error hn)
  · next hq =>
    split
    · next t n hkw =>
      have hd := keywordAt_some hkw
      exact hd.widen (fun v h => .inl (.inl (.inl h)))
        fun v hv h => mem_keywordPattern_of_starts hd.1.1 hd.1.2.1 hv h
    · next hkw =>
      split
      · next m hsubj =>
        have hd := subjectAt_describes cs
        rw [hsubj] at hd
        refine hd.widen (fun v h => .inl (.inl (.inr h))) fun v hv h => ?_
        rcases mem_of_subject_head (subjectAt_some_head hsubj) hv h with hk | hs
        · exact absurd hk (keywordAt_none hkw v hv)
        · exact hs
      · next hsubj =>
        have hnone : NoneIn subjectPattern cs := by
          have hd := subjectAt_describes cs
          rwa [hsubj] at hd
        refine (numberAt_describes cs).widen (fun v h => .inr h) fun v hv h => ?_
        rcases h with ((hk | hs) | ht) | hn
        · exact absurd hk (keywordAt_none hkw v hv)
        · exact absurd hs (hnone v hv)
        · obtain ⟨u, rfl⟩ := exists_of_mem_textPattern ht
          obtain ⟨x, rfl⟩ := hv
          exact absurd rfl (hq (u ++ x))
        · exact hn

/-! ## Blanks and bytes -/

/-- The characters that may stand between words. -/
def Blank (c : Char) : Prop := c = ' ' ∨ c = '\t' ∨ c = '\r' ∨ c = '\n'

theorem isGap_iff {c : Char} : isGap c = true ↔ Blank c := by
  simp only [isGap, Blank, Bool.or_eq_true, beq_iff_eq, or_assoc]

theorem byteLength_eq_utf8ByteSize (cs : List Char) :
    byteLength cs = (String.ofList cs).utf8ByteSize := by
  induction cs with
  | nil => simp [byteLength]
  | cons c cs ih =>
    rw [show byteLength (c :: cs) = c.utf8Size + byteLength cs from rfl, ih, String.ofList_cons,
      String.utf8ByteSize_append, String.utf8ByteSize_singleton]

/-- Blanks take one byte each. -/
theorem utf8ByteSize_of_blank {g : List Char} (h : ∀ c ∈ g, Blank c) :
    (String.ofList g).utf8ByteSize = g.length := by
  rw [← byteLength_eq_utf8ByteSize]
  induction g with
  | nil => rfl
  | cons c g ih =>
    have hc : c.utf8Size = 1 := by
      rcases h c List.mem_cons_self with rfl | rfl | rfl | rfl <;> rfl
    rw [show byteLength (c :: g) = c.utf8Size + byteLength g from rfl, hc,
      ih fun d hd => h d (List.mem_cons_of_mem c hd), List.length_cons, Nat.add_comm]

theorem utf8ByteSize_pos {w : List Char} (h : w ≠ []) : 0 < (String.ofList w).utf8ByteSize := by
  obtain ⟨c, w, rfl⟩ := List.exists_cons_of_ne_nil h
  rw [← byteLength_eq_utf8ByteSize, show byteLength (c :: w) = c.utf8Size + byteLength w from rfl]
  have := c.utf8Size_pos
  omega

/-- The scan skips the leading blanks. -/
theorem takeWhile_isGap_append (cs : List Char) :
    cs.takeWhile isGap ++ cs.drop (cs.takeWhile isGap).length = cs := by
  have h := List.take_append_drop (cs.takeWhile isGap).length cs
  rwa [take_length_takeWhile] at h

theorem blank_of_mem_takeWhile {cs : List Char} : ∀ c ∈ cs.takeWhile isGap, Blank c :=
  fun c hc => isGap_iff.mp (List.all_eq_true.mp List.all_takeWhile c hc)

/-- What follows the leading blanks starts with no blank. -/
theorem not_blank_of_drop {cs tail : List Char} {c : Char}
    (h : cs.drop (cs.takeWhile isGap).length = c :: tail) : ¬ Blank c := by
  intro hc
  have hsplit := takeWhile_isGap_append cs
  rw [h] at hsplit
  generalize hT : cs.takeWhile isGap = T at hsplit
  have hall : ∀ x ∈ T, isGap x := fun x hx =>
    List.all_eq_true.mp (hT ▸ List.all_takeWhile) x hx
  -- the leading blanks would run on past `c`
  rw [← hsplit, List.takeWhile_append_of_pos hall,
    List.takeWhile_cons_of_pos (isGap_iff.mpr hc)] at hT
  have hlen := congrArg List.length hT
  simp only [List.length_append, List.length_cons] at hlen
  omega

/-! ## Reading a text as longest words -/

/-- `Tiles pos cs ws rest`: read from byte offset `pos`, the text `cs` is blanks and the words
`ws`, each the longest word at its place, with the token it stands for and the span of its own
bytes, then blanks, then `rest`, which starts with no blank. -/
inductive Tiles : Nat → List Char → List Spanned → List Char → Prop
  | last {pos : Nat} {g rest : List Char} :
      (∀ c ∈ g, Blank c) → (∀ c ∈ rest.head?, ¬ Blank c) → Tiles pos (g ++ rest) [] rest
  | word {pos : Nat} {g w more rest : List Char} {t : Token} {ws : List Spanned} :
      (∀ c ∈ g, Blank c) → LongestIn wordPattern w (w ++ more) → Denotes w t →
      Tiles (pos + (String.ofList g).utf8ByteSize + (String.ofList w).utf8ByteSize) more ws rest →
      Tiles pos (g ++ w ++ more)
        (⟨t, pos + (String.ofList g).utf8ByteSize,
          pos + (String.ofList g).utf8ByteSize + (String.ofList w).utf8ByteSize⟩ :: ws) rest

/-- Spans from `pos` on, each starting at or after the end of the one before and holding at
least one byte, the last ending by `stop`. -/
def Ordered : Nat → List Spanned → Nat → Prop
  | pos, [], stop => pos ≤ stop
  | pos, w :: ws, stop => pos ≤ w.start ∧ w.start < w.stop ∧ Ordered w.stop ws stop

@[simp] theorem ordered_nil {pos stop : Nat} : Ordered pos [] stop ↔ pos ≤ stop := Iff.rfl

@[simp] theorem ordered_cons {pos stop : Nat} {w : Spanned} {ws : List Spanned} :
    Ordered pos (w :: ws) stop ↔ pos ≤ w.start ∧ w.start < w.stop ∧ Ordered w.stop ws stop :=
  Iff.rfl

/-- Where the scan stops: a character that starts no word, or a longest word that is a subject
too large for 32 bits. -/
def Stuck (rest : List Char) : Prop :=
  rest ≠ [] ∧ (NoneIn wordPattern rest ∨ ∃ w, LongestIn wordPattern w rest ∧ Oversized w)

theorem Tiles.word_of_eq {pos : Nat} {cs g w more rest : List Char} {t : Token}
    {ws : List Spanned} (hcs : cs = g ++ w ++ more) (hg : ∀ c ∈ g, Blank c)
    (hw : LongestIn wordPattern w (w ++ more)) (ht : Denotes w t)
    (h : Tiles (pos + (String.ofList g).utf8ByteSize + (String.ofList w).utf8ByteSize)
      more ws rest) :
    Tiles pos cs (⟨t, pos + (String.ofList g).utf8ByteSize,
      pos + (String.ofList g).utf8ByteSize + (String.ofList w).utf8ByteSize⟩ :: ws) rest := by
  subst hcs
  exact .word hg hw ht h

theorem Tiles.exists_eq_append {pos : Nat} {cs rest : List Char} {ws : List Spanned}
    (h : Tiles pos cs ws rest) : ∃ pre, cs = pre ++ rest := by
  induction h with
  | last => exact ⟨_, rfl⟩
  | word _ _ _ _ ih =>
    obtain ⟨pre, rfl⟩ := ih
    exact ⟨_, (List.append_assoc _ _ _).symm⟩

/-- The spans of a reading are in order and lie within the bytes read. -/
theorem Tiles.ordered {pos : Nat} {cs pre rest : List Char} {ws : List Spanned}
    (h : Tiles pos cs ws rest) (hcs : cs = pre ++ rest) :
    Ordered pos ws (pos + (String.ofList pre).utf8ByteSize) := by
  induction h generalizing pre with
  | last =>
    obtain rfl := List.append_cancel_right hcs
    exact Nat.le_add_right _ _
  | word hg hw ht htail ih =>
    obtain ⟨pre', rfl⟩ := htail.exists_eq_append
    obtain rfl := List.append_cancel_right (hcs.symm.trans (List.append_assoc _ _ _).symm)
    have hpos := utf8ByteSize_pos (ne_nil_of_mem_wordPattern hw.2.1)
    refine ordered_cons.mpr ⟨Nat.le_add_right _ _, by simp only; omega, ?_⟩
    have hrest := ih rfl
    simp only [String.ofList_append, String.utf8ByteSize_append] at hrest ⊢
    rwa [← Nat.add_assoc, ← Nat.add_assoc]

/-! ## The scan -/

/-- One step of the scan: the blanks it skips and the longest word after them, before a reading
of what follows the word. -/
theorem Tiles.of_munch {pos n : Nat} {cs tail rest : List Char} {c : Char} {t : Token}
    {ws : List Spanned} (hdrop : cs.drop (cs.takeWhile isGap).length = c :: tail)
    (hmunch : munch (c :: tail) = some (.word t n))
    (h : Tiles (pos + (cs.takeWhile isGap).length + byteLength ((c :: tail).take n))
      ((c :: tail).drop n) ws rest) :
    Tiles pos cs (⟨t, pos + (cs.takeWhile isGap).length,
      pos + (cs.takeWhile isGap).length + byteLength ((c :: tail).take n)⟩ :: ws) rest := by
  have hd := munch_describes (c :: tail)
  rw [hmunch, describes_word] at hd
  obtain ⟨hlong, hden⟩ := hd
  have hcs : cs = cs.takeWhile isGap ++ (c :: tail).take n ++ (c :: tail).drop n := by
    rw [List.append_assoc, List.take_append_drop, ← hdrop, takeWhile_isGap_append]
  have hgap : (String.ofList (cs.takeWhile isGap)).utf8ByteSize = (cs.takeWhile isGap).length :=
    utf8ByteSize_of_blank blank_of_mem_takeWhile
  rw [← hgap, byteLength_eq_utf8ByteSize] at h ⊢
  refine Tiles.word_of_eq hcs blank_of_mem_takeWhile ?_ hden h
  rwa [List.take_append_drop]

/-- Where the scan finds no word after the blanks, it stops there. -/
theorem stuck_of_munch {c : Char} {tail : List Char} {m : Option Munch}
    (hm : munch (c :: tail) = m) (hword : ∀ t n, m = some (.word t n) → False) :
    Stuck (c :: tail) := by
  have hd := munch_describes (c :: tail)
  rw [hm] at hd
  refine ⟨List.cons_ne_nil c tail, ?_⟩
  rcases m with _ | (⟨t, n⟩ | n | n)
  · exact .inl hd
  · exact absurd rfl (hword t n)
  · exact .inr ⟨_, hd⟩
  · exact .inl hd

/-- What a scan from byte offset `pos` over `cs`, after the words `acc`, may return: those words
and a reading of all of `cs`, or a stop, after a reading of `cs` up to there, at its byte
offset. -/
def ScanResult (pos : Nat) (acc : List Spanned) (cs : List Char) :
    Except ParseError (List Spanned) → Prop
  | .ok ws => ∃ found, ws = acc.reverse ++ found ∧ Tiles pos cs found []
  | .error e => ∃ slice pre rest found,
      e = .invalidToken slice (pos + (String.ofList pre).utf8ByteSize) ∧ cs = pre ++ rest ∧
        Tiles pos cs found rest ∧ Stuck rest

@[simp] theorem scanResult_ok {pos : Nat} {acc ws : List Spanned} {cs : List Char} :
    ScanResult pos acc cs (.ok ws) ↔ ∃ found, ws = acc.reverse ++ found ∧ Tiles pos cs found [] :=
  Iff.rfl

@[simp] theorem scanResult_error {pos : Nat} {acc : List Spanned} {cs : List Char}
    {e : ParseError} :
    ScanResult pos acc cs (.error e) ↔ ∃ slice pre rest found,
      e = .invalidToken slice (pos + (String.ofList pre).utf8ByteSize) ∧ cs = pre ++ rest ∧
        Tiles pos cs found rest ∧ Stuck rest :=
  Iff.rfl

/-- The end of the scan: only blanks are left. -/
theorem ScanResult.of_blanks {pos : Nat} {acc : List Spanned} {cs : List Char}
    (hdrop : cs.drop (cs.takeWhile isGap).length = []) :
    ScanResult pos acc cs (.ok acc.reverse) := by
  have hcs : cs.takeWhile isGap ++ [] = cs := by rw [← hdrop, takeWhile_isGap_append]
  have hlast : Tiles pos (cs.takeWhile isGap ++ []) [] [] :=
    .last blank_of_mem_takeWhile fun d hd => nomatch hd
  rw [hcs] at hlast
  exact ⟨[], (List.append_nil _).symm, hlast⟩

/-- A step of the scan: the word after the blanks, then whatever the scan of the rest returns. -/
theorem ScanResult.of_word {pos n : Nat} {acc : List Spanned} {cs tail : List Char} {c : Char}
    {t : Token} {r : Except ParseError (List Spanned)}
    (hdrop : cs.drop (cs.takeWhile isGap).length = c :: tail)
    (hmunch : munch (c :: tail) = some (.word t n))
    (h : ScanResult (pos + (cs.takeWhile isGap).length + byteLength ((c :: tail).take n))
      (⟨t, pos + (cs.takeWhile isGap).length,
        pos + (cs.takeWhile isGap).length + byteLength ((c :: tail).take n)⟩ :: acc)
      ((c :: tail).drop n) r) :
    ScanResult pos acc cs r := by
  rcases r with e | ws
  · -- the word, then the reading of the rest up to the stop
    obtain ⟨slice, pre, rest, found, rfl, hmore, hfound, hstuck⟩ := h
    have hcs : cs = cs.takeWhile isGap ++ (c :: tail).take n ++ (pre ++ rest) := by
      rw [← hmore, List.append_assoc, List.take_append_drop, ← hdrop, takeWhile_isGap_append]
    refine ⟨slice, cs.takeWhile isGap ++ (c :: tail).take n ++ pre, rest, _ :: found, ?_,
      hcs.trans (by simp only [List.append_assoc]), Tiles.of_munch hdrop hmunch hfound, hstuck⟩
    rw [String.ofList_append, String.ofList_append, String.utf8ByteSize_append,
      String.utf8ByteSize_append, utf8ByteSize_of_blank blank_of_mem_takeWhile,
      byteLength_eq_utf8ByteSize]
    simp only [Nat.add_assoc]
  · obtain ⟨found, rfl, hfound⟩ := h
    exact ⟨_ :: found, by simp, Tiles.of_munch hdrop hmunch hfound⟩

/-- A stop after the leading blanks: the text is read up to there with no word. -/
theorem ScanResult.of_stop {pos : Nat} {acc : List Spanned} {cs tail : List Char} {c : Char}
    (slice : String) (hdrop : cs.drop (cs.takeWhile isGap).length = c :: tail)
    (hstuck : Stuck (c :: tail)) :
    ScanResult pos acc cs (.error (.invalidToken slice (pos + (cs.takeWhile isGap).length))) := by
  have hcs : cs = cs.takeWhile isGap ++ c :: tail := by rw [← hdrop, takeWhile_isGap_append]
  have hlast : Tiles pos (cs.takeWhile isGap ++ c :: tail) [] (c :: tail) :=
    .last blank_of_mem_takeWhile fun d hd => by
      obtain rfl : d = c := (Option.mem_some_iff.mp hd).symm
      exact not_blank_of_drop hdrop
  rw [← hcs] at hlast
  exact ⟨slice, cs.takeWhile isGap, c :: tail, [],
    by rw [utf8ByteSize_of_blank blank_of_mem_takeWhile], hcs, hlast, hstuck⟩

/-- **What a scan from any place reads.** A scan that succeeds returns the words already found
and then a reading of the whole text as blanks and longest words; one that fails stops at a
place, after a reading of the text up to there, where no word starts or the longest word is a
subject too large for 32 bits, and reports its byte offset. -/
theorem scanFrom_spec (pos : Nat) (acc : List Spanned) (cs : List Char) :
    ScanResult pos acc cs (scanFrom pos acc cs) := by
  fun_induction scanFrom pos acc cs with
  | case1 pos acc cs gap hdrop => exact .of_blanks hdrop
  | case2 pos acc cs gap start c tail hdrop t n hmunch hn stop ih => exact .of_word hdrop hmunch ih
  | case3 pos acc cs gap start c tail hdrop t n hmunch hn =>
    -- a word is never empty
    have hd := munch_describes (c :: tail)
    rw [hmunch, describes_word, Nat.eq_zero_of_not_pos hn, List.take_zero] at hd
    exact absurd rfl (ne_nil_of_mem_wordPattern hd.1.2.1)
  | case4 pos acc cs gap start c tail hdrop n hmunch =>
    exact .of_stop _ hdrop (stuck_of_munch hmunch fun _ _ h => nomatch h)
  | case5 pos acc cs gap start c tail hdrop n hmunch =>
    exact .of_stop _ hdrop (stuck_of_munch hmunch fun _ _ h => nomatch h)
  | case6 pos acc cs gap start c tail hdrop hmunch =>
    exact .of_stop _ hdrop (stuck_of_munch hmunch fun _ _ h => nomatch h)

/-- **The words of an expression are its longest words, in order.** When the scan succeeds, the
text is blanks and the words found, each the longest start of the rest of the text that one of
the patterns holds, standing for the token found and spanning its own bytes, in order and
within the text. When it fails, it reports a byte offset up to which the text is read so, and
where no word starts or the longest word is a subject whose number does not fit in 32 bits. -/
theorem scan_longest_words (s : String) :
    (∀ ws, scan s = .ok ws → Tiles 0 s.toList ws [] ∧ Ordered 0 ws s.utf8ByteSize) ∧
    ∀ e, scan s = .error e → ∃ slice pre rest ws,
      e = .invalidToken slice (String.ofList pre).utf8ByteSize ∧ s.toList = pre ++ rest ∧
        Tiles 0 s.toList ws rest ∧ Ordered 0 ws (String.ofList pre).utf8ByteSize ∧ Stuck rest := by
  have hspec : ScanResult 0 [] s.toList (scan s) := scanFrom_spec 0 [] s.toList
  refine ⟨fun ws h => ?_, fun e h => ?_⟩
  · rw [h, scanResult_ok] at hspec
    obtain ⟨found, rfl, htiles⟩ := hspec
    have hord := htiles.ordered (List.append_nil _).symm
    rw [String.ofList_toList, Nat.zero_add] at hord
    exact ⟨by simpa using htiles, by simpa using hord⟩
  · rw [h, scanResult_error] at hspec
    obtain ⟨slice, pre, rest, found, rfl, hcs, htiles, hstuck⟩ := hspec
    have hord := htiles.ordered hcs
    rw [Nat.zero_add] at hord
    exact ⟨slice, pre, rest, found, by rw [Nat.zero_add], hcs, htiles, hord, hstuck⟩

end SurveyBranching.Token
