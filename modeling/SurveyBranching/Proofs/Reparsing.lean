import SurveyBranching.Proofs.Reading
/-!
# The text of a tree as a canonical form

Reading produces only trees that print to text it reads back. The decimals of a tree it reads
are words of the scan, which are written as an optional minus, digits, a point and digits, so
the tree is readable; and every logical node on the path to a test was waiting on the stack
when that test was read, so the tree's logical height is within the depth limit. With
`Expr.parse_render`, printing then reading gives the tree back, whatever its quoted texts hold.

## Main definitions

* `Token.Readable`: a decimal word written as a decimal.
* `Expr.StackFits`: the left sides held on the stack are readable and fit under the limit.

## Main statements

* `Token.scanFrom_readable`: scanning finds readable words only.
* `Expr.grow_fits`: what reading builds on a fitting stack is readable and fits.
* `Expr.parse_fits`: a tree read from any text is readable and within the depth limit.
* `Expr.parse_render_canonical`: the round trip through the text of a tree.
-/

namespace SurveyBranching

/-- A word that reads back as itself: a decimal word is written as a decimal. -/
def Token.Readable : Token → Prop
  | .decimal l => (Literal.decimal l).Readable
  | _ => True

namespace Token

/-- A text is the run of digits it starts with and what follows that run. -/
theorem eq_takeWhile_isDigit_append (cs : List Char) :
    cs = cs.takeWhile Char.isDigit ++ cs.drop (cs.takeWhile Char.isDigit).length := by
  have hsplit := List.takeWhile_append_dropWhile (p := Char.isDigit) (l := cs)
  calc cs = cs.takeWhile Char.isDigit ++ cs.dropWhile Char.isDigit := hsplit.symm
    _ = cs.takeWhile Char.isDigit ++
        (cs.takeWhile Char.isDigit ++ cs.dropWhile Char.isDigit).drop
          (cs.takeWhile Char.isDigit).length := by rw [List.drop_left]
    _ = cs.takeWhile Char.isDigit ++ cs.drop (cs.takeWhile Char.isDigit).length := by
      rw [hsplit]

theorem isDigit_of_mem_takeWhile {cs : List Char} {c : Char}
    (h : c ∈ cs.takeWhile Char.isDigit) : c.isDigit :=
  List.all_eq_true.mp List.all_takeWhile c h

/-- The sign a number starts with: one minus or none. -/
theorem take_sign (cs : List Char) :
    cs.take (if cs.head? == some '-' then 1 else 0) = [] ∨
      cs.take (if cs.head? == some '-' then 1 else 0) = ['-'] := by
  cases cs with
  | nil => simp
  | cons c cs => by_cases h : c = '-' <;> simp [h]

/-- A number word is an integer or a decimal written as one. -/
theorem numberAt_readable {cs : List Char} {t : Token} {n : Nat}
    (h : numberAt cs = some (.word t n)) : t.Readable := by
  have hsign := take_sign cs
  unfold numberAt at h
  dsimp only at h
  generalize (if cs.head? == some '-' then 1 else 0) = s at h hsign
  have hrest := eq_takeWhile_isDigit_append (cs.drop s)
  generalize hw : (cs.drop s).takeWhile Char.isDigit = w at h hrest
  by_cases hw0 : w.length = 0
  · simp [hw0] at h
  rw [if_neg hw0] at h
  split at h
  · next after hdot =>
    have hafter := eq_takeWhile_isDigit_append after
    generalize hf : after.takeWhile Char.isDigit = f at h hafter
    by_cases hf0 : f.length = 0
    · rw [if_pos hf0] at h
      cases h
      trivial
    rw [if_neg hf0] at h
    simp only [Option.some.injEq, Munch.word.injEq] at h
    obtain ⟨rfl, -⟩ := h
    -- The word is the sign, the whole digits, the point and the fraction digits.
    have hne : (cs.drop s) ≠ [] := by
      rintro hnil
      simp [hnil] at hw
      simp [← hw] at hw0
    have hlen : (cs.take s).length = s := by
      rw [List.length_take]
      exact Nat.min_eq_left (Nat.le_of_lt (by simpa [List.drop_eq_nil_iff] using hne))
    have hcs : cs = (cs.take s ++ w ++ '.' :: f) ++ after.drop f.length := by
      conv_lhs => rw [← List.take_append_drop s cs, hrest, hdot, hafter]
      simp
    refine ⟨cs.take s, w, f, ?_, hsign, ?_, ?_, ?_⟩
    · rw [String.toList_ofList]
      conv_lhs => rw [hcs]
      rw [List.take_left' (by simp [hlen]; omega)]
    · simpa using hw0
    · simpa using hf0
    · intro c hc
      rcases List.mem_append.mp hc with hc | hc
      · exact isDigit_of_mem_takeWhile (hw ▸ hc)
      · exact isDigit_of_mem_takeWhile (hf ▸ hc)
  · cases h
    trivial

/-- Keywords are clause and relation words. -/
theorem keywordAt_readable {cs : List Char} {t : Token} {n : Nat}
    (h : keywordAt cs = some (t, n)) : t.Readable := by
  -- The longest keyword so far is always one of the table's words: each step keeps the best
  -- so far or takes the word it looks at.
  have hfold : ∀ (f : Option (Token × Nat) → List Char × Token → Option (Token × Nat)),
      (∀ best p, f best p = best ∨ f best p = some (p.2, p.1.length)) →
      ∀ (l : List (List Char × Token)) (best : Option (Token × Nat)),
      (∀ p ∈ l, p.2.Readable) → (∀ b ∈ best, b.1.Readable) →
      ∀ b ∈ l.foldl f best, b.1.Readable := by
    intro f hf l
    induction l with
    | nil => exact fun best _ hbest => hbest
    | cons p l ih =>
      intro best hl hbest
      refine ih _ (fun q hq => hl q (List.mem_cons_of_mem _ hq)) ?_
      rcases hf best p with hkeep | hnew
      · rwa [hkeep]
      · rw [hnew]
        simpa using hl p List.mem_cons_self
  unfold keywordAt at h
  refine hfold _ (fun best p => ?_) keywords none (by simp [keywords, Token.Readable]) (by simp) _ h
  obtain ⟨w, t⟩ := p
  dsimp only
  split
  · exact .inr rfl
  · exact .inl rfl

/-- Subject words are subjects. -/
theorem subjectAt_readable {cs : List Char} {t : Token} {n : Nat}
    (h : subjectAt cs = some (.word t n)) : t.Readable := by
  unfold subjectAt at h
  split at h
  · dsimp only at h
    split_ifs at h <;> cases h
    trivial
  · dsimp only at h
    split_ifs at h <;> cases h
    trivial
  · cases h

/-- The longest word at any place is readable. -/
theorem munch_readable {cs : List Char} {t : Token} {n : Nat}
    (h : munch cs = some (.word t n)) : t.Readable := by
  unfold munch at h
  split at h
  · split at h
    · cases h
      trivial
    · cases h
  · split at h
    · next hkw =>
      cases h
      exact keywordAt_readable hkw
    · split at h
      · next hsub => exact subjectAt_readable (hsub ▸ h)
      · exact numberAt_readable h

/-- Scanning finds readable words only. -/
theorem scanFrom_readable {pos : Nat} {acc ws : List Spanned} {cs : List Char}
    (h : scanFrom pos acc cs = .ok ws) (hacc : ∀ w ∈ acc, w.token.Readable) :
    ∀ w ∈ ws, w.token.Readable := by
  fun_induction scanFrom pos acc cs with
  | case1 =>
    cases h
    simpa using hacc
  | case2 _ _ _ _ _ _ _ _ _ _ hmunch _ _ ih =>
    refine ih h fun w hw => ?_
    rcases List.mem_cons.mp hw with rfl | hw
    · exact munch_readable hmunch
    · exact hacc w hw
  | case3 | case4 | case5 | case6 => cases h

end Token

namespace Expr

/-- The waiting nodes fit under `limit`: the left side a node holds is readable, and that side
under its node and the nodes below stays within the limit. -/
def StackFits (limit : Nat) : List Waiting → Prop
  | [] => True
  | w :: rest => StackFits limit rest ∧
      ∀ l ∈ w.left, l.Readable ∧ rest.length + 1 + l.logicalHeight ≤ limit

/-- The literal of a readable word is readable. -/
theorem readable_of_literalOf {w : Spanned} {v : Literal} (h : literalOf w = .ok v)
    (hw : w.token.Readable) : v.Readable := by
  unfold literalOf at h
  split at h
  · cases h
    trivial
  · next l hl =>
    cases h
    rw [hl] at hw
    exact hw
  · split at h
    · cases h
      trivial
    · cases h
  · cases h

/-- A finished readable operand that fits joins the stack and keeps it fitting, or is a whole
tree that fits. -/
theorem attach_fits {limit : Nat} {e : Expr} {waiting : List Waiting}
    (hs : StackFits limit waiting) (he : e.Readable)
    (hh : waiting.length + e.logicalHeight ≤ limit) :
    match attach e waiting with
    | .inl t => t.Readable ∧ t.logicalHeight ≤ limit
    | .inr waiting' => StackFits limit waiting' := by
  induction waiting generalizing e with
  | nil => exact ⟨he, by simpa using hh⟩
  | cons w rest ih =>
    obtain ⟨c, left⟩ := w
    cases left with
    | none =>
      refine ⟨hs.1, fun l hl => ?_⟩
      cases hl
      exact ⟨he, by simpa [Nat.add_comm] using hh⟩
    | some l =>
      obtain ⟨hrest, hl⟩ := hs
      obtain ⟨hlr, hlh⟩ := hl l rfl
      refine ih hrest ⟨hlr, he⟩ ?_
      simp only [List.length_cons] at hh
      simp only [logicalHeight]
      omega

/-- What reading builds on a fitting stack from readable words is readable and fits. -/
theorem grow_fits {limit : Nat} {waiting : List Waiting} {words : List Spanned} {e : Expr}
    {rest : List Spanned} (h : grow limit waiting words = .ok (e, rest))
    (hs : StackFits limit waiting) (hw : ∀ w ∈ words, w.token.Readable) :
    e.Readable ∧ e.logicalHeight ≤ limit := by
  fun_induction grow limit waiting words with
  | case3 waiting _ c _ _ _ ih =>
    -- A clause word pushes a node with no left side yet.
    exact ih h ⟨hs, fun l hl => by cases hl⟩ fun w hw' => hw w (List.mem_cons_of_mem _ hw')
  | case7 waiting hlim r _ _ s _ _ w _ v hlit _ hattach =>
    -- The test is read with every waiting node above it, so it fits as the stack did.
    cases h
    have hv : (test r s v).Readable := readable_of_literalOf hlit (hw w (by simp))
    have hfit := attach_fits hs hv (by simp only [logicalHeight]; omega)
    rw [hattach] at hfit
    exact hfit
  | case8 waiting hlim r _ _ s _ _ w _ v hlit _ hattach ih =>
    have hv : (test r s v).Readable := readable_of_literalOf hlit (hw w (by simp))
    have hfit := attach_fits hs hv (by simp only [logicalHeight]; omega)
    rw [hattach] at hfit
    exact ih h hfit fun w' hw' => hw w' (by simp [hw'])
  | case1 | case2 | case4 | case5 | case6 | case9 | case10 => cases h

/-- **A tree read from any text is readable and within the depth limit.** -/
theorem parse_fits {limit : Nat} {s : String} {e : Expr} (h : parse limit s = .ok e) :
    e.Readable ∧ e.logicalHeight ≤ limit := by
  cases hscan : Token.scan s with
  | error err =>
    simp only [parse, hscan, bind, Except.bind] at h
    cases h
  | ok words =>
    have hwords := Token.scanFrom_readable hscan (by simp)
    cases hgrow : grow limit [] words with
    | error err =>
      simp only [parse, hscan, hgrow, bind, Except.bind] at h
      split at h <;> cases h
    | ok p =>
      obtain ⟨e', rest⟩ := p
      have hfit := grow_fits hgrow trivial hwords
      simp only [parse, hscan, hgrow, bind, Except.bind] at h
      split at h
      · cases h
      · split at h
        · cases h
          exact hfit
        · cases h

/-- **The text of a tree is a canonical form of what reading accepts.** A readable tree within
the depth limit reads back from its text as itself; a tree read from any text is readable and
within the limit, so its text reads back as the same tree. -/
theorem parse_render_canonical (limits : Limits) :
    (∀ e : Expr, e.Readable → e.logicalHeight ≤ limits.maxExpressionDepth →
      parse limits.maxExpressionDepth e.render = .ok e) ∧
    ∀ (s : String) (e : Expr), parse limits.maxExpressionDepth s = .ok e →
      e.Readable ∧ parse limits.maxExpressionDepth e.render = .ok e := by
  refine ⟨fun e he hh => ?_, fun s e hs => ?_⟩
  · rw [parse_render he, if_pos hh]
  · obtain ⟨he, hh⟩ := parse_fits hs
    exact ⟨he, by rw [parse_render he, if_pos hh]⟩

/-- A text with quotes, a backslash and a line feed, and the least 64-bit integer, read back
under the default limits. -/
theorem parse_render_canonical_escapes :
    let e : Expr := logical .or (test .eq (.value 1) (.text "say \"hi\"\\\n"))
      (test .lt (.count 2) (.integer Int64.minValue))
    e.Readable ∧ e.logicalHeight ≤ ({} : Limits).maxExpressionDepth ∧
      parse ({} : Limits).maxExpressionDepth e.render = .ok e := by
  intro e
  have he : e.Readable := ⟨trivial, trivial⟩
  have hh : e.logicalHeight ≤ ({} : Limits).maxExpressionDepth := by decide
  exact ⟨he, hh, (parse_render_canonical {}).1 e he hh⟩

end Expr

end SurveyBranching
