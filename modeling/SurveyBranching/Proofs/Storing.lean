import SurveyBranching.Proofs.Decoding
import SurveyBranching.Rule.Stored
/-!
# Saving rules again after reading them back

A question's rules are stored with each rule's conditions written as one expression, and the
stored form is read back into rules. Storing the rules read back gives the same stored form,
rule for rule, exactly when every stored rule reloads as itself: its expression is not deeper
than the reader allows, and a rule that writes no condition has a destination to go to.
Otherwise the rule comes back with one empty condition, and is either left out of the next
save or saved with an empty expression.

The expression of a rule depends only on the texts of its written tests and the clauses between
them (`Question.expressionOf_congr`). Reading a test back may name another option than the one
written, when two options share a value; with distinct option ids, that option writes the same
text, so the rule read back writes the same expression (`Question.expressionOf_restored`).

## Main definitions

* `Question.storedRule`: the stored form of one rule.
* `StoredRule.Reloadable`: what a stored rule needs to come back as itself.

## Main statements

* `Question.storedRule_restoreRule`: one stored rule comes back as itself exactly when it is
  reloadable.
* `Question.store_restore_store`: saving the rules read back gives the stored form again
  exactly when every stored rule is reloadable.
-/

namespace SurveyBranching

variable {σ : Type}

/-! ## Writing depends on texts and inner clauses -/

theorem infixOf_cons (pending : Option Clause) (x : Condition × Expr)
    (rest : List (Condition × Expr)) :
    infixOf pending (x :: rest) =
      pending.toList.map .operator ++ .operand x.2.render :: infixOf (some x.1.clause) rest :=
  rfl

/-- The infix form of written tests depends only on the tests' texts and on the clauses between
them: the clause of the last test is never written. -/
theorem infixOf_congr {p p' : List (Condition × Expr)} (hexpr : p.map (·.2) = p'.map (·.2))
    (hclauses : (p.map (·.1.clause)).dropLast = (p'.map (·.1.clause)).dropLast)
    (pending : Option Clause) : infixOf pending p = infixOf pending p' := by
  induction p generalizing p' pending with
  | nil => cases p' with
    | nil => rfl
    | cons => cases hexpr
  | cons x p ih =>
    cases p' with
    | nil => cases hexpr
    | cons x' p' =>
      simp only [List.map_cons, List.cons.injEq] at hexpr
      obtain ⟨hx, hp⟩ := hexpr
      cases p with
      | nil =>
        cases p' with
        | nil => simp only [infixOf, hx]
        | cons => cases hp
      | cons y p =>
        cases p' with
        | nil => cases hp
        | cons y' p' =>
          simp only [List.map_cons, List.dropLast_cons_cons, List.cons.injEq] at hclauses
          obtain ⟨hc, hrest⟩ := hclauses
          have hrest' : ((y :: p).map (·.1.clause)).dropLast =
              ((y' :: p').map (·.1.clause)).dropLast := by
            simpa only [List.map_cons] using hrest
          rw [infixOf_cons pending x, infixOf_cons pending x', hx, hc,
            ih (by simpa only [List.map_cons] using hp) hrest']

/-- The expression written for conditions depends only on the texts of the tests they write and
on the clauses between those tests. -/
theorem Question.expressionOf_congr {q : Question} {mode : SelectionMode}
    (hmode : q.kind.selectionMode = some mode) {seq : UInt32} {cs cs' : List Condition}
    (hexpr : (q.written mode seq cs).map (·.2) = (q.written mode seq cs').map (·.2))
    (hclauses : ((q.written mode seq cs).map (·.1.clause)).dropLast =
      ((q.written mode seq cs').map (·.1.clause)).dropLast) :
    q.expressionOf seq cs = q.expressionOf seq cs' := by
  unfold Question.expressionOf
  rw [hmode]
  dsimp only
  rw [Question.infixWords_eq, Question.infixWords_eq, infixOf_congr hexpr hclauses]

/-- Conditions that write no test write the empty expression. -/
theorem Question.expressionOf_eq_empty {q : Question} {seq : UInt32} {cs : List Condition}
    (h : ∀ mode, q.kind.selectionMode = some mode → q.written mode seq cs = []) :
    q.expressionOf seq cs = "" := by
  cases hmode : q.kind.selectionMode with
  | none => simp only [Question.expressionOf, hmode]
  | some mode =>
    rw [q.expressionOf_eq_render hmode, h mode hmode]
    rfl

/-! ## Reading a written test back -/

/-- **A written test reads back as a test that writes the same text**, when the question's
option ids are distinct. Reading picks the first option with the written value, which may not
be the option written; but no other option has its id, so it writes the same value. -/
theorem Question.testExpr?_of_testOf {q : Question} {mode : SelectionMode} {seq : UInt32}
    {c : Condition} {e : Expr} (hids : (q.options.map (·.id)).Nodup)
    (h : q.testExpr? mode seq c = some e) :
    ∃ r s v t, e = .test r s v ∧ q.testOf mode (r, s, v) = .ok t ∧
      ∀ c' : Condition, c'.test = t → q.testExpr? mode seq c' = some e := by
  rcases Question.testExpr?_eq_some h with ⟨oid, check, o, -, ho, rfl⟩ | ⟨cmp, k, -, rfl⟩
  · have hsome : (q.options.find? (·.value == o.value)).isSome :=
      List.find?_isSome.mpr ⟨o, List.mem_of_find?_eq_some ho, by simp⟩
    obtain ⟨o', ho'⟩ := Option.isSome_iff_exists.mp hsome
    have hval : o'.value = o.value := by simpa using List.find?_some ho'
    refine ⟨_, _, _, .option (some o'.id) (some check), rfl, ?_, fun c' hc' => ?_⟩
    · simp only [Question.testOf, OptionCheck.optionCheck_relation, Literal.content, ho']
    · simp only [Question.testExpr?, hc', find?_id_of_nodup hids (List.mem_of_find?_eq_some ho'),
        Option.map_some, hval]
  · refine ⟨_, _, _, .count (some cmp) (some k), rfl, ?_, fun c' hc' => ?_⟩
    · simp only [Question.testOf, CountComparison.countComparison_relation,
        Literal.count?_integer]
    · simp only [Question.testExpr?, hc']

section written

variable {q : Question} {mode : SelectionMode} {seq : UInt32}

/-- **The tests of written conditions read back as tests that write the same texts**, when the
option ids are distinct: conditions carrying the tests read, in order, write the same texts. -/
theorem Question.mapM_testOf_written (hids : (q.options.map (·.id)).Nodup) :
    ∀ p : List (Condition × Expr), (∀ x ∈ p, q.testExpr? mode seq x.1 = some x.2) →
      ∃ ts, (p.flatMap (·.2.leaves)).mapM (q.testOf mode) = .ok ts ∧
        ∀ R : List Condition, R.map (·.test) = ts → q.written mode seq R = R.zip (p.map (·.2)) := by
  intro p
  induction p with
  | nil =>
    intro _
    refine ⟨[], rfl, fun R hR => ?_⟩
    rw [List.map_eq_nil_iff.mp hR]
    rfl
  | cons x p ih =>
    intro hp
    obtain ⟨r, s, v, t, he, ht, hwrite⟩ :=
      Question.testExpr?_of_testOf hids (hp x List.mem_cons_self)
    obtain ⟨ts, hts, hR⟩ := ih fun y hy => hp y (List.mem_cons_of_mem x hy)
    refine ⟨t :: ts, ?_, fun R hRt => ?_⟩
    · rw [List.flatMap_cons, he, Expr.leaves, List.singleton_append, List.mapM_cons, ht, hts]
      rfl
    · cases R with
      | nil => cases hRt
      | cons c R =>
        simp only [List.map_cons, List.cons.injEq] at hRt
        rw [Question.written_cons_of_some (hwrite c hRt.1), hR R hRt.2]
        rfl

/-- A condition that writes a test is not empty. -/
theorem Question.isEmpty_of_testExpr? {c : Condition} {e : Expr}
    (h : q.testExpr? mode seq c = some e) : c.test.isEmpty = false := by
  rcases Question.testExpr?_eq_some h with ⟨oid, check, o, htest, -, -⟩ | ⟨cmp, k, htest, -⟩
  · rw [htest]; rfl
  · rw [htest]; rfl

/-- Conditions that write a test are not all empty. -/
theorem Question.all_isEmpty_of_written {cs : List Condition} (h : q.written mode seq cs ≠ []) :
    cs.all (·.test.isEmpty) = false := by
  obtain ⟨x, hx⟩ := List.exists_mem_of_ne_nil _ h
  obtain ⟨c, hc, hcx⟩ := List.mem_filterMap.mp hx
  obtain ⟨e, he, -⟩ := Option.map_eq_some_iff.mp hcx
  exact List.all_eq_false.mpr ⟨c, hc, by simp [Question.isEmpty_of_testExpr? he]⟩

/-- **The tests of a canonical tree read back as tests that write the same texts**, when the
option ids are distinct: one for each written test. -/
theorem Question.testsOf_canonicalTree_of_ids (hids : (q.options.map (·.id)).Nodup)
    {cs : List Condition} {T : Expr} (hT : canonicalTree (q.written mode seq cs) = some T) :
    ∃ ts, q.testsOf mode T = .ok (List.zip (T.joins ++ [.and]) ts) ∧
      ts.length = (q.written mode seq cs).length ∧
      ∀ R : List Condition, R.map (·.test) = ts →
        q.written mode seq R = R.zip ((q.written mode seq cs).map (·.2)) := by
  have htests : ∀ x ∈ q.written mode seq cs, x.2.isTest := fun _ hx =>
    Question.isTest_of_mem_written hx
  obtain ⟨ts, hts, hwritten⟩ := Question.mapM_testOf_written hids (q.written mode seq cs)
    fun _ hx => Question.testExpr?_of_mem_written hx
  refine ⟨ts, ?_, ?_, hwritten⟩
  · rw [Question.testsOf_eq, leaves_canonicalTree htests hT, hts]
    rfl
  · rw [length_of_mapM_eq_ok hts, Expr.length_flatMap_leaves htests]

/-- Conditions that write, one for one, the texts of written conditions, with the same clauses
between them, write the same expression. -/
theorem Question.expressionOf_eq_of_written (hmode : q.kind.selectionMode = some mode)
    {cs R : List Condition} (hRW : q.written mode seq R = R.zip ((q.written mode seq cs).map (·.2)))
    (hlen : R.length = (q.written mode seq cs).length)
    (hclauses : (R.map (·.clause)).dropLast = ((q.written mode seq cs).map (·.1.clause)).dropLast) :
    q.expressionOf seq R = q.expressionOf seq cs := by
  refine Question.expressionOf_congr hmode ?_ ?_
  · rw [hRW, List.map_snd_zip (by simp [hlen])]
  · have hfst : (q.written mode seq R).map (·.1) = R := by
      rw [hRW, List.map_fst_zip (by simp [hlen])]
    calc ((q.written mode seq R).map (·.1.clause)).dropLast
        = (((q.written mode seq R).map (·.1)).map (·.clause)).dropLast := by
          simp [Function.comp_def]
      _ = ((q.written mode seq cs).map (·.1.clause)).dropLast := by rw [hfst, hclauses]

/-- **Conditions written as a tree the reader allows read back as conditions that write the
same expression**, when the option ids are distinct; they write at least one test. -/
theorem Question.expressionOf_restored (hids : (q.options.map (·.id)).Nodup)
    (hmode : q.kind.selectionMode = some mode) (limits : Limits) (ids : IdSupply σ)
    {cs : List Condition} {T : Expr} (hT : canonicalTree (q.written mode seq cs) = some T)
    (hheight : T.logicalHeight ≤ limits.maxExpressionDepth) :
    ∃ R ids', q.conditionsOf limits ids T.render = .ok (R, ids') ∧ q.written mode seq R ≠ [] ∧
      q.expressionOf seq R = T.render := by
  set W := q.written mode seq cs with hW
  have htests : ∀ x ∈ W, x.2.isTest := fun _ hx => Question.isTest_of_mem_written hx
  have hne : W ≠ [] := fun h => by rw [canonicalTree_eq_none.mpr h] at hT; cases hT
  obtain ⟨ts, htestsOf, hlen, hwritten⟩ := Question.testsOf_canonicalTree_of_ids hids hT
  rw [← hW] at hlen hwritten
  -- The tree has one test for each written condition, and a join between each two.
  have hjoins : T.joins.length + 1 = W.length := by
    rw [Expr.length_joins T, Question.length_leaves_canonicalTree hT]
  set R := (ids.name (List.zip (T.joins ++ [.and]) ts)).1 with hR
  have hRtests : R.map (·.test) = ts := by
    rw [hR, IdSupply.map_test_name, List.map_snd_zip (by simp; omega)]
  have hRclauses : R.map (·.clause) = T.joins ++ [.and] := by
    rw [hR, IdSupply.map_clause_name, List.map_fst_zip (by simp; omega)]
  have hRlen : R.length = W.length := by
    rw [← hlen, ← hRtests, List.length_map]
  have hRW := hwritten R hRtests
  refine ⟨R, (ids.name (List.zip (T.joins ++ [.and]) ts)).2, ?_, ?_, ?_⟩
  · rw [q.conditionsOf_render hmode limits ids (Question.readable_canonicalTree hT) hheight,
      htestsOf]
    rfl
  · rw [hRW]
    intro h
    have := congrArg List.length h
    simp only [List.length_zip, List.length_map, hRlen, Nat.min_self, List.length_nil] at this
    exact hne (List.length_eq_zero_iff.mp this)
  · have hsame : q.expressionOf seq cs = T.render := by
      rw [q.expressionOf_eq_render hmode, ← hW, hT]
      rfl
    rw [← hsame]
    exact Question.expressionOf_eq_of_written hmode hRW hRlen
      (by rw [hRclauses, List.dropLast_concat, joins_canonicalTree htests hT])

end written

/-! ## Texts of trees -/

namespace Expr

/-- The text of a tree is never empty. -/
theorem render_ne_empty (e : Expr) : e.render ≠ "" := by
  intro h
  have hblank := isBlankText_render e
  rw [h] at hblank
  exact absurd hblank (by decide)

/-- **A readable tree is the only readable tree with its text**: reading gives it back. -/
theorem eq_of_render_eq {e e' : Expr} (he : e.Readable) (he' : e'.Readable)
    (h : e.render = e'.render) : e = e' := by
  have hread := parse_render he (max e.logicalHeight e'.logicalHeight)
  have hread' := parse_render he' (max e.logicalHeight e'.logicalHeight)
  rw [if_pos (Nat.le_max_left _ _), h] at hread
  rw [if_pos (Nat.le_max_right _ _)] at hread'
  exact Except.ok.inj (hread.symm.trans hread')

end Expr

/-! ## One stored rule -/

/-- The stored form of one rule: its id, the expression its conditions write, and its
destination. -/
def Question.storedRule (q : Question) (seq : UInt32) (r : Rule) : StoredRule :=
  ⟨some r.id, q.expressionOf seq r.conditions, r.destination⟩

theorem Question.store_rules (q : Question) (seq : UInt32) (rs : RuleSet) :
    (q.store seq rs).rules = (rs.rules.filter (!·.isBlank)).map (q.storedRule seq) :=
  rfl

/-- A stored rule comes back as itself when every tree written as its expression has no more
logical levels than `limit`, and when its expression is empty it has a destination: reading an
empty expression gives one empty condition, kept only for the sake of a destination. -/
def StoredRule.Reloadable (limit : Nat) (sr : StoredRule) : Prop :=
  (sr.expression = "" → sr.destination.target.isSome) ∧
    ∀ e : Expr, e.Readable → e.render = sr.expression → e.logicalHeight ≤ limit

namespace StoredRule

variable (limit : Nat) (id : Option String) (dest : Destination)

theorem reloadable_empty : Reloadable limit ⟨id, "", dest⟩ ↔ dest.target.isSome := by
  constructor
  · intro h
    exact h.1 rfl
  · intro h
    exact ⟨fun _ => h, fun e _ hr => absurd hr e.render_ne_empty⟩

theorem reloadable_render {T : Expr} (hT : T.Readable) :
    Reloadable limit ⟨id, T.render, dest⟩ ↔ T.logicalHeight ≤ limit := by
  constructor
  · intro h
    exact h.2 T hT rfl
  · intro h
    refine ⟨fun hr => absurd hr T.render_ne_empty, fun e he hr => ?_⟩
    rw [Expr.eq_of_render_eq he hT hr]
    exact h

end StoredRule

section restore

variable {q : Question} {limits : Limits} {ids : IdSupply σ} {id : String} {expression : String}
  {dest : Destination}

/-- A stored rule whose expression reads as no conditions comes back with one empty condition. -/
theorem Question.restoreRule_of_nil (h : (q.conditionsOrNone limits ids expression).1 = []) :
    ∃ cid, (q.restoreRule limits ids ⟨some id, expression, dest⟩).1 =
      ⟨id, [⟨cid, .and, .empty⟩], dest⟩ := by
  rcases hc : q.conditionsOrNone limits ids expression with ⟨conds, ids'⟩
  rw [hc] at h
  dsimp only at h
  subst h
  refine ⟨ids'.draw.1, ?_⟩
  simp only [Question.restoreRule, hc]

/-- A stored rule whose expression reads as some conditions comes back with them. -/
theorem Question.restoreRule_of_ne_nil (h : (q.conditionsOrNone limits ids expression).1 ≠ []) :
    (q.restoreRule limits ids ⟨some id, expression, dest⟩).1 =
      ⟨id, (q.conditionsOrNone limits ids expression).1, dest⟩ := by
  rcases hc : q.conditionsOrNone limits ids expression with ⟨conds, ids'⟩
  rw [hc] at h
  dsimp only at h
  obtain ⟨c, cs, rfl⟩ := List.exists_cons_of_ne_nil h
  simp only [Question.restoreRule, hc]

theorem Question.conditionsOrNone_of_isBlankText (h : Text.isBlankText expression = true) :
    q.conditionsOrNone limits ids expression = ([], ids) := by
  simp only [Question.conditionsOrNone, Question.conditionsOf, h, if_true]

/-- The text of a tree deeper than the reader allows reads as no conditions. -/
theorem Question.conditionsOrNone_render_of_lt {e : Expr} (he : e.Readable)
    (hdeep : limits.maxExpressionDepth < e.logicalHeight) :
    q.conditionsOrNone limits ids e.render = ([], ids) := by
  unfold Question.conditionsOrNone Question.conditionsOf
  rw [Expr.isBlankText_render]
  cases q.kind.selectionMode with
  | none => rfl
  | some mode =>
    rw [Expr.parse_render he, if_neg (Nat.not_le.mpr hdeep)]
    rfl

end restore

/-! ## Reloading one stored rule -/

/-- The written expression is empty, or the text of the canonical tree of the written tests. -/
theorem Question.expressionOf_eq_empty_or (q : Question) (seq : UInt32) (cs : List Condition) :
    q.expressionOf seq cs = "" ∨ ∃ mode T, q.kind.selectionMode = some mode ∧
      canonicalTree (q.written mode seq cs) = some T ∧ q.expressionOf seq cs = T.render := by
  cases hmode : q.kind.selectionMode with
  | none => exact .inl (by simp only [Question.expressionOf, hmode])
  | some mode =>
    cases hT : canonicalTree (q.written mode seq cs) with
    | none => exact .inl (by rw [q.expressionOf_eq_render hmode, hT]; rfl)
    | some T => exact .inr ⟨mode, T, rfl, hT, by rw [q.expressionOf_eq_render hmode, hT]; rfl⟩

section reload

variable {q : Question} (limits : Limits) (ids : IdSupply σ) (seq : UInt32)

/-- A stored rule whose expression reads as no conditions comes back with one empty condition:
blank unless it has a destination, and saved with the empty expression. -/
theorem Question.restoreRule_storedRule_of_nil {r : Rule}
    (h : (q.conditionsOrNone limits ids (q.expressionOf seq r.conditions)).1 = []) :
    (q.restoreRule limits ids (q.storedRule seq r)).1.isBlank = !r.destination.target.isSome ∧
      q.storedRule seq (q.restoreRule limits ids (q.storedRule seq r)).1 =
        ⟨some r.id, "", r.destination⟩ := by
  obtain ⟨cid, hr'⟩ : ∃ cid, (q.restoreRule limits ids (q.storedRule seq r)).1 =
      ⟨r.id, [⟨cid, .and, .empty⟩], r.destination⟩ := Question.restoreRule_of_nil h
  have hwritten : q.expressionOf seq [⟨cid, .and, .empty⟩] = "" :=
    Question.expressionOf_eq_empty fun _ _ => rfl
  rw [hr']
  exact ⟨by simp [Rule.isBlank, Test.isEmpty], by rw [Question.storedRule, hwritten]⟩

/-- A rule whose conditions write nothing comes back as itself exactly when it has a
destination. -/
theorem Question.storedRule_restoreRule_of_empty {r : Rule}
    (h : q.expressionOf seq r.conditions = "") :
    ((q.restoreRule limits ids (q.storedRule seq r)).1.isBlank = false ∧
      q.storedRule seq (q.restoreRule limits ids (q.storedRule seq r)).1 = q.storedRule seq r) ↔
      r.destination.target.isSome := by
  obtain ⟨hblank, hstored⟩ := Question.restoreRule_storedRule_of_nil limits ids seq
    (by rw [h, Question.conditionsOrNone_of_isBlankText rfl])
  rw [hblank, hstored, Question.storedRule, h]
  simp

/-- **A stored rule comes back as itself exactly when it is reloadable**, for a question whose
option ids are distinct: the rule read back is kept by the next save and saved as it was. -/
theorem Question.storedRule_restoreRule (hids : (q.options.map (·.id)).Nodup) (r : Rule) :
    ((q.restoreRule limits ids (q.storedRule seq r)).1.isBlank = false ∧
      q.storedRule seq (q.restoreRule limits ids (q.storedRule seq r)).1 = q.storedRule seq r) ↔
      (q.storedRule seq r).Reloadable limits.maxExpressionDepth := by
  -- A rule writes nothing, a tree too deep to read, or a tree that reads back.
  rcases q.expressionOf_eq_empty_or seq r.conditions with hempty | ⟨mode, T, hmode, hT, hexpr⟩
  · rw [Question.storedRule_restoreRule_of_empty limits ids seq hempty, Question.storedRule,
      hempty, StoredRule.reloadable_empty]
  have hreadable := Question.readable_canonicalTree hT
  rw [show (q.storedRule seq r).Reloadable limits.maxExpressionDepth ↔
      T.logicalHeight ≤ limits.maxExpressionDepth by
    rw [Question.storedRule, hexpr, StoredRule.reloadable_render _ _ _ hreadable]]
  by_cases hheight : T.logicalHeight ≤ limits.maxExpressionDepth
  · obtain ⟨R, ids', hdec, hwritten, hRexpr⟩ :=
      Question.expressionOf_restored hids hmode limits ids hT hheight
    have hcond : q.conditionsOrNone limits ids (q.expressionOf seq r.conditions) = (R, ids') := by
      simp only [Question.conditionsOrNone, hexpr, hdec]
    have hR : R ≠ [] := by
      rintro rfl
      exact hwritten rfl
    have hr' : (q.restoreRule limits ids (q.storedRule seq r)).1 = ⟨r.id, R, r.destination⟩ := by
      rw [Question.storedRule, Question.restoreRule_of_ne_nil (by rw [hcond]; exact hR), hcond]
    rw [hr', Question.storedRule, Question.storedRule, hRexpr, hexpr]
    simp [Rule.isBlank, Question.all_isEmpty_of_written hwritten, hheight]
  · obtain ⟨-, hstored⟩ := Question.restoreRule_storedRule_of_nil limits ids seq
      (by rw [hexpr, Question.conditionsOrNone_render_of_lt hreadable (Nat.lt_of_not_le hheight)])
    -- Read back with one empty condition, the rule is saved with an empty expression.
    rw [hstored, Question.storedRule, hexpr]
    simp only [hheight, iff_false, not_and]
    intro _ h
    exact T.render_ne_empty (congrArg StoredRule.expression h).symm

end reload

/-! ## All stored rules -/

section restore

variable (q : Question) (limits : Limits)

theorem Question.restore_rules_cons (ids : IdSupply σ) (sr : StoredRule)
    (L : List StoredRule) :
    (q.restore limits ids (sr :: L)).1.rules =
      (q.restoreRule limits ids sr).1 :: (q.restore limits (q.restoreRule limits ids sr).2 L).1.rules :=
  rfl

/-- Reading stored rules back gives one rule for each. -/
theorem Question.length_restore (ids : IdSupply σ) (L : List StoredRule) :
    (q.restore limits ids L).1.rules.length = L.length := by
  induction L generalizing ids with
  | nil => rfl
  | cons sr L ih => rw [Question.restore_rules_cons, List.length_cons, ih, List.length_cons]

end restore

variable {q : Question} (hids : (q.options.map (·.id)).Nodup) (limits : Limits) (seq : UInt32)
include hids

/-- Saving the rules read back from the stored forms of some rules gives those stored forms
again exactly when each of them is reloadable. A rule read back and left out of the save makes
the saved list shorter; one kept but saved differently changes its place in the list. -/
theorem Question.storedRules_restore (ids : IdSupply σ) (rs : List Rule) :
    ((q.restore limits ids (rs.map (q.storedRule seq))).1.rules.filter (!·.isBlank)).map
        (q.storedRule seq) = rs.map (q.storedRule seq) ↔
      ∀ r ∈ rs, (q.storedRule seq r).Reloadable limits.maxExpressionDepth := by
  induction rs generalizing ids with
  | nil => simp [Question.restore]
  | cons r rs ih =>
    have hstep := Question.storedRule_restoreRule limits ids seq hids r
    rw [List.map_cons, Question.restore_rules_cons, List.forall_mem_cons]
    cases hb : (q.restoreRule limits ids (q.storedRule seq r)).1.isBlank with
    | false =>
      rw [List.filter_cons_of_pos (by simp [hb]), List.map_cons, List.cons.injEq, ih, ← hstep, hb]
      simp
    | true =>
      rw [List.filter_cons_of_neg (by simp [hb])]
      constructor
      · -- One rule fewer is saved than was stored.
        intro h
        have hlen := congrArg List.length h
        have hle := List.length_filter_le (!·.isBlank)
          (q.restore limits (q.restoreRule limits ids (q.storedRule seq r)).2
            (rs.map (q.storedRule seq))).1.rules
        rw [Question.length_restore, List.length_map] at hle
        simp only [List.length_map, List.length_cons] at hlen
        omega
      · rintro ⟨hr, -⟩
        have := (hstep.mpr hr).1
        rw [hb] at this
        cases this

omit hids in
theorem StoredRules.eq_iff_rules (a b : StoredRules) : a = b ↔ a.rules = b.rules := by
  cases a
  cases b
  simp

/-- **Saving is stable under reloading.** For a question whose options have distinct ids,
reading the stored form of its rules back and saving the result gives the same stored form,
rule for rule (ids, expressions and destinations), exactly when every stored rule is
reloadable: any tree written as its expression is within the reader's depth, and a rule saved
with an empty expression has a destination. -/
theorem Question.store_restore_store (ids : IdSupply σ) (rs : RuleSet) :
    q.store seq (q.restore limits ids (q.store seq rs).rules).1 = q.store seq rs ↔
      ∀ sr ∈ (q.store seq rs).rules, sr.Reloadable limits.maxExpressionDepth := by
  rw [StoredRules.eq_iff_rules, Question.store_rules, Question.store_rules, List.forall_mem_map]
  exact Question.storedRules_restore hids limits seq ids _

omit hids in
/-- A multiple-choice question whose first two options share a value: one rule writes an `or`
of two tests and goes to a question, the other names an option that is gone and goes to
another. -/
theorem Question.store_restore_store_sharedValue :
    let q : Question := ⟨"q1", .multiple, "", [⟨"a1", "A"⟩, ⟨"a2", "A"⟩, ⟨"a3", "B"⟩], none⟩
    let rs : RuleSet := ⟨[⟨"r1", [⟨"c1", .or, .option (some "a2") (some .selected)⟩,
        ⟨"c2", .and, .count (some .greater) (some 1)⟩], ⟨some .question, some "q2"⟩⟩,
      ⟨"r2", [⟨"c3", .and, .option (some "gone") (some .selected)⟩], ⟨some .question, some "q3"⟩⟩]⟩
    (q.options.map (·.id)).Nodup ∧
      (q.store 1 (q.restore {} (IdSupply.sequential "n") (q.store 1 rs).rules).1 = q.store 1 rs ↔
        ∀ sr ∈ (q.store 1 rs).rules, sr.Reloadable ({} : Limits).maxExpressionDepth) :=
  ⟨by decide, Question.store_restore_store (by decide) {} 1 _ _⟩

omit hids in
/-- Options that share an id: a test on option `j`, of value `V`, reads back as the first option
of value `V`, whose id `i` writes the value `W` of the first option. The rule is reloadable,
yet it is saved differently. -/
theorem Question.store_restore_store_repeatedId :
    let q : Question := ⟨"q1", .single, "", [⟨"i", "W"⟩, ⟨"i", "V"⟩, ⟨"j", "V"⟩], none⟩
    let rs : RuleSet := ⟨[⟨"r1", [⟨"c1", .and, .option (some "j") (some .selected)⟩],
      ⟨some .question, some "q2"⟩⟩]⟩
    (∀ sr ∈ (q.store 1 rs).rules, sr.Reloadable ({} : Limits).maxExpressionDepth) ∧
      q.store 1 (q.restore {} (IdSupply.sequential "id-") (q.store 1 rs).rules).1 ≠
        q.store 1 rs := by
  intro q rs
  let T : Expr := .test .eq (.value 1) (.text "V")
  have hT : T.Readable := trivial
  have hstore : q.store 1 rs = ⟨[⟨some "r1", T.render, ⟨some .question, some "q2"⟩⟩]⟩ := by
    decide
  have hdec : q.conditionsOf {} (IdSupply.sequential "id-") T.render =
      .ok ([⟨"id-1", .and, .option (some "i") (some .selected)⟩], .ofCounter ⟨"id-", 2⟩) := by
    rw [q.conditionsOf_render rfl {} _ hT (by decide)]
    rfl
  have hrestore : (q.restore {} (IdSupply.sequential "id-") (q.store 1 rs).rules).1 =
      ⟨[⟨"r1", [⟨"id-1", .and, .option (some "i") (some .selected)⟩],
        ⟨some .question, some "q2"⟩⟩]⟩ := by
    rw [hstore]
    simp [Question.restore, Question.restoreRule, Question.conditionsOrNone, hdec]
  refine ⟨?_, ?_⟩
  · rw [hstore]
    intro sr hsr
    rw [List.mem_singleton] at hsr
    subst hsr
    exact (StoredRule.reloadable_render _ _ _ hT).mpr (Nat.zero_le _)
  · rw [hrestore, hstore]
    decide

end SurveyBranching
