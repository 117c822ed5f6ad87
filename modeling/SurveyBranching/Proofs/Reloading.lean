import SurveyBranching.Proofs.Storing
import SurveyBranching.Proofs.Evaluation
import Mathlib.Data.List.Find
/-!
# Reloading saved rules keeps where they send the respondent

Saving a question's rules leaves out the blank ones and writes the conditions of every other
rule as one expression; reading them back gives each rule its id and destination again, with
the conditions read off its expression. When every condition of a rule writes a test, and the
rule has no more conditions than the reader allows levels plus one, the conditions read back
have the same tests and the same clauses between them, so the rule holds for the same answers.
A rule with no conditions comes back with one empty condition and, like a blank rule, never
holds. The destination depends on nothing but whether each rule holds and where it goes, so
for every set of answers the reloaded question sends the respondent where it did.

## Main definitions

* `Rule.outcome`: what a rule decides for some answers.

## Main statements

* `Rule.matches_congr`: a rule's reduction reads only its tests and the clauses between them.
* `Question.destination?_eq_outcomes`: the destination reads only what each rule decides.
* `Question.destination?_filter`: rules that do not hold can be left out.
* `Question.outcome_restoreRule_storedRule`: a saved rule read back decides as it did.
* `Question.destination?_restore_store`: reloading saved rules keeps every destination.
-/

namespace SurveyBranching

variable {σ : Type}

/-! ## What a rule's truth reads -/

section holds

variable (a : Answers)

/-- Conditions with the same tests hold alike. -/
theorem map_holds_of_map_test : ∀ {cs cs' : List Condition},
    cs.map (·.test) = cs'.map (·.test) → cs.map (·.holds a) = cs'.map (·.holds a)
  | [], [], _ => rfl
  | [], _ :: _, h => absurd h (by simp)
  | _ :: _, [], h => absurd h (by simp)
  | c :: cs, c' :: cs', h => by
    rw [List.map_cons, List.map_cons, List.cons.injEq] at h
    rw [List.map_cons, List.map_cons, map_holds_of_map_test h.2]
    unfold Condition.holds
    rw [h.1]

/-- A rule's chain reads only its conditions' truth values and the clauses of all of them but
the last. -/
theorem Rule.chain?_congr {r r' : Rule}
    (hholds : r.conditions.map (·.holds a) = r'.conditions.map (·.holds a))
    (hclauses : (r.conditions.map (·.clause)).dropLast = (r'.conditions.map (·.clause)).dropLast) :
    r.chain? a = r'.chain? a := by
  unfold Rule.chain?
  rcases hr : r.conditions with _ | ⟨c, cs⟩ <;> rcases hr' : r'.conditions with _ | ⟨c', cs'⟩
  · rfl
  · rw [hr, hr'] at hholds
    exact absurd hholds (by simp)
  · rw [hr, hr'] at hholds
    exact absurd hholds (by simp)
  · rw [hr, hr', List.map_cons, List.map_cons, List.cons.injEq] at hholds
    rw [hr, hr'] at hclauses
    dsimp only
    rw [zip_dropLast ((c :: cs).map (·.clause)) _ (by simp),
      zip_dropLast ((c' :: cs').map (·.clause)) _ (by simp), hclauses, hholds.1, hholds.2]

/-- **A rule's reduction reads only its conditions' tests and the clauses between them**: the
clause of the last condition joins nothing. -/
theorem Rule.matches_congr (k : Nat) {r r' : Rule}
    (htests : r.conditions.map (·.test) = r'.conditions.map (·.test))
    (hclauses : (r.conditions.map (·.clause)).dropLast = (r'.conditions.map (·.clause)).dropLast) :
    r.matches k a = r'.matches k a := by
  rw [Rule.matches_eq_chain, Rule.matches_eq_chain,
    Rule.chain?_congr a (map_holds_of_map_test a htests) hclauses]

/-- A rule none of whose conditions holds does not hold. -/
theorem Rule.holds_eq_false_of_forall (k : Nat) {r : Rule}
    (h : ∀ c ∈ r.conditions, c.holds a = false) : r.holds k a = false := by
  rw [Rule.holds_eq_false_iff, Rule.matches_eq_runs]
  split
  · simp
  split
  · simp
  -- A run whose conditions all hold has one condition at least.
  intro hok
  obtain ⟨run, hrun, hall⟩ := List.any_eq_true.mp (Except.ok.inj hok)
  obtain ⟨c, hc⟩ := List.exists_mem_of_ne_nil run (List.ne_nil_of_mem_splitBy hrun)
  have hmem : c ∈ r.conditions := by
    rw [← List.flatten_splitBy (fun c _ => c.clause == .and) r.conditions]
    exact List.mem_flatten.mpr ⟨run, hrun, hc⟩
  have hholds : c.holds a = true := List.all_eq_true.mp hall c hc
  rw [h c hmem] at hholds
  exact Bool.false_ne_true hholds

/-- A blank rule never holds: it tests nothing. -/
theorem Rule.holds_of_isBlank (k : Nat) {r : Rule} (h : r.isBlank = true) :
    r.holds k a = false := by
  refine Rule.holds_eq_false_of_forall a k fun c hc => ?_
  have hempty : c.test.isEmpty = true :=
    List.all_eq_true.mp (Bool.and_eq_true_iff.mp h).1 c hc
  obtain ⟨id, clause, test⟩ := c
  cases test with
  | empty => rfl
  | option => exact absurd hempty (by simp [Test.isEmpty])
  | count => exact absurd hempty (by simp [Test.isEmpty])

end holds

/-! ## What a question's rules decide -/

/-- What a rule decides for some answers: whether it holds, and where it sends the
respondent. -/
def Rule.outcome (k : Nat) (a : Answers) (r : Rule) : Bool × Destination :=
  (r.holds k a, r.destination)

/-- **The destination reads only what each rule decides**: it is where the last rule that holds
sends the respondent. -/
theorem Question.destination?_eq_outcomes (limits : Limits) (a : Answers) (q : Question) :
    q.destination? limits a =
      (q.rules.bind fun rs =>
        (rs.rules.map (·.outcome limits.maxReductionIterations a)).reverse.find? (·.1)).map
        (·.2) := by
  unfold Question.destination? Question.firstMatch?
  cases q.rules with
  | none => rfl
  | some rs =>
    rw [Option.bind_some, Option.bind_some, ← List.map_reverse, List.find?_map, Option.map_map]
    rfl

/-- **Rules that do not hold can be left out**: keeping every rule that holds keeps the
destination. -/
theorem Question.destination?_filter (limits : Limits) (a : Answers) {q : Question}
    {rs : RuleSet} (hq : q.rules = some rs) (p : Rule → Bool)
    (hp : ∀ r ∈ rs.rules, r.holds limits.maxReductionIterations a = true → p r = true) :
    { q with rules := some ⟨rs.rules.filter p⟩ }.destination? limits a =
      q.destination? limits a := by
  simp only [Question.destination?, Question.firstMatch?, hq, Option.bind_some,
    ← List.filter_reverse, List.find?_filter]
  congr 1
  refine List.find?_congr fun r hr => ?_
  cases hholds : r.holds limits.maxReductionIterations a
  · simp
  · simp [hp r (List.mem_reverse.mp hr) hholds]

/-! ## Reloading saved rules -/

section reload

variable {q : Question} {mode : SelectionMode} {seq : UInt32}

/-- Conditions that all write a test are all written, in order. -/
theorem Question.map_fst_written {cs : List Condition}
    (h : ∀ c ∈ cs, (q.testExpr? mode seq c).isSome) : (q.written mode seq cs).map (·.1) = cs := by
  induction cs with
  | nil => rfl
  | cons c cs ih =>
    obtain ⟨e, he⟩ := Option.isSome_iff_exists.mp (h c List.mem_cons_self)
    rw [Question.written_cons_of_some he, List.map_cons,
      ih fun c' hc' => h c' (List.mem_cons_of_mem c hc')]

variable (hmode : q.kind.selectionMode = some mode) (hvals : (q.options.map (·.value)).Nodup)
  (limits : Limits)
include hmode hvals

/-- Conditions that all write a test, and not more of them than the reader allows levels plus
one, read back from their expression as themselves, named from the supply. -/
theorem Question.conditionsOrNone_expressionOf (ids : IdSupply σ) {cs : List Condition}
    (hall : ∀ c ∈ cs, (q.testExpr? mode seq c).isSome)
    (hlen : cs.length ≤ limits.maxExpressionDepth + 1) :
    (q.conditionsOrNone limits ids (q.expressionOf seq cs)).1 = (ids.name (readBack cs)).1 := by
  have hwritten := Question.map_fst_written hall
  have hwlen : (q.written mode seq cs).length ≤ limits.maxExpressionDepth + 1 := by
    have h := congrArg List.length hwritten
    rw [List.length_map] at h
    omega
  have hdec := q.conditionsOf_expressionOf_eq hmode hvals limits ids seq cs hwlen
  rw [hwritten] at hdec
  simp only [Question.conditionsOrNone, hdec]

/-- **A saved rule read back decides as it did**, when every condition of it writes a test and
it has no more conditions than the reader allows levels plus one: it keeps its destination, and
it holds for the same answers. -/
theorem Question.outcome_restoreRule_storedRule (ids : IdSupply σ) {r : Rule}
    (hall : ∀ c ∈ r.conditions, (q.testExpr? mode seq c).isSome)
    (hlen : r.conditions.length ≤ limits.maxExpressionDepth + 1) (k : Nat) (a : Answers) :
    (q.restoreRule limits ids (q.storedRule seq r)).1.outcome k a = r.outcome k a := by
  have hcond := Question.conditionsOrNone_expressionOf hmode hvals limits ids hall hlen
  have hlenR : (ids.name (readBack r.conditions)).1.length = r.conditions.length := by
    have h := congrArg List.length (ids.map_test_name (readBack r.conditions))
    rw [List.length_map, List.length_map, length_readBack] at h
    exact h
  by_cases hnil : r.conditions = []
  · -- With no conditions the rule comes back with one empty one; neither form holds.
    obtain ⟨cid, hr'⟩ : ∃ cid, (q.restoreRule limits ids (q.storedRule seq r)).1 =
        ⟨r.id, [⟨cid, .and, .empty⟩], r.destination⟩ :=
      Question.restoreRule_of_nil (by rw [hcond, ← List.length_eq_zero_iff, hlenR, hnil]; rfl)
    rw [hr', Rule.outcome, Rule.outcome,
      Rule.holds_eq_false_of_forall a k (by simp [Condition.holds]),
      Rule.holds_eq_false_of_forall a k (by simp [hnil])]
  · -- The conditions read back carry the same tests and the same clauses between them.
    have hne : (q.conditionsOrNone limits ids (q.expressionOf seq r.conditions)).1 ≠ [] := by
      rw [hcond, ← List.length_pos_iff, hlenR]
      exact List.length_pos_iff.mpr hnil
    have htests : (ids.name (readBack r.conditions)).1.map (·.test) =
        r.conditions.map (·.test) := by
      rw [IdSupply.map_test_name, map_snd_readBack]
    have hclauses : ((ids.name (readBack r.conditions)).1.map (·.clause)).dropLast =
        (r.conditions.map (·.clause)).dropLast := by
      rw [IdSupply.map_clause_name, dropLast_map_fst_readBack]
    have hmatches : Rule.matches k a ⟨r.id, (ids.name (readBack r.conditions)).1, r.destination⟩ =
        r.matches k a :=
      Rule.matches_congr a k htests hclauses
    rw [Question.storedRule, Question.restoreRule_of_ne_nil hne, hcond]
    simp only [Rule.outcome, Rule.holds, hmatches]

/-- Saved rules read back, in order, each decide as they did. -/
theorem Question.map_outcome_restore (k : Nat) (a : Answers) (rs : List Rule)
    (h : ∀ r ∈ rs, (∀ c ∈ r.conditions, (q.testExpr? mode seq c).isSome) ∧
      r.conditions.length ≤ limits.maxExpressionDepth + 1) (ids : IdSupply σ) :
    (q.restore limits ids (rs.map (q.storedRule seq))).1.rules.map (·.outcome k a) =
      rs.map (·.outcome k a) := by
  induction rs generalizing ids with
  | nil => rfl
  | cons r rs ih =>
    obtain ⟨hall, hlen⟩ := h r List.mem_cons_self
    rw [List.map_cons, Question.restore_rules_cons, List.map_cons, List.map_cons,
      Question.outcome_restoreRule_storedRule hmode hvals limits ids hall hlen,
      ih (fun r' hr' => h r' (List.mem_cons_of_mem r hr'))]

end reload

/-- **Reloading saved rules keeps where every set of answers leads.** For a question with a
selection mode and distinct option values, and rules each either blank or with every condition
writing a test, and each with no more conditions than the reader allows levels plus one: the
question with its rules saved and read back sends the respondent where it did. -/
theorem Question.destination?_restore_store {q : Question} {mode : SelectionMode}
    (hmode : q.kind.selectionMode = some mode) (hvals : (q.options.map (·.value)).Nodup)
    {sl : RuleSet} (hrules : q.rules = some sl) (seq : UInt32) (ids : IdSupply σ) (limits : Limits)
    (hwritten : ∀ r ∈ sl.rules,
      r.isBlank = true ∨ ∀ c ∈ r.conditions, (q.testExpr? mode seq c).isSome)
    (hlen : ∀ r ∈ sl.rules, r.conditions.length ≤ limits.maxExpressionDepth + 1) (a : Answers) :
    { q with rules := some (q.restore limits ids (q.store seq sl).rules).1 }.destination?
        limits a = q.destination? limits a := by
  have hkept : ∀ r ∈ sl.rules.filter (!·.isBlank),
      (∀ c ∈ r.conditions, (q.testExpr? mode seq c).isSome) ∧
        r.conditions.length ≤ limits.maxExpressionDepth + 1 := by
    intro r hr
    obtain ⟨hmem, hblank⟩ := List.mem_filter.mp hr
    refine ⟨(hwritten r hmem).resolve_left ?_, hlen r hmem⟩
    simpa using hblank
  -- A blank rule never holds, so leaving the blank rules out keeps the destination.
  have hholds : ∀ r ∈ sl.rules,
      r.holds limits.maxReductionIterations a = true → (!r.isBlank) = true := by
    intro r _ h
    cases hb : r.isBlank
    · rfl
    · rw [Rule.holds_of_isBlank a _ hb] at h
      exact absurd h Bool.false_ne_true
  rw [← Question.destination?_filter limits a hrules _ hholds, Question.destination?_eq_outcomes,
    Question.destination?_eq_outcomes]
  simp only [Option.bind_some]
  rw [Question.store_rules,
    Question.map_outcome_restore hmode hvals limits _ a _ hkept ids]

/-- A single-choice question with a blank rule, a rule on the first option or on the count of
options picked whose last clause is `or`, and a rule with no conditions: the blank rule is
left out, the last clause comes back as `and`, and the rule with no conditions comes back with
an empty one. -/
theorem Question.destination?_restore_store_threeRules :
    let sl : RuleSet := ⟨[⟨"r1", [⟨"c1", .and, .empty⟩], {}⟩,
      ⟨"r2", [⟨"c2", .or, .option (some "a1") (some .selected)⟩,
        ⟨"c3", .or, .count (some .greater) (some 1)⟩], ⟨some .question, some "q2"⟩⟩,
      ⟨"r3", [], ⟨some .question, some "q3"⟩⟩]⟩
    let q : Question := ⟨"q1", .single, "", [⟨"a1", "A"⟩, ⟨"a2", "B"⟩], some sl⟩
    let a : Answers := Keyed.ofList [("a1", .selected)]
    q.kind.selectionMode = some .single ∧ (q.options.map (·.value)).Nodup ∧
      (∀ r ∈ sl.rules,
        r.isBlank = true ∨ ∀ c ∈ r.conditions, (q.testExpr? .single 2 c).isSome) ∧
      (∀ r ∈ sl.rules, r.conditions.length ≤ ({} : Limits).maxExpressionDepth + 1) ∧
      { q with
        rules := some (q.restore {} (IdSupply.sequential "n") (q.store 2 sl).rules).1 }.destination?
          {} a = q.destination? {} a :=
  ⟨rfl, by decide, by decide, by decide,
    Question.destination?_restore_store rfl (by decide) rfl 2 _ {} (by decide) (by decide) _⟩

end SurveyBranching
