import SurveyBranching.Proofs.Canonical
/-!
# Where a question's rules send the respondent

A rule matches when its conditions reduce to `true`. Read as a formula, a rule's conditions
are the disjunction, over its runs (the longest stretches of conditions each joined to the next
by `and`), of the conjunction of the run; the clause of the last condition joins nothing. The
reduction computes exactly that unless one of the two clauses occurs more often, among the
conditions but the last, than the cap on joins per phase; it then fails at the cap. A rule with
no conditions fails with nothing left, and no clause ever lacks an operand.

The rules of a question are tried from the last to the first; the destination is that of the
last rule written that matches, and a rule whose reduction fails does not match.

## Main definitions

* `RuleSet.LastMatching`: the rule that decides, among a question's rules.

## Main statements

* `Rule.matches_eq_runs`: how a rule's reduction comes out, for every rule.
* `Question.destination?_eq_some_iff`: the destination is that of the last matching rule.
* `Question.evaluation_spec`: both together, for every question, answers and limits.
-/

namespace SurveyBranching

/-! ## One rule -/

section runs

variable (a : Answers)

/-- The value of the chain of conditions, the first value joined by `and` to the conjunction
`p` of the values before it in its run: the run is finished with `p`, and every later run
counts as a whole. -/
theorem sumOfProducts_runs (c : Condition) (cs : List Condition) :
    ∀ (p : Bool) (run : List Condition) (rest : List (List Condition)),
      (c :: cs).splitBy (fun c _ => c.clause == .and) = run :: rest →
        Chain.sumOfProducts (p && c.holds a)
            (List.zip ((c :: cs).map (·.clause)) (cs.map (·.holds a))) =
          ((p && run.all (·.holds a)) || rest.any (·.all (·.holds a))) := by
  induction cs generalizing c with
  | nil =>
    intro p run rest h
    -- A single condition is a run of its own.
    have h1 : [c].splitBy (fun c _ => c.clause == .and) = [[c]] := rfl
    rw [h1, List.cons.injEq] at h
    obtain ⟨rfl, rfl⟩ := h
    simp [Chain.sumOfProducts]
  | cons d ds ih =>
    intro p run rest h
    obtain ⟨run', rest', hsplit⟩ :=
      List.exists_cons_of_ne_nil (List.splitBy_ne_nil.mpr (List.cons_ne_nil d ds))
    rw [splitBy_cons_cons, hsplit] at h
    have hzip : List.zip ((c :: d :: ds).map (·.clause)) ((d :: ds).map (·.holds a)) =
        (c.clause, d.holds a) :: List.zip ((d :: ds).map (·.clause)) (ds.map (·.holds a)) := rfl
    rw [hzip]
    cases hc : c.clause with
    | and =>
      -- `c` opens the run of `d`.
      rw [if_pos (by simp [hc]), List.modifyHead_cons, List.cons.injEq] at h
      obtain ⟨rfl, rfl⟩ := h
      rw [Chain.sumOfProducts, ih d (p && c.holds a) run' rest' hsplit]
      simp [Bool.and_assoc]
    | or =>
      -- `c` is a run of its own, and the run of `d` starts afresh.
      rw [if_neg (by simp [hc]), List.cons.injEq] at h
      obtain ⟨rfl, rfl⟩ := h
      have hd := ih d true run' rest' hsplit
      rw [Bool.true_and] at hd
      rw [Chain.sumOfProducts, hd]
      simp

/-- **The chain of a rule's conditions has the value of its runs**: some run has all its
conditions holding. -/
theorem sumOfProducts_eq_any_runs (c : Condition) (cs : List Condition) :
    Chain.sumOfProducts (c.holds a) (List.zip ((c :: cs).map (·.clause)) (cs.map (·.holds a))) =
      ((c :: cs).splitBy (fun c _ => c.clause == .and)).any (·.all (·.holds a)) := by
  obtain ⟨run, rest, hsplit⟩ :=
    List.exists_cons_of_ne_nil (List.splitBy_ne_nil.mpr (List.cons_ne_nil c cs))
  have h := sumOfProducts_runs a c cs true run rest hsplit
  rw [Bool.true_and, Bool.true_and] at h
  rw [h, hsplit, List.any_cons]

end runs

/-- **How a rule's reduction comes out.** With no conditions it fails with nothing left; with
more than `k` of either clause among its conditions but the last, it fails at the cap `k`;
otherwise it holds exactly when all the conditions of one of its runs hold. -/
theorem Rule.matches_eq_runs (k : Nat) (a : Answers) (r : Rule) :
    r.matches k a =
      if r.conditions = [] then .error (.notSingle 0)
      else if k < (r.conditions.map (·.clause)).dropLast.count .and ∨
          k < (r.conditions.map (·.clause)).dropLast.count .or then
        .error (.iterationCapExceeded k)
      else .ok ((r.conditions.splitBy fun c _ => c.clause == .and).any (·.all (·.holds a))) := by
  cases hcs : r.conditions with
  | nil => rw [Rule.matches_nil k a hcs, if_pos rfl]
  | cons c cs =>
    have hlen : ((c :: cs).map (·.clause)).length = (cs.map (·.holds a)).length + 1 := by simp
    rw [Rule.matches_cons_eq k a hcs, if_neg (List.cons_ne_nil c cs), ← zip_dropLast _ _ hlen,
      sumOfProducts_eq_any_runs]
    by_cases hfit : ((c :: cs).map (·.clause)).dropLast.count .and ≤ k ∧
        ((c :: cs).map (·.clause)).dropLast.count .or ≤ k
    · rw [if_pos hfit, if_neg (by omega)]
    · rw [if_neg hfit, if_pos (by omega)]

/-- No clause of a rule's sequence ever lacks an operand. -/
theorem Rule.matches_ne_missingOperand (k : Nat) (a : Answers) (r : Rule) (p : Nat) :
    r.matches k a ≠ .error (.missingOperand p) := by
  rw [Rule.matches_eq_runs]
  split
  · simp
  · split <;> simp

/-- A rule holds exactly when its conditions reduce to `true`. -/
theorem Rule.holds_eq_true_iff (k : Nat) (a : Answers) (r : Rule) :
    r.holds k a = true ↔ r.matches k a = .ok true := by
  unfold Rule.holds
  split <;> simp_all

theorem Rule.holds_eq_false_iff (k : Nat) (a : Answers) (r : Rule) :
    r.holds k a = false ↔ r.matches k a ≠ .ok true := by
  rw [ne_eq, ← Rule.holds_eq_true_iff, Bool.not_eq_true]

/-! ## A question's rules -/

/-- The rule `r` decides where to go among the rules `rs`: it matches, and no rule written after
it does. -/
def RuleSet.LastMatching (k : Nat) (a : Answers) (rs : RuleSet) (r : Rule) : Prop :=
  ∃ pre post, rs.rules = pre ++ r :: post ∧ r.matches k a = .ok true ∧
    ∀ r' ∈ post, r'.matches k a ≠ .ok true

/-- **The destination is that of the last rule written that matches**; there is none when the
question has no rules or none of them matches. -/
theorem Question.destination?_eq_some_iff (limits : Limits) (a : Answers) (q : Question)
    (d : Destination) :
    q.destination? limits a = some d ↔
      ∃ rs r, q.rules = some rs ∧ rs.LastMatching limits.maxReductionIterations a r ∧
        d = r.destination := by
  simp only [Question.destination?, Question.firstMatch?, Option.map_eq_some_iff,
    Option.bind_eq_some_iff, List.find?_eq_some_iff_append, List.reverse_eq_append_iff,
    List.reverse_cons, Rule.holds_eq_true_iff, RuleSet.LastMatching]
  constructor
  · rintro ⟨r, ⟨rs, hrs, hmatch, as, bs, hrules, hafter⟩, rfl⟩
    refine ⟨rs, r, hrs, ⟨bs.reverse, as.reverse, ?_, hmatch, fun r' hr' => ?_⟩, rfl⟩
    · rw [hrules, List.append_assoc, List.singleton_append]
    · exact (Rule.holds_eq_false_iff _ a r').mp
        (by simpa using hafter r' (List.mem_reverse.mp hr'))
  · rintro ⟨rs, r, hrs, ⟨pre, post, hrules, hmatch, hafter⟩, rfl⟩
    refine ⟨r, ⟨rs, hrs, hmatch, post.reverse, pre.reverse, ?_, fun r' hr' => ?_⟩, rfl⟩
    · rw [hrules, List.reverse_reverse, List.reverse_reverse, List.append_assoc,
        List.singleton_append]
    · simpa using (Rule.holds_eq_false_iff _ a r').mpr (hafter r' (List.mem_reverse.mp hr'))

/-- **Where a question's rules send the respondent, and how each rule is decided.** The
destination is that of the last rule written whose reduction gives `true`; for every rule the
reduction fails with nothing left when it has no conditions, fails at the cap when either clause
occurs more than `k` times among its conditions but the last, and otherwise holds exactly when
some run of conditions joined by `and` holds throughout; it never finds a clause without an
operand. -/
theorem Question.evaluation_spec (limits : Limits) (a : Answers) (q : Question) :
    (∀ d, q.destination? limits a = some d ↔
      ∃ rs r, q.rules = some rs ∧ rs.LastMatching limits.maxReductionIterations a r ∧
        d = r.destination) ∧
    ∀ r : Rule,
      r.matches limits.maxReductionIterations a =
          (if r.conditions = [] then .error (.notSingle 0)
          else if limits.maxReductionIterations < (r.conditions.map (·.clause)).dropLast.count .and ∨
              limits.maxReductionIterations < (r.conditions.map (·.clause)).dropLast.count .or then
            .error (.iterationCapExceeded limits.maxReductionIterations)
          else .ok ((r.conditions.splitBy fun c _ => c.clause == .and).any (·.all (·.holds a)))) ∧
        ∀ p, r.matches limits.maxReductionIterations a ≠ .error (.missingOperand p) :=
  ⟨Question.destination?_eq_some_iff limits a q, fun r =>
    ⟨Rule.matches_eq_runs _ a r, Rule.matches_ne_missingOperand _ a r⟩⟩

end SurveyBranching
