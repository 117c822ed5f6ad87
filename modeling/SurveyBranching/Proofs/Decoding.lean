import SurveyBranching.Proofs.Reading
import SurveyBranching.Proofs.Writing
import SurveyBranching.Proofs.Ancestors
import Mathlib.Data.List.Nodup
/-!
# Reading written conditions back

A rule's conditions are written as the text of their canonical tree; reading that text back
against the same question gives the written conditions again: the same tests in the same
order, the same clauses between them, `and` after the last one, and fresh ids. Two things can
stand in the way, and the statement rules both out: the tree must not be deeper than the
reader allows, and an option's value must name that option alone.

The reading of any expression is described by one inversion lemma
(`Question.conditionsOf_eq_ok`): a blank text has no conditions, and any other text is a tree
whose tests are read in order, each with the clause between it and the next. A tree that has
no `or` below an `and` means, read this way, what it meant as a tree.

## Main statements

* `IdSupply.ids_name`: naming tests gives them the next ids of the supply, in order.
* `Question.conditionsOf_render`: reading the text of a readable tree reads its tests.
* `Question.conditionsOf_expressionOf`: written conditions read back as themselves.
* `Question.matches_conditionsOf`: the conditions read from an `or`-over-`and` tree reduce to
  the tree's value.
-/

namespace SurveyBranching

variable {σ : Type}

/-! ## Fresh ids -/

/-- Naming tests keeps their clauses and tests, in order. -/
theorem IdSupply.map_name (s : IdSupply σ) (ts : List (Clause × Test)) :
    (s.name ts).1.map (fun c => (c.clause, c.test)) = ts := by
  induction ts generalizing s with
  | nil => rfl
  | cons ct ts ih => simp [IdSupply.name, ih]

theorem IdSupply.map_test_name (s : IdSupply σ) (ts : List (Clause × Test)) :
    (s.name ts).1.map (·.test) = ts.map (·.2) := by
  rw [← congrArg (List.map (·.2)) (s.map_name ts), List.map_map]
  rfl

theorem IdSupply.map_clause_name (s : IdSupply σ) (ts : List (Clause × Test)) :
    (s.name ts).1.map (·.clause) = ts.map (·.1) := by
  rw [← congrArg (List.map (·.1)) (s.map_name ts), List.map_map]
  rfl

/-- **Naming tests draws the next ids of the supply**, one per test and in order. -/
theorem IdSupply.ids_name (s : IdSupply σ) (ts : List (Clause × Test)) :
    (s.name ts).1.map (·.id) = (s.drawMany ts.length).1 ∧
      (s.name ts).2 = (s.drawMany ts.length).2 := by
  induction ts generalizing s with
  | nil => exact ⟨rfl, rfl⟩
  | cons ct ts ih =>
    obtain ⟨hids, hsupply⟩ := ih s.draw.2
    exact ⟨by simp [IdSupply.name, IdSupply.drawMany, hids], by simp [IdSupply.name,
      IdSupply.drawMany, hsupply]⟩

/-! ## Conditions as a reader gives them back -/

/-- The clauses and tests a reader gives back for some conditions: each test with the clause
after it, and `and` after the last. -/
def readBack (R : List Condition) : List (Clause × Test) :=
  List.zip ((R.map (·.clause)).dropLast ++ [.and]) (R.map (·.test))

section readBack

variable (R : List Condition)

theorem length_readBack : (readBack R).length = R.length := by
  simp only [readBack, List.length_zip, List.length_append, List.length_dropLast,
    List.length_map, List.length_singleton]
  omega

theorem map_snd_readBack : (readBack R).map (·.2) = R.map (·.test) :=
  List.map_snd_zip (by simp only [List.length_append, List.length_dropLast, List.length_map,
    List.length_singleton]; omega)

/-- Read back, the conditions keep every clause but the last. -/
theorem dropLast_map_fst_readBack :
    ((readBack R).map (·.1)).dropLast = (R.map (·.clause)).dropLast := by
  cases R with
  | nil => rfl
  | cons c cs =>
    rw [readBack, List.map_fst_zip (by simp), List.dropLast_concat]

/-- Read back, the last condition has `and`. -/
theorem getLast?_readBack : ∀ x ∈ (readBack R).getLast?, x.1 = .and := by
  cases R with
  | nil => simp [readBack]
  | cons c cs =>
    intro x hx
    have hfst : (readBack (c :: cs)).map (·.1) = ((c :: cs).map (·.clause)).dropLast ++ [.and] :=
      List.map_fst_zip (by simp)
    have hlast := congrArg List.getLast? hfst
    rw [List.getLast?_map, List.getLast?_concat, Option.mem_def.mp hx] at hlast
    exact Option.some.inj hlast

end readBack

/-! ## Trees and their texts -/

namespace Expr

/-- A tree has fewer logical levels than tests. -/
theorem logicalHeight_lt (e : Expr) : e.logicalHeight < e.leaves.length := by
  induction e with
  | test r s v => simp [logicalHeight, leaves]
  | logical c l r ihl ihr =>
    have := length_leaves_pos l
    have := length_leaves_pos r
    simp only [logicalHeight, leaves, List.length_append]
    omega

/-- The text of a tree starts with a keyword, so it is not blank. -/
theorem isBlankText_render (e : Expr) : Text.isBlankText e.render = false := by
  cases e with
  | test r s v =>
    have hword : r.word.toList.all Text.isBlank = false := by cases r <;> decide
    simp [Text.isBlankText, render, List.all_append, hword]
  | logical c l r =>
    have hword : c.word.toList.all Text.isBlank = false := by cases c <;> decide
    simp [Text.isBlankText, render, List.all_append, hword]

/-- A tree is readable when the literals of all its tests are. -/
theorem readable_iff_leaves {e : Expr} : e.Readable ↔ ∀ x ∈ e.leaves, x.2.2.Readable := by
  induction e with
  | test r s v => simp [Readable, leaves]
  | logical c l r ihl ihr =>
    simp only [Readable, ihl, ihr, leaves, List.mem_append]
    constructor
    · rintro ⟨hl, hr⟩ x (hx | hx)
      · exact hl x hx
      · exact hr x hx
    · intro h
      exact ⟨fun x hx => h x (.inl hx), fun x hx => h x (.inr hx)⟩

end Expr

/-! ## One test -/

/-- What a written test is: an option check of the option with the condition's id, by its
value, or a count comparison with the condition's count. -/
theorem Question.testExpr?_eq_some {q : Question} {mode : SelectionMode} {seq : UInt32}
    {c : Condition} {e : Expr} (h : q.testExpr? mode seq c = some e) :
    (∃ oid check o, c.test = .option (some oid) (some check) ∧
      q.options.find? (·.id == oid) = some o ∧
      e = .test (check.relation mode) (.value seq) (.text o.value)) ∨
    (∃ cmp k, c.test = .count (some cmp) (some k) ∧
      e = .test cmp.relation (.count seq) (.integer (Int64.ofNat k.toNat))) := by
  unfold Question.testExpr? at h
  split at h
  · next oid check htest =>
    obtain ⟨o, ho, rfl⟩ := Option.map_eq_some_iff.mp h
    exact .inl ⟨oid, check, o, htest, ho, rfl⟩
  · next cmp k htest =>
    exact .inr ⟨cmp, k, htest, (Option.some.inj h).symm⟩
  · cases h

/-- The word of an option check asks for that check. -/
theorem OptionCheck.optionCheck_relation (mode : SelectionMode) (check : OptionCheck) :
    (check.relation mode).optionCheck mode = some check := by
  cases mode <;> cases check <;> rfl

/-- The word of a count comparison asks for that comparison. -/
theorem CountComparison.countComparison_relation (cmp : CountComparison) :
    cmp.relation.countComparison = some cmp := by
  cases cmp <;> rfl

/-- A count written as an integer reads back as itself. -/
theorem Literal.count?_integer (k : UInt32) :
    (Literal.integer (Int64.ofNat k.toNat)).count? = some k := by
  have hk : k.toNat < 2 ^ 32 := k.toNat_lt
  have hint : (Int64.ofNat k.toNat).toInt = k.toNat := Int64.toInt_ofNat_of_lt (by omega)
  simp only [Literal.count?, hint, Int.natCast_nonneg, true_and, Int.toNat_natCast,
    UInt32.ofNat_toNat]
  rw [if_pos (by omega)]

/-- When options differ in a key, the first option with an option's key is that option. -/
theorem find?_key_of_nodup {os : List AnswerOption} (key : AnswerOption → String)
    (hkeys : (os.map key).Nodup) {o : AnswerOption} (ho : o ∈ os) :
    os.find? (key · == key o) = some o := by
  have hsome : (os.find? (key · == key o)).isSome := List.find?_isSome.mpr ⟨o, ho, by simp⟩
  obtain ⟨o', ho'⟩ := Option.isSome_iff_exists.mp hsome
  have hkey : key o' = key o := by simpa using List.find?_some ho'
  rw [ho', List.inj_on_of_nodup_map hkeys (List.mem_of_find?_eq_some ho') ho hkey]

theorem find?_value_of_nodup {os : List AnswerOption} (hvals : (os.map (·.value)).Nodup)
    {o : AnswerOption} (ho : o ∈ os) : os.find? (·.value == o.value) = some o :=
  find?_key_of_nodup (·.value) hvals ho

theorem find?_id_of_nodup {os : List AnswerOption} (hids : (os.map (·.id)).Nodup)
    {o : AnswerOption} (ho : o ∈ os) : os.find? (·.id == o.id) = some o :=
  find?_key_of_nodup (·.id) hids ho

/-- **A written test reads back as the condition's test**, when the question's option values
are distinct. -/
theorem Question.testOf_of_testExpr? {q : Question} {mode : SelectionMode} {seq : UInt32}
    {c : Condition} {e : Expr} (hvals : (q.options.map (·.value)).Nodup)
    (h : q.testExpr? mode seq c = some e) :
    ∃ r s v, e = .test r s v ∧ q.testOf mode (r, s, v) = .ok c.test := by
  rcases Question.testExpr?_eq_some h with ⟨oid, check, o, htest, ho, rfl⟩ | ⟨cmp, k, htest, rfl⟩
  · refine ⟨_, _, _, rfl, ?_⟩
    have hid : o.id = oid := by simpa using List.find?_some ho
    simp only [Question.testOf, OptionCheck.optionCheck_relation, Literal.content,
      find?_value_of_nodup hvals (List.mem_of_find?_eq_some ho), htest, hid]
  · refine ⟨_, _, _, rfl, ?_⟩
    simp only [Question.testOf, CountComparison.countComparison_relation,
      Literal.count?_integer, htest]

/-- A written test is readable: its literal is a text or an integer. -/
theorem Question.readable_of_testExpr? {q : Question} {mode : SelectionMode} {seq : UInt32}
    {c : Condition} {e : Expr} (h : q.testExpr? mode seq c = some e) : e.Readable := by
  rcases Question.testExpr?_eq_some h with ⟨-, -, -, -, -, rfl⟩ | ⟨-, -, -, rfl⟩ <;> trivial

/-! ## Written conditions -/

section written

variable {q : Question} {mode : SelectionMode} {seq : UInt32}

theorem Question.testExpr?_of_mem_written {cs : List Condition} {x : Condition × Expr}
    (h : x ∈ q.written mode seq cs) : q.testExpr? mode seq x.1 = some x.2 := by
  obtain ⟨c, -, hc⟩ := List.mem_filterMap.mp h
  obtain ⟨e, he, rfl⟩ := Option.map_eq_some_iff.mp hc
  exact he

/-- The tests of written conditions read back as the conditions' tests, in order. -/
theorem Question.mapM_testOf (hvals : (q.options.map (·.value)).Nodup) :
    ∀ p : List (Condition × Expr), (∀ x ∈ p, q.testExpr? mode seq x.1 = some x.2) →
      (p.flatMap (·.2.leaves)).mapM (q.testOf mode) = .ok (p.map (·.1.test)) := by
  intro p
  induction p with
  | nil => intro _; rfl
  | cons x p ih =>
    intro hp
    obtain ⟨r, s, v, he, htest⟩ := Question.testOf_of_testExpr? hvals (hp x List.mem_cons_self)
    rw [List.flatMap_cons, he, Expr.leaves, List.singleton_append, List.mapM_cons, htest,
      ih fun y hy => hp y (List.mem_cons_of_mem x hy)]
    rfl

/-- The canonical tree of written tests is readable. -/
theorem Question.readable_canonicalTree {cs : List Condition} {T : Expr}
    (hT : canonicalTree (q.written mode seq cs) = some T) : T.Readable := by
  have htests : ∀ x ∈ q.written mode seq cs, x.2.isTest := fun _ hx =>
    Question.isTest_of_mem_written hx
  refine Expr.readable_iff_leaves.mpr fun x hx => ?_
  rw [leaves_canonicalTree htests hT] at hx
  obtain ⟨y, hy, hxy⟩ := List.mem_flatMap.mp hx
  exact Expr.readable_iff_leaves.mp
    (Question.readable_of_testExpr? (Question.testExpr?_of_mem_written hy)) x hxy

end written

/-! ## Reading a tree's text -/

/-- **Reading the text of a readable tree reads its tests**: its conditions are the tree's tests,
read against the question, named from the supply; a test that cannot be read is the error. -/
theorem Question.conditionsOf_render (q : Question) {mode : SelectionMode}
    (hmode : q.kind.selectionMode = some mode) (limits : Limits) (ids : IdSupply σ) {e : Expr}
    (he : e.Readable) (hdepth : e.logicalHeight ≤ limits.maxExpressionDepth) :
    q.conditionsOf limits ids e.render = (q.testsOf mode e).map ids.name := by
  unfold Question.conditionsOf
  rw [Expr.isBlankText_render, hmode, Expr.parse_render he, if_pos hdepth]
  cases h : q.testsOf mode e <;> simp [h, Except.map]

section written

variable {q : Question} {mode : SelectionMode} {seq : UInt32} {cs : List Condition}

/-- The canonical tree of written tests has one test for each. -/
theorem Question.length_leaves_canonicalTree {T : Expr}
    (hT : canonicalTree (q.written mode seq cs) = some T) :
    T.leaves.length = (q.written mode seq cs).length :=
  SurveyBranching.length_leaves_canonicalTree (fun _ hx => Question.isTest_of_mem_written hx) hT

/-- The tests of the canonical tree read back as the written conditions' tests, each with the
clause after it, and `and` after the last. -/
theorem Question.testsOf_canonicalTree (hvals : (q.options.map (·.value)).Nodup) {T : Expr}
    (hT : canonicalTree (q.written mode seq cs) = some T) :
    q.testsOf mode T = .ok (readBack ((q.written mode seq cs).map (·.1))) := by
  have htests : ∀ x ∈ q.written mode seq cs, x.2.isTest := fun _ hx =>
    Question.isTest_of_mem_written hx
  rw [Question.testsOf_eq, leaves_canonicalTree htests hT, joins_canonicalTree htests hT,
    Question.mapM_testOf hvals _ fun _ hx => Question.testExpr?_of_mem_written hx]
  simp [readBack, Function.comp_def, Except.map]

end written

/-! ## Written conditions read back -/

section roundTrip

variable (q : Question) {mode : SelectionMode} (hmode : q.kind.selectionMode = some mode)
  (hvals : (q.options.map (·.value)).Nodup) (limits : Limits) (ids : IdSupply σ) (seq : UInt32)
  (cs : List Condition)
include hmode hvals

/-- **Written conditions read back as themselves**: their tests and clauses, `and` after the
last, named from the supply; provided the reader allows one level for each written test but
one. -/
theorem Question.conditionsOf_expressionOf_eq
    (hlen : (q.written mode seq cs).length ≤ limits.maxExpressionDepth + 1) :
    q.conditionsOf limits ids (q.expressionOf seq cs) =
      .ok (ids.name (readBack ((q.written mode seq cs).map (·.1)))) := by
  rw [q.expressionOf_eq_render hmode seq cs]
  cases hT : canonicalTree (q.written mode seq cs) with
  | none =>
    rw [canonicalTree_eq_none.mp hT]
    rfl
  | some T =>
    -- The canonical tree has a level fewer than it has tests.
    have hheight : T.logicalHeight ≤ limits.maxExpressionDepth := by
      have := Expr.logicalHeight_lt T
      rw [Question.length_leaves_canonicalTree hT] at this
      omega
    rw [Option.map_some, Option.getD_some,
      q.conditionsOf_render hmode limits ids (Question.readable_canonicalTree hT) hheight,
      Question.testsOf_canonicalTree hvals hT]
    rfl

/-- **Serialising then decoding a rule's conditions gives them back.** For a question with a
selection mode and distinct option values, decoding the expression written for some
conditions succeeds when the reader allows a level for each written condition but one, and
gives one condition for each written one: with the same test, the same clause (the last one
apart, which is `and`), the next ids of the supply, and the supply past them. -/
theorem Question.conditionsOf_expressionOf
    (hlen : (q.written mode seq cs).length ≤ limits.maxExpressionDepth + 1) :
    ∃ R', q.conditionsOf limits ids (q.expressionOf seq cs) =
        .ok (R', (ids.drawMany (q.written mode seq cs).length).2) ∧
      R'.map (·.test) = (q.written mode seq cs).map (·.1.test) ∧
      (R'.map (·.clause)).dropLast = ((q.written mode seq cs).map (·.1.clause)).dropLast ∧
      (∀ c ∈ R'.getLast?, c.clause = .and) ∧
      R'.map (·.id) = (ids.drawMany (q.written mode seq cs).length).1 := by
  set R := (q.written mode seq cs).map (·.1) with hR
  have hRlen : (readBack R).length = (q.written mode seq cs).length := by
    rw [length_readBack, hR, List.length_map]
  have hkept := IdSupply.map_name ids (readBack R)
  obtain ⟨hids, hsupply⟩ := IdSupply.ids_name ids (readBack R)
  rw [hRlen] at hids hsupply
  refine ⟨(ids.name (readBack R)).1, ?_, ?_, ?_, ?_, hids⟩
  · rw [q.conditionsOf_expressionOf_eq hmode hvals limits ids seq cs hlen, ← hsupply]
  · calc (ids.name (readBack R)).1.map (·.test) = (readBack R).map (·.2) := ids.map_test_name _
      _ = R.map (·.test) := map_snd_readBack R
      _ = (q.written mode seq cs).map (·.1.test) := by simp [hR]
  · calc ((ids.name (readBack R)).1.map (·.clause)).dropLast
        = ((readBack R).map (·.1)).dropLast := by rw [ids.map_clause_name]
      _ = (R.map (·.clause)).dropLast := dropLast_map_fst_readBack R
      _ = ((q.written mode seq cs).map (·.1.clause)).dropLast := by simp [hR, Function.comp_def]
  · intro c hc
    have hpair : (c.clause, c.test) ∈ (readBack R).getLast? := by
      rw [← hkept, List.getLast?_map]
      simp [Option.mem_def.mp hc]
    exact getLast?_readBack R _ hpair

end roundTrip

/-- Two conditions joined by `or`, then an empty one, on a single-choice question. -/
theorem Question.conditionsOf_expressionOf_orOfTwo :
    let q : Question := ⟨"q1", .single, "", [⟨"o1", "Yes"⟩, ⟨"o2", "No"⟩], none⟩
    let cs : List Condition := [⟨"c1", .or, .option (some "o1") (some .selected)⟩,
      ⟨"c2", .and, .count (some .greater) (some 1)⟩, ⟨"c3", .and, .empty⟩]
    q.kind.selectionMode = some .single ∧ (q.options.map (·.value)).Nodup ∧
      (q.written .single 3 cs).length ≤ ({} : Limits).maxExpressionDepth + 1 ∧
      ∃ R', q.conditionsOf {} (IdSupply.sequential "n") (q.expressionOf 3 cs) =
          .ok (R', ((IdSupply.sequential "n").drawMany (q.written .single 3 cs).length).2) ∧
        R'.map (·.test) = (q.written .single 3 cs).map (·.1.test) ∧
        (R'.map (·.clause)).dropLast = ((q.written .single 3 cs).map (·.1.clause)).dropLast ∧
        (∀ c ∈ R'.getLast?, c.clause = .and) ∧
        R'.map (·.id) = ((IdSupply.sequential "n").drawMany (q.written .single 3 cs).length).1 :=
  ⟨rfl, by decide, by decide, Question.conditionsOf_expressionOf _ rfl (by decide) {} _ 3 _
    (by decide)⟩

/-! ## What read conditions mean -/

/-- Mapping over a list in `Except` gives, when it succeeds, one result for each element. -/
theorem length_of_mapM_eq_ok {α β ε : Type} {f : α → Except ε β} :
    ∀ {l : List α} {ts : List β}, l.mapM f = .ok ts → ts.length = l.length := by
  intro l
  induction l with
  | nil => intro ts h; cases h; rfl
  | cons x l ih =>
    intro ts h
    rw [List.mapM_cons] at h
    cases hx : f x with
    | error err => rw [hx] at h; cases h
    | ok b =>
      cases hl : l.mapM f with
      | error err => rw [hx, hl] at h; cases h
      | ok bs =>
        rw [hx, hl] at h
        cases h
        simp [ih hl]

/-- **How an expression is read as conditions**: a blank text gives none and draws no id; any
other text, for a question with a selection mode, is parsed to a tree whose tests are read,
each with its clause, and named from the supply. -/
theorem Question.conditionsOf_eq_ok {q : Question} {limits : Limits} {ids ids' : IdSupply σ}
    {s : String} {cs : List Condition} (h : q.conditionsOf limits ids s = .ok (cs, ids')) :
    (Text.isBlankText s = true ∧ cs = [] ∧ ids' = ids) ∨
    ∃ mode e tests, q.kind.selectionMode = some mode ∧
      Expr.parse limits.maxExpressionDepth s = .ok e ∧ q.testsOf mode e = .ok tests ∧
      ids.name tests = (cs, ids') := by
  unfold Question.conditionsOf at h
  split at h
  · next hblank =>
    cases h
    exact .inl ⟨hblank, rfl, rfl⟩
  · split at h
    · cases h
    · next mode hmode =>
      split at h
      · cases h
      · next e hparse =>
        split at h
        · cases h
        · next tests htests => exact .inr ⟨mode, e, tests, hmode, hparse, htests, Except.ok.inj h⟩

/-- The tests of a tree, when they can all be read, each with the clause after it. -/
theorem Question.testsOf_eq_ok {q : Question} {mode : SelectionMode} {e : Expr}
    {tests : List (Clause × Test)} (h : q.testsOf mode e = .ok tests) :
    ∃ ts, e.leaves.mapM (q.testOf mode) = .ok ts ∧ tests = List.zip (e.joins ++ [.and]) ts := by
  rw [Question.testsOf_eq] at h
  cases hts : e.leaves.mapM (q.testOf mode) with
  | error err => rw [hts] at h; cases h
  | ok ts =>
    rw [hts] at h
    exact ⟨ts, rfl, (Except.ok.inj h).symm⟩

/-- Mapping over a list in `Except` succeeds when every element maps, with one result for each,
in order. -/
theorem mapM_eq_ok_of_forall {α β ε : Type} {f : α → Except ε β} :
    ∀ {l : List α}, (∀ x ∈ l, ∃ y, f x = .ok y) →
      ∃ ys, l.mapM f = .ok ys ∧ List.Forall₂ (fun x y => f x = .ok y) l ys := by
  intro l
  induction l with
  | nil => intro _; exact ⟨[], rfl, .nil⟩
  | cons x l ih =>
    intro h
    obtain ⟨y, hy⟩ := h x List.mem_cons_self
    obtain ⟨ys, hys, hall⟩ := ih fun x' hx' => h x' (List.mem_cons_of_mem x hx')
    refine ⟨y :: ys, ?_, .cons hy hall⟩
    rw [List.mapM_cons, hy, hys]
    rfl

/-- A text that is not blank, for a question with a selection mode, is parsed and its tree's
tests are read and named from the supply. -/
theorem Question.conditionsOf_of_parse {q : Question} {mode : SelectionMode}
    (hmode : q.kind.selectionMode = some mode) (limits : Limits) (ids : IdSupply σ) {s : String}
    (hs : Text.isBlankText s = false) {e : Expr}
    (hparse : Expr.parse limits.maxExpressionDepth s = .ok e) :
    q.conditionsOf limits ids s = (q.testsOf mode e).map ids.name := by
  unfold Question.conditionsOf
  rw [hs, hmode, hparse]
  cases h : q.testsOf mode e <;> simp [h, Except.map]

/-- **Reading an expression whose tests all decode gives one condition for each test**, in
order: the test decoded, the clause of the lowest common ancestor of its test and the next one,
`and` for the last, and the next ids of the supply. -/
theorem Question.conditionsOf_lowestCommonAncestor {q : Question} {mode : SelectionMode}
    (hmode : q.kind.selectionMode = some mode) (limits : Limits) (ids : IdSupply σ) {s : String}
    (hs : Text.isBlankText s = false) {e : Expr}
    (hparse : Expr.parse limits.maxExpressionDepth s = .ok e)
    (hdecode : ∀ x ∈ e.leaves, ∃ t, q.testOf mode x = .ok t) :
    ∃ cs, q.conditionsOf limits ids s = .ok (cs, (ids.drawMany e.leaves.length).2) ∧
      List.Forall₂ (fun x c => q.testOf mode x = .ok c.test) e.leaves cs ∧
      (∀ i (hi : i + 1 < cs.length), ∃ w l r,
        e.LowestCommonAncestor i (i + 1) w ∧ e.nodeAt? w = some (.logical cs[i].clause l r)) ∧
      (∀ c ∈ cs.getLast?, c.clause = .and) ∧
      cs.map (·.id) = (ids.drawMany e.leaves.length).1 := by
  obtain ⟨ts, hts, hall⟩ := mapM_eq_ok_of_forall hdecode
  have hlen : ts.length = e.leaves.length := hall.length_eq.symm
  have hjoins := Expr.length_joins e
  set tests := List.zip (e.joins ++ [.and]) ts with htests
  set cs := (ids.name tests).1 with hcs
  obtain ⟨hids, hsupply⟩ := IdSupply.ids_name ids tests
  have htlen : tests.length = e.leaves.length := by
    simp only [htests, List.length_zip, List.length_append, List.length_singleton]; omega
  rw [htlen] at hids hsupply
  -- The conditions carry the decoded tests, and the joins followed by `and`.
  have hctests : cs.map (·.test) = ts := by
    rw [hcs, IdSupply.map_test_name,
      List.map_snd_zip (by rw [List.length_append, List.length_singleton]; omega)]
  have hcclauses : cs.map (·.clause) = e.joins ++ [.and] := by
    rw [hcs, IdSupply.map_clause_name,
      List.map_fst_zip (by rw [List.length_append, List.length_singleton]; omega)]
  refine ⟨cs, ?_, ?_, ?_, ?_, hids⟩
  · rw [q.conditionsOf_of_parse hmode limits ids hs hparse, Question.testsOf_eq, hts, ← hsupply]
    rfl
  · rw [← hctests, List.forall₂_map_right_iff] at hall
    exact hall
  · intro i hi
    have hcslen : cs.length = e.joins.length + 1 := by
      simpa using congrArg List.length hcclauses
    have hclause : e.joins[i]? = some cs[i].clause := by
      have hat := congrArg (·[i]?) hcclauses
      simp only [List.getElem?_map, List.getElem?_eq_getElem (by omega : i < cs.length)] at hat
      rw [List.getElem?_append_left (by omega)] at hat
      exact hat.symm
    exact Expr.lowestCommonAncestor_joins e i _ hclause
  · intro c hc
    have hlast := congrArg List.getLast? hcclauses
    rw [List.getLast?_map, List.getLast?_concat, Option.mem_def.mp hc] at hlast
    exact Option.some.inj hlast

/-- `and eq val1 "A" or eq val1 "B" neq val1 "C"` on a single-choice question: the first two
tests meet at the root, the last two at the `or` below it. -/
theorem Question.conditionsOf_lowestCommonAncestor_andOverOr :
    let q : Question := ⟨"q1", .single, "", [⟨"a1", "A"⟩, ⟨"a2", "B"⟩, ⟨"a3", "C"⟩], none⟩
    let e : Expr := .logical .and (.test .eq (.value 1) (.text "A"))
      (.logical .or (.test .eq (.value 1) (.text "B")) (.test .neq (.value 1) (.text "C")))
    let ids := IdSupply.sequential "n"
    q.kind.selectionMode = some .single ∧ Text.isBlankText e.render = false ∧
      Expr.parse ({} : Limits).maxExpressionDepth e.render = .ok e ∧
      (∀ x ∈ e.leaves, ∃ t, q.testOf .single x = .ok t) ∧
      ∃ cs, q.conditionsOf {} ids e.render = .ok (cs, (ids.drawMany e.leaves.length).2) ∧
        List.Forall₂ (fun x c => q.testOf .single x = .ok c.test) e.leaves cs ∧
        (∀ i (hi : i + 1 < cs.length), ∃ w l r,
          e.LowestCommonAncestor i (i + 1) w ∧ e.nodeAt? w = some (.logical cs[i].clause l r)) ∧
        (∀ c ∈ cs.getLast?, c.clause = .and) ∧
        cs.map (·.id) = (ids.drawMany e.leaves.length).1 := by
  intro q e ids
  have he : e.Readable := ⟨trivial, trivial, trivial⟩
  have hparse : Expr.parse ({} : Limits).maxExpressionDepth e.render = .ok e := by
    rw [Expr.parse_render he, if_pos (by decide)]
  have hdecode : ∀ x ∈ e.leaves, ∃ t, q.testOf .single x = .ok t := by
    intro x hx
    simp only [e, Expr.leaves, List.cons_append, List.nil_append, List.mem_cons,
      List.not_mem_nil, or_false] at hx
    rcases hx with rfl | rfl | rfl <;> exact ⟨_, rfl⟩
  exact ⟨rfl, Expr.isBlankText_render e, hparse, hdecode,
    Question.conditionsOf_lowestCommonAncestor rfl {} ids (Expr.isBlankText_render e) hparse
      hdecode⟩

/-- **Decoding keeps the meaning of every tree with no `or` below an `and`.** When an
expression reads as conditions and parses to such a tree, with at most `k` nodes of each
clause, a rule with those conditions reduces with cap `k` to the tree's value, each test
read as the condition decoded from it. -/
theorem Question.matches_conditionsOf {q : Question} {limits : Limits} {ids ids' : IdSupply σ}
    {s : String} {cs : List Condition} (hdec : q.conditionsOf limits ids s = .ok (cs, ids'))
    {e : Expr} (hparse : Expr.parse limits.maxExpressionDepth s = .ok e) (hshape : e.OrOverAnd)
    {k : Nat} (hand : e.nodeCount .and ≤ k) (hor : e.nodeCount .or ≤ k) (a : Answers)
    {r : Rule} (hr : r.conditions = cs) :
    r.matches k a = .ok (e.valueOn (cs.map (·.holds a))) := by
  rcases Question.conditionsOf_eq_ok hdec with ⟨hblank, -, -⟩ |
    ⟨mode, e', tests, -, hparse', htests, hname⟩
  · exact absurd hparse (Expr.parse_of_isBlankText hblank _ e)
  · have he : e = e' := Except.ok.inj (hparse.symm.trans hparse')
    subst he
    obtain ⟨ts, hts, rfl⟩ := Question.testsOf_eq_ok htests
    have hlen : ts.length = e.leaves.length := length_of_mapM_eq_ok hts
    have hjoins := Expr.length_joins e
    -- The decoded conditions carry the tree's joins, then `and`.
    have hclauses : cs.map (·.clause) = e.joins ++ [.and] := by
      have hcs := ids.map_clause_name (List.zip (e.joins ++ [.and]) ts)
      rw [hname, List.map_fst_zip (by simp; omega)] at hcs
      exact hcs
    have hcount : cs.length = e.leaves.length := by
      rw [← List.length_map (f := (·.clause)), hclauses, List.length_append, ← hjoins]
      rfl
    subst hr
    exact Rule.matches_of_joins hshape (by rw [hclauses, List.dropLast_concat]) hcount hand hor a

/-- `or contains val1 "A" and contains val1 "B" notcontains val1 "C"` on a multiple-choice
question, read with three fresh ids, for a respondent who picked `B` only. -/
theorem Question.matches_conditionsOf_orOfAnd :
    let q : Question := ⟨"q1", .multiple, "", [⟨"a1", "A"⟩, ⟨"a2", "B"⟩, ⟨"a3", "C"⟩], none⟩
    let e : Expr := .logical .or (.test .contains (.value 1) (.text "A"))
      (.logical .and (.test .contains (.value 1) (.text "B"))
        (.test .notContains (.value 1) (.text "C")))
    let cs : List Condition := [⟨"n1", .or, .option (some "a1") (some .selected)⟩,
      ⟨"n2", .and, .option (some "a2") (some .selected)⟩,
      ⟨"n3", .and, .option (some "a3") (some .notSelected)⟩]
    let a : Answers := ⟨[("a2", .selected)]⟩
    let r : Rule := ⟨"r1", cs, {}⟩
    q.conditionsOf {} (IdSupply.sequential "n") e.render = .ok (cs, .ofCounter ⟨"n", 4⟩) ∧
      Expr.parse ({} : Limits).maxExpressionDepth e.render = .ok e ∧ e.OrOverAnd ∧
      e.nodeCount .and ≤ 1 ∧ e.nodeCount .or ≤ 1 ∧ r.conditions = cs ∧
      r.matches 1 a = .ok (e.valueOn (cs.map (·.holds a))) := by
  intro q e cs a r
  have he : e.Readable := ⟨trivial, trivial, trivial⟩
  have hdec : q.conditionsOf {} (IdSupply.sequential "n") e.render =
      .ok (cs, .ofCounter ⟨"n", 4⟩) := by
    rw [q.conditionsOf_render rfl {} _ he (by decide)]
    rfl
  have hparse : Expr.parse ({} : Limits).maxExpressionDepth e.render = .ok e := by
    rw [Expr.parse_render he, if_pos (by decide)]
  exact ⟨hdec, hparse, by decide, by decide, by decide, rfl,
    Question.matches_conditionsOf hdec hparse (by decide) (by decide) (by decide) a rfl⟩

end SurveyBranching
