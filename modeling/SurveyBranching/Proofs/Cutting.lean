import SurveyBranching.Proofs.Splitting
import Mathlib.Data.List.Forall2
/-!
# Where splitting cuts

Splitting cuts a section exactly after its questions with rules and after its last question.
Said without the splitting function: the runs of a list of questions are the one way to cut it
into non-empty pieces, in order and losing nothing, such that no question with rules stands
before the end of a piece and every piece but the last ends at a question with rules. So the
ends of the pieces are the questions with rules and the last question, one piece each.

The first piece of a section keeps the section's id and title; each later piece, across all
sections in order, takes the next id of the supply and has no title; an empty section gives no
piece. A layout whose sections are not empty and already end at their questions with rules is
split into itself without drawing an id, and so splitting twice splits as once.

## Main definitions

* `Section.CutAtRules`: a list of questions cut after its questions with rules and its last.
* `Section.SplitInto`: a section split into a list of sections.

## Main statements

* `Section.cutAtRules_iff`: the runs are the only cut after the questions with rules.
* `splitSections_eq_self`: splitting a settled layout changes nothing and draws no id.
* `splitSections_cuts_at_rules`: what splitting gives, section by section.
-/

namespace SurveyBranching

variable {σ : Type}

/-- The first `a + b` ids of a supply are its first `a`, then the first `b` after them. -/
theorem IdSupply.drawMany_add (s : IdSupply σ) (a b : Nat) :
    s.drawMany (a + b) =
      ((s.drawMany a).1 ++ ((s.drawMany a).2.drawMany b).1, ((s.drawMany a).2.drawMany b).2) := by
  induction a generalizing s with
  | zero => simp [IdSupply.drawMany]
  | succ a ih =>
    rw [Nat.succ_add]
    simp [IdSupply.drawMany, ih]

namespace Section

/-- The pieces `rs` cut the questions `qs` after each question with rules and after the last:
put together they are `qs`, none is empty, no question with rules stands before the end of a
piece, and every piece but the last ends at a question with rules. -/
def CutAtRules (qs : List Question) (rs : List (List Question)) : Prop :=
  rs.flatten = qs ∧ (∀ r ∈ rs, r ≠ []) ∧ (∀ r ∈ rs, ∀ q ∈ r.dropLast, q.hasRules = false) ∧
    ∀ r ∈ rs.dropLast, ∀ q ∈ r.getLast?, q.hasRules = true

/-- Every run has a question. -/
theorem ne_nil_of_mem_runs {qs r : List Question} (hr : r ∈ runs qs) : r ≠ [] := by
  fun_induction runs qs generalizing r with
  | case1 => cases hr
  | case2 q rest _ ih =>
    rcases List.mem_cons.mp hr with rfl | hr
    · simp
    · exact ih hr
  | case3 q rest _ _ _ =>
    obtain rfl : r = [q] := by simpa using hr
    simp
  | case4 q rest _ r' rs hcons ih =>
    rcases List.mem_cons.mp hr with rfl | hr
    · simp
    · exact ih (by simp [hcons, hr])

/-- Every run but the last ends at a question with rules. -/
theorem hasRules_of_mem_dropLast_runs {qs r : List Question} (hr : r ∈ (runs qs).dropLast) :
    ∀ q ∈ r.getLast?, q.hasRules = true := by
  fun_induction runs qs generalizing r with
  | case1 => cases hr
  | case2 q rest hq ih =>
    cases hrest : runs rest with
    | nil => simp [hrest] at hr
    | cons r' rs =>
      rw [hrest, List.dropLast_cons_cons] at hr
      rcases List.mem_cons.mp hr with rfl | hr
      · simpa using hq
      · exact ih (by rw [hrest]; exact hr)
  | case3 q rest _ _ _ => simp at hr
  | case4 q rest _ r' rs hcons ih =>
    rw [hcons] at ih
    have hne : r' ≠ [] := ne_nil_of_mem_runs (by rw [hcons]; exact List.mem_cons_self)
    cases rs with
    | nil => simp at hr
    | cons r'' rs =>
      rw [List.dropLast_cons_cons] at hr ih
      rcases List.mem_cons.mp hr with rfl | hr
      · -- The first run is the first run of `rest` with `q` in front, and ends where it does.
        obtain ⟨y, r₀, rfl⟩ := List.exists_cons_of_ne_nil hne
        rw [List.getLast?_cons_cons]
        exact ih List.mem_cons_self
      · exact ih (List.mem_cons_of_mem _ hr)

/-- The runs of a list cut it after its questions with rules and after its last question. -/
theorem cutAtRules_runs (qs : List Question) : CutAtRules qs (runs qs) :=
  ⟨flatten_runs qs, fun _ => ne_nil_of_mem_runs, fun _ => rulesAtEnd_of_mem_runs,
    fun _ => hasRules_of_mem_dropLast_runs⟩

/-- The pieces after the first cut what they hold. -/
theorem CutAtRules.tail {qs r : List Question} {rs : List (List Question)}
    (h : CutAtRules qs (r :: rs)) : CutAtRules rs.flatten rs := by
  obtain ⟨-, hne, hrules, hlast⟩ := h
  refine ⟨rfl, fun r' hr' => hne r' (List.mem_cons_of_mem _ hr'),
    fun r' hr' => hrules r' (List.mem_cons_of_mem _ hr'), fun r' hr' => hlast r' ?_⟩
  cases rs with
  | nil => cases hr'
  | cons r'' rs => exact List.mem_cons_of_mem _ hr'

/-- A cut of no questions has no pieces. -/
theorem CutAtRules.eq_nil {rs : List (List Question)} (h : CutAtRules [] rs) : rs = [] := by
  obtain ⟨hflat, hne, -, -⟩ := h
  cases rs with
  | nil => rfl
  | cons r rs =>
    have hr : r = [] := by simp at hflat; exact hflat.1
    exact absurd hr (hne r List.mem_cons_self)

/-- The last question of a proper start of a list stands before the end of the list. -/
theorem mem_dropLast_of_getLast? {r' c : List Question} (hc : c ≠ []) {x : Question}
    (hx : x ∈ r'.getLast?) : x ∈ (r' ++ c).dropLast := by
  rw [List.dropLast_append_of_ne_nil hc]
  exact List.mem_append_left _ (List.mem_of_getLast? hx)

/-- Two cuts after the questions with rules have first pieces of the same length: a shorter
first piece would end at a question with rules standing inside the other's first piece. -/
theorem CutAtRules.length_head_le {qs r r' : List Question} {rs rs' : List (List Question)}
    (h : CutAtRules qs (r :: rs)) (h' : CutAtRules qs (r' :: rs')) : r.length ≤ r'.length := by
  obtain ⟨hflat, hne, hrules, -⟩ := h
  obtain ⟨hflat', hne', -, hlast'⟩ := h'
  refine Nat.le_of_not_lt fun hlt => ?_
  have hsplit : r ++ rs.flatten = r' ++ rs'.flatten := by
    rw [← List.flatten_cons, hflat, ← hflat', List.flatten_cons]
  -- `r'` is a proper start of `r`.
  obtain ⟨c, hr, -⟩ : ∃ c, r = r' ++ c ∧ rs'.flatten = c ++ rs.flatten := by
    rcases List.append_eq_append_iff.mp hsplit with ⟨a, rfl, -⟩ | h
    · rw [List.length_append] at hlt
      omega
    · exact h
  have hc : c ≠ [] := by
    rintro rfl
    simp [hr] at hlt
  obtain ⟨x, hx⟩ := Option.isSome_iff_exists.mp
    (List.getLast?_isSome.mpr (hne' r' List.mem_cons_self))
  -- Its last question stands inside `r`, so it has no rules ...
  have hnone := hrules r List.mem_cons_self x (hr ▸ mem_dropLast_of_getLast? hc hx)
  -- ... yet `r'` is not the last piece, so it ends at a question with rules.
  have hrs' : rs' ≠ [] := by
    rintro rfl
    simp [hr] at hsplit
    exact hc hsplit.1
  obtain ⟨r'', rs'', rfl⟩ := List.exists_cons_of_ne_nil hrs'
  have hsome := hlast' r' (by rw [List.dropLast_cons_cons]; exact List.mem_cons_self) x hx
  rw [hnone] at hsome
  cases hsome

/-- **A list has one cut after its questions with rules.** -/
theorem CutAtRules.unique {qs : List Question} {rs rs' : List (List Question)}
    (h : CutAtRules qs rs) (h' : CutAtRules qs rs') : rs = rs' := by
  induction rs generalizing qs rs' with
  | nil =>
    obtain rfl : qs = [] := h.1.symm
    exact (h'.eq_nil).symm
  | cons r rs ih =>
    cases rs' with
    | nil =>
      obtain rfl : qs = [] := h'.1.symm
      exact absurd h.eq_nil (List.cons_ne_nil r rs)
    | cons r' rs' =>
      have hlen : r.length = r'.length :=
        Nat.le_antisymm (h.length_head_le h') (h'.length_head_le h)
      have hsplit : r ++ rs.flatten = r' ++ rs'.flatten := by
        rw [← List.flatten_cons, h.1, ← h'.1, List.flatten_cons]
      obtain ⟨rfl, hrest⟩ := List.append_inj hsplit hlen
      rw [ih h.tail (hrest ▸ h'.tail)]

/-- **The runs are the only cut after the questions with rules.** -/
theorem cutAtRules_iff {qs : List Question} {rs : List (List Question)} :
    CutAtRules qs rs ↔ rs = runs qs :=
  ⟨fun h => h.unique (cutAtRules_runs qs), fun h => h ▸ cutAtRules_runs qs⟩

/-- A list with questions that already ends at its only question with rules is one run. -/
theorem runs_eq_singleton {qs : List Question} (hne : qs ≠ [])
    (hend : ∀ q ∈ qs.dropLast, q.hasRules = false) : runs qs = [qs] :=
  (cutAtRules_iff.mp ⟨by simp, by simpa using hne, by simpa using hend, by simp⟩).symm

/-! ## Sections -/

/-- Each piece after the first takes the next id of the supply, in order. -/
theorem pieces_ids (ids : IdSupply σ) (rs : List (List Question)) :
    (pieces ids rs).1.map (·.id) = (ids.drawMany rs.length).1 ∧
      (pieces ids rs).2 = (ids.drawMany rs.length).2 := by
  induction rs generalizing ids with
  | nil => exact ⟨rfl, rfl⟩
  | cons r rs ih =>
    obtain ⟨hids, hsupply⟩ := ih ids.draw.2
    exact ⟨by simp [pieces, IdSupply.drawMany, hids], by simp [pieces, IdSupply.drawMany, hsupply]⟩

/-- The pieces after the first have no title. -/
theorem pieces_title (ids : IdSupply σ) (rs : List (List Question)) :
    ∀ x ∈ (pieces ids rs).1, x.title = none := by
  induction rs generalizing ids with
  | nil => simp [pieces]
  | cons r rs ih =>
    intro x hx
    simp only [pieces, List.mem_cons] at hx
    rcases hx with rfl | hx
    · rfl
    · exact ih _ x hx

theorem length_pieces (ids : IdSupply σ) (rs : List (List Question)) :
    (pieces ids rs).1.length = rs.length := by
  rw [← List.length_map (f := («Section».questions)), pieces_questions]

/-- Section `sec` split into the sections `g`: their questions are the cut of its questions
after its questions with rules, the first keeps its id and title, and the others have no
title. A section without questions is split into none (`CutAtRules.eq_nil`). -/
def SplitInto (sec : «Section») (g : List «Section») : Prop :=
  CutAtRules sec.questions (g.map (·.questions)) ∧
    (∀ first ∈ g.head?, first.id = sec.id ∧ first.title = sec.title) ∧
    ∀ x ∈ g.tail, x.title = none

/-- **How one section is split**: into its runs, the first keeping the section's id and title,
each later one with the next id of the supply and no title. -/
theorem split_spec (ids : IdSupply σ) (sec : «Section») :
    sec.SplitInto (sec.split ids).1 ∧
      (sec.split ids).1.tail.map (·.id) = (ids.drawMany (sec.split ids).1.tail.length).1 ∧
      (sec.split ids).2 = (ids.drawMany (sec.split ids).1.tail.length).2 := by
  have hcut := cutAtRules_runs sec.questions
  unfold split
  split
  · next h =>
    rw [h] at hcut
    exact ⟨⟨hcut, by simp, by simp⟩, rfl, rfl⟩
  · next first rest h =>
    rw [h] at hcut
    obtain ⟨hids, hsupply⟩ := pieces_ids ids rest
    refine ⟨⟨by simpa [pieces_questions] using hcut, by simp, ?_⟩, ?_, ?_⟩
    · exact fun x hx => pieces_title ids rest x hx
    · simpa [length_pieces] using hids
    · simpa [length_pieces] using hsupply

/-- A section with questions that already ends at its only question with rules is split into
itself, drawing no id. -/
theorem split_eq_self {ids : IdSupply σ} {sec : «Section»} (hne : sec.questions ≠ [])
    (hend : sec.RulesAtEnd) : sec.split ids = ([sec], ids) := by
  unfold split
  rw [runs_eq_singleton hne hend]
  rfl

end Section

theorem splitSections_cons (ids : IdSupply σ) (sec : «Section») (rest : List «Section») :
    splitSections ids (sec :: rest) =
      ((sec.split ids).1 ++ (splitSections (sec.split ids).2 rest).1,
        (splitSections (sec.split ids).2 rest).2) :=
  rfl

/-- **What splitting gives, section by section**: in order, the splits of the sections, the
pieces after the first of each taking the next ids of the supply, in order across all sections;
the supply moves on by as many ids. -/
theorem splitSections_spec (ids : IdSupply σ) (secs : List «Section») :
    ∃ gs, List.Forall₂ Section.SplitInto secs gs ∧ (splitSections ids secs).1 = gs.flatten ∧
      (gs.flatMap (·.tail)).map (·.id) = (ids.drawMany (gs.flatMap (·.tail)).length).1 ∧
      (splitSections ids secs).2 = (ids.drawMany (gs.flatMap (·.tail)).length).2 := by
  induction secs generalizing ids with
  | nil => exact ⟨[], .nil, rfl, rfl, rfl⟩
  | cons sec rest ih =>
    obtain ⟨hinto, hids, hsupply⟩ := sec.split_spec ids
    obtain ⟨gs, hall, hout, hids', hsupply'⟩ := ih (sec.split ids).2
    refine ⟨(sec.split ids).1 :: gs, .cons hinto hall, by rw [splitSections_cons, hout]; rfl,
      ?_, ?_⟩
    · -- The fresh ids of the first section's pieces, then those of the rest.
      rw [List.flatMap_cons, List.length_append, IdSupply.drawMany_add, List.map_append, hids,
        ← hsupply, hids']
    · rw [splitSections_cons, hsupply', List.flatMap_cons, List.length_append,
        IdSupply.drawMany_add, ← hsupply]

/-- Every section after splitting has a question. -/
theorem questions_ne_nil_of_mem_splitSections {ids : IdSupply σ} {secs : List «Section»}
    {sec' : «Section»} (h : sec' ∈ (splitSections ids secs).1) : sec'.questions ≠ [] := by
  have hq : sec'.questions ∈ (splitSections ids secs).1.map (·.questions) :=
    List.mem_map_of_mem h
  rw [splitSections_questions] at hq
  obtain ⟨sec, -, hr⟩ := List.mem_flatMap.mp hq
  exact Section.ne_nil_of_mem_runs hr

/-- **Splitting a layout whose sections have questions and end at their questions with rules
changes nothing and draws no id.** -/
theorem splitSections_eq_self {secs : List «Section»}
    (h : ∀ sec ∈ secs, sec.questions ≠ [] ∧ sec.RulesAtEnd) (ids : IdSupply σ) :
    splitSections ids secs = (secs, ids) := by
  induction secs with
  | nil => rfl
  | cons sec rest ih =>
    obtain ⟨hne, hend⟩ := h sec List.mem_cons_self
    rw [splitSections_cons, Section.split_eq_self hne hend,
      ih fun sec' hsec' => h sec' (List.mem_cons_of_mem _ hsec')]
    rfl

/-- **Splitting cuts sections exactly after their questions with rules.** Splitting keeps the
questions and their order; every section it gives has questions and ends at its only question
with rules; section by section it gives the cut of each section's questions after its
questions with rules and its last, the first piece with the section's id and title and the
later pieces with the supply's next ids, in order, and no title, and nothing for a section
without questions. A layout of sections with questions, each ending at its questions with
rules, is split into itself with no id drawn, so splitting twice splits as once. -/
theorem splitSections_cuts_at_rules (ids : IdSupply σ) (secs : List «Section») :
    (splitSections ids secs).1.flatMap (·.questions) = secs.flatMap (·.questions) ∧
    (∀ sec ∈ (splitSections ids secs).1, sec.questions ≠ [] ∧ sec.RulesAtEnd) ∧
    (∃ gs, List.Forall₂ Section.SplitInto secs gs ∧ (splitSections ids secs).1 = gs.flatten ∧
      (gs.flatMap (·.tail)).map (·.id) = (ids.drawMany (gs.flatMap (·.tail)).length).1 ∧
      (splitSections ids secs).2 = (ids.drawMany (gs.flatMap (·.tail)).length).2) ∧
    ((∀ sec ∈ secs, sec.questions ≠ [] ∧ sec.RulesAtEnd) →
      splitSections ids secs = (secs, ids)) ∧
    ∀ {τ : Type} (ids' : IdSupply τ),
      splitSections ids' (splitSections ids secs).1 = ((splitSections ids secs).1, ids') := by
  have hsettled : ∀ sec ∈ (splitSections ids secs).1, sec.questions ≠ [] ∧ sec.RulesAtEnd :=
    fun _ h => ⟨questions_ne_nil_of_mem_splitSections h, rulesAtEnd_of_mem_splitSections h⟩
  exact ⟨questions_splitSections ids secs, hsettled, splitSections_spec ids secs,
    fun h => splitSections_eq_self h ids, splitSections_eq_self hsettled⟩

end SurveyBranching
