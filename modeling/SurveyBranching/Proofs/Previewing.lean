import SurveyBranching.Survey.Preview
import Mathlib.Data.List.Forall2
/-!
# What the preview shows

The preview walks the screens once, keeping the target of a jump under way and collecting the
ids of the questions it passes during a jump, and then drops those questions and the empty
ones by id. Said by positions instead: a respondent goes through the events of the survey, the
start of each screen and then its questions; an empty question is passed by; any other is
answered, and where its rules send the respondent to `t`, the walk goes on at the first event
after it with id `t`, and ends when there is none. When no two questions share an id, the
questions the preview keeps are exactly the ones answered on that walk.

Then each screen left with questions is finished: it is complete when all its questions are
answered, and a section screen ends at its first question that is unanswered and has rules.
The cut keeps that question, so completeness, reckoned before the cut, is the same after it.

## Main definitions

* `Event`, `Survey.events`: the starts of screens and the questions, in order.
* `jumpPath`: the questions answered on a walk through events that follows the jumps.
* `Screen.Cut`: the entries a finished screen keeps.

## Main statements

* `foldl_step_filter`: the walk that collects skipped ids simulates the walk by positions.
* `Survey.shown_eq_jumpPath`: the questions the preview keeps are those on the walk.
* `Survey.previewWith_screens`: the screens of the preview, one for each screen with a
  question left.
-/

namespace SurveyBranching

/-! ## The walk by positions -/

/-- What a respondent meets walking through a survey: the start of a screen, or a question. -/
inductive Event where
  | start (id : String)
  | question (q : Question)

/-- The id of the screen started, or of the question. -/
def Event.id : Event → String
  | .start id => id
  | .question q => q.id

/-- The question met, if the event is one. -/
def Event.question? : Event → Option Question
  | .start _ => none
  | .question q => some q

/-- The events of a survey: for each screen its start and then its questions, the screens
being the sections of a survey of sections, and otherwise the questions, each under its own
id. -/
def Survey.events (s : Survey) : List Event :=
  if s.usesSections then
    s.sections.flatMap fun sec => .start sec.id :: sec.questions.map .question
  else s.questions.flatMap fun q => [.start q.id, .question q]

section Walks

variable (h : Handler) (limits : Limits) (answers : SurveyAnswers)

/-- The questions answered on a walk through the events from the first: an empty question is
passed by; any other is answered, and where its rules send the respondent to `t` the walk goes
on at the first event after it with id `t`, and ends if there is none. -/
def jumpPath : List Event → List Question
  | [] => []
  | .start _ :: es => jumpPath es
  | .question q :: es =>
    if h.isEmpty q then jumpPath es
    else
      match q.jumpTarget? limits answers with
      | some t => q :: jumpPath (es.dropWhile (·.id != t))
      | none => q :: jumpPath es
termination_by es => es.length
decreasing_by
  all_goals simp only [List.length_cons]
  · omega
  · omega
  · have := (List.dropWhile_suffix (fun e : Event => e.id != t) (l := es)).length_le
    omega
  · omega

/-- The walk by positions resumed with a jump to `t` under way: it goes on at the first event
with id `t`. -/
def pathFrom : Option String → List Event → List Question
  | none, es => jumpPath h limits answers es
  | some t, es => jumpPath h limits answers (es.dropWhile (·.id != t))

variable {h limits answers}

@[simp] theorem jumpPath_nil : jumpPath h limits answers [] = [] := by
  rw [jumpPath]

@[simp] theorem jumpPath_start (id : String) (es : List Event) :
    jumpPath h limits answers (.start id :: es) = jumpPath h limits answers es := by
  rw [jumpPath]

/-- At a question the walk passes it by if it is empty, and otherwise answers it and goes on
where its rules send the respondent. -/
theorem jumpPath_question (q : Question) (es : List Event) :
    jumpPath h limits answers (.question q :: es) =
      if h.isEmpty q then jumpPath h limits answers es
      else q :: pathFrom h limits answers (q.jumpTarget? limits answers) es := by
  rw [jumpPath]
  cases q.jumpTarget? limits answers <;> rfl

@[simp] theorem pathFrom_nil (p : Option String) : pathFrom h limits answers p [] = [] := by
  cases p <;> simp [pathFrom]

/-- Entering the screen a jump goes to ends the jump. -/
theorem pathFrom_start (p : Option String) (id : String) (es : List Event) :
    pathFrom h limits answers p (.start id :: es) =
      pathFrom h limits answers (if p == some id then none else p) es := by
  cases p with
  | none => simp [pathFrom]
  | some t =>
    by_cases ht : id = t
    · subst ht
      simp [pathFrom, Event.id]
    · simp [pathFrom, Event.id, ht, Ne.symm ht]

/-- During a jump, a question that is not its target is passed over. -/
theorem pathFrom_question_of_ne {t : String} {q : Question} (hq : t ≠ q.id) (es : List Event) :
    pathFrom h limits answers (some t) (.question q :: es) =
      pathFrom h limits answers (some t) es := by
  simp [pathFrom, Event.id, Ne.symm hq]

/-- With no jump under way, or at the jump's target question, the walk takes up the question. -/
theorem pathFrom_question_of_ready {p : Option String} {q : Question}
    (hp : p = none ∨ p = some q.id) (es : List Event) :
    pathFrom h limits answers p (.question q :: es) =
      jumpPath h limits answers (.question q :: es) := by
  rcases hp with rfl | rfl
  · rfl
  · simp [pathFrom, Event.id]

end Walks

/-! ## The walk that collects skipped ids -/

section Collecting

variable (h : Handler) (limits : Limits) (answers : SurveyAnswers)

/-- The walk past one event: the start of a screen or a question. -/
def Walk.step (w : Walk) : Event → Walk
  | .start id => if w.pending == some id then { w with pending := none } else w
  | .question q => w.visit h limits answers q

/-- The events of a screen: its start, then its questions. -/
def Screen.events (sc : Screen) : List Event :=
  .start sc.id :: sc.entries.map (.question ·.question)

variable {h limits answers}

@[simp] theorem Walk.step_start_skipped (w : Walk) (id : String) :
    (w.step h limits answers (.start id)).skipped = w.skipped := by
  simp only [Walk.step]
  split <;> rfl

/-- Starting a screen ends a jump to it. -/
theorem Walk.step_start_pending (w : Walk) (id : String) :
    (w.step h limits answers (.start id)).pending =
      if w.pending == some id then none else w.pending := by
  simp only [Walk.step]
  split <;> simp_all

/-- A walk that is not ready for a question has a jump to another target under way. -/
theorem exists_of_not_ready {p : Option String} {id : String} (hp : ¬(p = none ∨ p = some id)) :
    ∃ t, p = some t ∧ t ≠ id := by
  obtain ⟨t, ht⟩ := Option.ne_none_iff_exists'.mp (not_or.mp hp).1
  exact ⟨t, ht, fun heq => (not_or.mp hp).2 (heq ▸ ht)⟩

/-- During a jump, a question that is not its target is skipped. -/
theorem Walk.visit_of_pending {w : Walk} {t : String} {q : Question} (ht : w.pending = some t)
    (hq : t ≠ q.id) : w.visit h limits answers q = ⟨some t, q.id :: w.skipped⟩ := by
  simp [Walk.visit, ht, hq]

/-- With no jump under way, or at the jump's target, an empty question is passed by and any
other may start a jump. -/
theorem Walk.visit_of_ready {w : Walk} {q : Question}
    (hp : w.pending = none ∨ w.pending = some q.id) :
    w.visit h limits answers q =
      if h.isEmpty q then ⟨none, w.skipped⟩ else ⟨q.jumpTarget? limits answers, w.skipped⟩ := by
  have hpending : (if w.pending == some q.id then none else w.pending) = none := by
    rcases hp with hp | hp <;> simp [hp]
  simp only [Walk.visit, hpending, Option.isSome_none, Bool.false_eq_true, if_false]
  split
  · rfl
  · cases q.jumpTarget? limits answers <;> rfl

/-- The walk past a screen is the walk past its events. -/
theorem Walk.enter_eq (w : Walk) (sc : Screen) :
    w.enter h limits answers sc = sc.events.foldl (Walk.step h limits answers) w := by
  simp [Walk.enter, Screen.events, Walk.step, List.foldl_map]

/-- The walk past screens is the walk past their events. -/
theorem foldl_enter (screens : List Screen) (w : Walk) :
    screens.foldl (Walk.enter h limits answers) w =
      (screens.flatMap Screen.events).foldl (Walk.step h limits answers) w := by
  induction screens generalizing w with
  | nil => rfl
  | cons sc screens ih => simp [Walk.enter_eq, ih, List.foldl_append]

/-- The screens of a survey put together are its events. -/
theorem Survey.flatMap_events_screens (h : Handler) (answers : SurveyAnswers) (s : Survey) :
    (s.screens h answers).flatMap Screen.events = s.events := by
  unfold Survey.screens Survey.events
  split <;> simp [Screen.events, Entry.ofQuestion, List.flatMap_map, Function.comp_def]

/-- The questions met on the events of a survey are its questions. -/
theorem Survey.filterMap_events (s : Survey) :
    s.events.filterMap Event.question? = s.questions := by
  unfold Survey.events Survey.questions
  split <;> simp [List.filterMap_flatMap, List.filterMap_cons, Event.question?, List.filterMap_map,
    Function.comp_def]

/-- The ids of the questions among some events. -/
def Event.questionIds (es : List Event) : List String :=
  (es.filterMap Event.question?).map (·.id)

@[simp] theorem Event.questionIds_nil : Event.questionIds [] = [] := rfl

@[simp] theorem Event.questionIds_start (id : String) (es : List Event) :
    Event.questionIds (.start id :: es) = Event.questionIds es := by
  simp [Event.questionIds, List.filterMap_cons, Event.question?]

@[simp] theorem Event.questionIds_question (q : Question) (es : List Event) :
    Event.questionIds (.question q :: es) = q.id :: Event.questionIds es := by
  simp [Event.questionIds, Event.question?]

theorem Event.questionIds_cons (e : Event) (es : List Event) :
    Event.questionIds (e :: es) = Event.questionIds [e] ++ Event.questionIds es := by
  cases e <;> simp

/-- A step adds to the skipped ids at most the id of the question it passes. -/
theorem Walk.step_skipped (h : Handler) (limits : Limits) (answers : SurveyAnswers) (w : Walk)
    (e : Event) :
    ∃ new, (w.step h limits answers e).skipped = new ++ w.skipped ∧
      ∀ x ∈ new, x ∈ Event.questionIds [e] := by
  cases e with
  | start id => exact ⟨[], by simp, by simp⟩
  | question q =>
    by_cases hp : w.pending = none ∨ w.pending = some q.id
    · refine ⟨[], ?_, by simp⟩
      simp only [Walk.step, Walk.visit_of_ready hp]
      split <;> rfl
    · obtain ⟨t, ht, hq⟩ := exists_of_not_ready hp
      refine ⟨[q.id], ?_, by simp⟩
      simp [Walk.step, Walk.visit_of_pending ht hq]

/-- **A walk only adds to the skipped ids, and only ids of the questions it passes.** -/
theorem foldl_step_skipped (h : Handler) (limits : Limits) (answers : SurveyAnswers)
    (es : List Event) (w : Walk) :
    ∃ new, (es.foldl (Walk.step h limits answers) w).skipped = new ++ w.skipped ∧
      ∀ x ∈ new, x ∈ Event.questionIds es := by
  induction es generalizing w with
  | nil => exact ⟨[], rfl, by simp⟩
  | cons e es ih =>
    obtain ⟨new₁, hstep, hnew₁⟩ := Walk.step_skipped h limits answers w e
    obtain ⟨new₂, hfold, hnew₂⟩ := ih (w.step h limits answers e)
    refine ⟨new₂ ++ new₁, by rw [List.foldl_cons, hfold, hstep, List.append_assoc], ?_⟩
    intro x hx
    rw [Event.questionIds_cons, List.mem_append]
    rcases List.mem_append.mp hx with hx | hx
    · exact .inr (hnew₂ x hx)
    · exact .inl (hnew₁ x hx)

/-- An id skipped stays skipped. -/
theorem mem_foldl_step_skipped {es : List Event} {w : Walk} {x : String} (hx : x ∈ w.skipped) :
    x ∈ (es.foldl (Walk.step h limits answers) w).skipped := by
  obtain ⟨new, hfold, -⟩ := foldl_step_skipped h limits answers es w
  rw [hfold]
  exact List.mem_append_right _ hx

/-- An id neither skipped yet nor of a question ahead is never skipped. -/
theorem not_mem_foldl_step_skipped {es : List Event} {w : Walk} {x : String}
    (hx : x ∉ w.skipped) (hes : x ∉ Event.questionIds es) :
    x ∉ (es.foldl (Walk.step h limits answers) w).skipped := by
  obtain ⟨new, hfold, hnew⟩ := foldl_step_skipped h limits answers es w
  rw [hfold, List.mem_append, not_or]
  exact ⟨fun hnewx => hes (hnew x hnewx), hx⟩

/-- **The walk that collects skipped ids simulates the walk by positions.** Walking events from
state `w`, when no two of their questions share an id and none of them is skipped already, the
questions neither skipped by the end nor empty are those the walk by positions answers,
resumed with the jump `w` has under way. -/
theorem foldl_step_filter (es : List Event) (w : Walk) (hnodup : (Event.questionIds es).Nodup)
    (hfresh : ∀ x ∈ w.skipped, x ∉ Event.questionIds es) :
    (es.filterMap Event.question?).filter
        (fun q =>
          !(es.foldl (Walk.step h limits answers) w).skipped.contains q.id && !h.isEmpty q) =
      pathFrom h limits answers w.pending es := by
  induction es generalizing w with
  | nil => simp
  | cons e es ih =>
    cases e with
    | start id =>
      -- Starting a screen skips nothing; it ends a jump to the screen, on both walks.
      simp only [List.filterMap_cons, Event.question?, List.foldl_cons] at hfresh ⊢
      rw [pathFrom_start, ← Walk.step_start_pending]
      exact ih _ (by simpa using hnodup) (by simpa using hfresh)
    | question q =>
      simp only [Event.questionIds_question, List.nodup_cons] at hnodup
      obtain ⟨hq, hnodup⟩ := hnodup
      simp only [Event.questionIds_question, List.mem_cons, not_or] at hfresh
      simp only [List.filterMap_cons, Event.question?, List.foldl_cons, List.filter_cons]
      by_cases hp : w.pending = none ∨ w.pending = some q.id
      · -- The walk takes `q` up and skips nothing here, so `q` stays unless it is empty.
        have hstep : w.visit h limits answers q = _ := Walk.visit_of_ready hp
        have hskipped : (w.step h limits answers (.question q)).skipped = w.skipped := by
          simp only [Walk.step, hstep]
          split <;> rfl
        have hstays : (es.foldl (Walk.step h limits answers)
            (w.step h limits answers (.question q))).skipped.contains q.id = false := by
          simpa using not_mem_foldl_step_skipped
            (hskipped ▸ fun hmem => (hfresh _ hmem).1 rfl) hq
        rw [pathFrom_question_of_ready hp, jumpPath_question, hstays,
          ih _ hnodup fun x hx => (hfresh x (hskipped ▸ hx)).2]
        by_cases hempty : h.isEmpty q
        · simp [hempty, Walk.step, hstep, pathFrom]
        · simp [hempty, Walk.step, hstep]
      · -- During a jump `q` is skipped, on both walks.
        obtain ⟨t, ht, hqt⟩ := exists_of_not_ready hp
        have hstep : w.step h limits answers (.question q) = ⟨some t, q.id :: w.skipped⟩ :=
          Walk.visit_of_pending ht hqt
        have hskipped : (es.foldl (Walk.step h limits answers)
            ⟨some t, q.id :: w.skipped⟩).skipped.contains q.id = true := by
          simpa using mem_foldl_step_skipped (w := ⟨some t, q.id :: w.skipped⟩)
            List.mem_cons_self
        rw [hstep, hskipped, ht, pathFrom_question_of_ne hqt]
        have hfresh' : ∀ x ∈ q.id :: w.skipped, x ∉ Event.questionIds es := by
          intro x hx
          rcases List.mem_cons.mp hx with rfl | hx
          · exact hq
          · exact (hfresh x hx).2
        simpa using ih ⟨some t, q.id :: w.skipped⟩ hnodup hfresh'

end Collecting

/-! ## Dropping questions and screens -/

section Keeping

variable {h : Handler} {skipped : List String}

/-- A screen is kept, with the questions that stay, exactly when one stays. -/
theorem Screen.keep_eq (sc : Screen) :
    sc.keep h skipped =
      if sc.entries.any (Entry.stays h skipped) then
        some { sc with entries := sc.entries.filter (Entry.stays h skipped) }
      else none := by
  unfold Screen.keep
  cases hf : sc.entries.filter (Entry.stays h skipped) with
  | nil =>
    have hnone : sc.entries.any (Entry.stays h skipped) = false := by
      simpa using List.filter_eq_nil_iff.mp hf
    simp [hnone]
  | cons e es =>
    have he : e ∈ sc.entries.filter (Entry.stays h skipped) := by
      rw [hf]
      exact List.mem_cons_self
    have hsome : sc.entries.any (Entry.stays h skipped) = true :=
      List.any_eq_true.mpr ⟨e, List.mem_filter.mp he⟩
    simp [hsome]

/-- **The screens kept are the screens with a question that stays, in order, each with the
questions that stay.** -/
theorem filterMap_keep (screens : List Screen) :
    screens.filterMap (Screen.keep h skipped) =
      (screens.filter fun sc => sc.entries.any (Entry.stays h skipped)).map
        fun sc => { sc with entries := sc.entries.filter (Entry.stays h skipped) } := by
  induction screens with
  | nil => rfl
  | cons sc screens ih =>
    rw [List.filterMap_cons, Screen.keep_eq, List.filter_cons]
    by_cases hany : sc.entries.any (Entry.stays h skipped) <;> simp [hany, ih]

/-- The questions on the screens kept are the questions that stay, in order. -/
theorem flatMap_filterMap_keep (screens : List Screen) :
    (screens.filterMap (Screen.keep h skipped)).flatMap (fun sc => sc.entries.map (·.question)) =
      (screens.flatMap fun sc => sc.entries.map (·.question)).filter
        fun q => !skipped.contains q.id && !h.isEmpty q := by
  induction screens with
  | nil => rfl
  | cons sc screens ih =>
    have hstays : ((fun q : Question => !skipped.contains q.id && !h.isEmpty q) ∘ (·.question)) =
        Entry.stays h skipped := rfl
    rw [List.filterMap_cons, Screen.keep_eq, List.flatMap_cons, List.filter_append,
      List.filter_map, hstays]
    by_cases hany : sc.entries.any (Entry.stays h skipped)
    · simp [hany, ih]
    · -- No question of the screen stays, and the screen goes.
      have hnil : sc.entries.filter (Entry.stays h skipped) = [] :=
        List.filter_eq_nil_iff.mpr (by simpa using hany)
      simp [hany, ih, hnil]

end Keeping

/-! ## The questions the preview keeps -/

/-- The questions of a screen are those met on its events. -/
theorem Screen.filterMap_events (sc : Screen) :
    sc.events.filterMap Event.question? = sc.entries.map (·.question) := by
  simp [Screen.events, List.filterMap_cons, Event.question?, List.filterMap_map, Function.comp_def]

/-- The questions on the screens of a survey are its questions. -/
theorem Survey.flatMap_screens (h : Handler) (answers : SurveyAnswers) (s : Survey) :
    (s.screens h answers).flatMap (fun sc => sc.entries.map (·.question)) = s.questions := by
  rw [← Survey.filterMap_events s, ← Survey.flatMap_events_screens h answers]
  simp [List.filterMap_flatMap, Screen.filterMap_events]

/-- **The preview keeps exactly the questions on the walk that follows the jumps.** When no two
questions of a survey share an id, the questions left on the screens, before section screens
are cut, are, in order, those a respondent answers going through the starts of the screens
and the questions: passing empty questions by, and after any other going on at the first
event with the id its rules send the respondent to, or stopping where there is none. -/
theorem Survey.shown_eq_jumpPath (h : Handler) (limits : Limits) (answers : SurveyAnswers)
    (s : Survey) (hids : (s.questions.map (·.id)).Nodup) :
    (s.shown h limits answers).flatMap (fun sc => sc.entries.map (·.question)) =
      jumpPath h limits answers s.events := by
  have hskipped : Screen.skippedIds h limits answers (s.screens h answers) =
      (s.events.foldl (Walk.step h limits answers) {}).skipped := by
    rw [Screen.skippedIds, foldl_enter, Survey.flatMap_events_screens]
  have hnodup : (Event.questionIds s.events).Nodup := by
    rwa [Event.questionIds, Survey.filterMap_events]
  unfold Survey.shown
  rw [flatMap_filterMap_keep, Survey.flatMap_screens, hskipped, ← Survey.filterMap_events s]
  exact foldl_step_filter s.events {} hnodup (by simp)

/-- A question whose rule holds while its option is not picked sends the respondent from the
first question to the third. -/
theorem Survey.shown_eq_jumpPath_jumpOver :
    let s : Survey := { id := "s", sections := [{ id := "s1", questions := [
      { id := "q1", kind := .single, title := "Q1", options := [⟨"a1", "A"⟩],
        rules := some ⟨[⟨"r1", [⟨"c1", .and, .option (some "a1") (some .notSelected)⟩],
          ⟨some .question, some "q3"⟩⟩]⟩ },
      { id := "q2", kind := .single, title := "Q2" },
      { id := "q3", kind := .single, title := "Q3" }] }] }
    (s.questions.map (·.id)).Nodup ∧
      (s.shown Handler.default {} {}).flatMap (fun sc => sc.entries.map (·.question)) =
        jumpPath Handler.default {} {} s.events := by
  intro s
  have hids : (s.questions.map (·.id)).Nodup := by decide
  exact ⟨hids, Survey.shown_eq_jumpPath Handler.default {} {} s hids⟩

/-! ## Finishing screens -/

/-- An entry holds a section screen back: it is unanswered and has rules, so what follows it
depends on its answer. -/
def Entry.blocks (e : Entry) : Bool :=
  !e.isAnswered && e.question.hasRules

/-- The entries `out` that a finished screen of kind `kind` keeps of `es`: all of them on a
question screen; on a section screen those up to and including the first that holds the
screen back, all of them when none does. -/
def Screen.Cut : ScreenKind → List Entry → List Entry → Prop
  | .question, es, out => out = es
  | .section, es, out =>
    (∀ e ∈ es, e.blocks = false) ∧ out = es ∨
      ∃ pre e post, es = pre ++ e :: post ∧ (∀ x ∈ pre, x.blocks = false) ∧ e.blocks = true ∧
        out = pre ++ [e]

/-- Up to the first index where `p` holds, a list is a start on which `p` fails, then that
element. -/
theorem take_succ_of_findIdx? {α : Type} {p : α → Bool} {l : List α} {i : Nat}
    (hi : l.findIdx? p = some i) :
    ∃ pre x post, l = pre ++ x :: post ∧ (∀ y ∈ pre, p y = false) ∧ p x = true ∧
      l.take (i + 1) = pre ++ [x] := by
  obtain ⟨hlt, hp, hbefore⟩ := List.findIdx?_eq_some_iff_getElem.mp hi
  refine ⟨l.take i, l[i], l.drop (i + 1), ?_, ?_, hp, List.take_succ_eq_append_getElem hlt⟩
  · rw [← List.drop_eq_getElem_cons hlt, List.take_append_drop]
  · intro y hy
    obtain ⟨j, hj, rfl⟩ := List.mem_take_iff_getElem.mp hy
    simpa using hbefore j (by omega)

/-- **A finished screen keeps its entries up to the cut.** -/
theorem Screen.cut_finish (sc : Screen) : Screen.Cut sc.kind sc.entries sc.finish.entries := by
  unfold Screen.finish
  cases hk : sc.kind with
  | question => simp [Screen.Cut]
  | «section» =>
    simp only [Screen.Cut, beq_self_eq_true, if_true]
    cases hi : sc.entries.findIdx? (fun e => !e.isAnswered && e.question.hasRules) with
    | none => exact .inl ⟨fun e he => List.findIdx?_eq_none_iff.mp hi e he, rfl⟩
    | some i =>
      obtain ⟨pre, e, post, hes, hpre, he, htake⟩ := take_succ_of_findIdx? hi
      exact .inr ⟨pre, e, post, hes, hpre, he, htake⟩

/-- The cut keeps a question of a screen with one. -/
theorem Screen.Cut.ne_nil {kind : ScreenKind} {es out : List Entry} (hcut : Screen.Cut kind es out)
    (hne : es ≠ []) : out ≠ [] := by
  cases kind with
  | question => exact (show out = es from hcut) ▸ hne
  | «section» =>
    rcases hcut with ⟨-, rfl⟩ | ⟨pre, e, post, -, -, -, rfl⟩
    · exact hne
    · simp

/-- **The cut keeps completeness**: it keeps the question that holds the screen back, which is
unanswered, so what is left is all answered exactly when the whole was. -/
theorem Screen.Cut.all_isAnswered {kind : ScreenKind} {es out : List Entry}
    (hcut : Screen.Cut kind es out) : out.all (·.isAnswered) = es.all (·.isAnswered) := by
  cases kind with
  | question => rw [show out = es from hcut]
  | «section» =>
    rcases hcut with ⟨-, rfl⟩ | ⟨pre, e, post, rfl, -, he, rfl⟩
    · rfl
    · have hunanswered : e.isAnswered = false := by
        simp only [Entry.blocks, Bool.and_eq_true, Bool.not_eq_eq_eq_not, Bool.not_true] at he
        exact he.1
      simp [hunanswered]

/-- **The screens of the preview.** In the order of the screens built from the survey, the
preview has one screen for each screen with a question that stays, that is, neither skipped
nor empty. It keeps the screen's id, kind and title, and has questions: on a question screen
the questions that stay, on a section screen those up to and including the first that is
unanswered and has rules. It is complete exactly when all the questions it shows are
answered. -/
theorem Survey.previewWith_screens (h : Handler) (limits : Limits) (answers : SurveyAnswers)
    (s : Survey) :
    List.Forall₂
      (fun sc out => out.id = sc.id ∧ out.kind = sc.kind ∧ out.title = sc.title ∧
        out.entries ≠ [] ∧
        Screen.Cut sc.kind
          (sc.entries.filter
            (Entry.stays h (Screen.skippedIds h limits answers (s.screens h answers))))
          out.entries ∧
        out.isComplete = out.entries.all (·.isAnswered))
      ((s.screens h answers).filter fun sc =>
        sc.entries.any (Entry.stays h (Screen.skippedIds h limits answers (s.screens h answers))))
      (s.previewWith h limits answers) := by
  simp only [Survey.previewWith, Survey.shown]
  generalize Screen.skippedIds h limits answers (s.screens h answers) = skipped
  rw [filterMap_keep, List.map_map, List.forall₂_map_right_iff, List.forall₂_same]
  intro sc hsc
  -- The screen keeps a question, and its finished form keeps one too.
  have hne : sc.entries.filter (Entry.stays h skipped) ≠ [] := by
    obtain ⟨e, he, hstays⟩ := List.any_eq_true.mp (List.mem_filter.mp hsc).2
    exact List.ne_nil_of_mem (List.mem_filter.mpr ⟨he, hstays⟩)
  have hcut := Screen.cut_finish { sc with entries := sc.entries.filter (Entry.stays h skipped) }
  exact ⟨rfl, rfl, rfl, hcut.ne_nil hne, hcut, hcut.all_isAnswered.symm⟩

end SurveyBranching
