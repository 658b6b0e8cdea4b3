import PolishCalc.Bench

namespace PolishCalc

/-- `InTurn step run`: what `run` does with a list is to take its steps in turn, up to the first that
fails. -/
structure InTurn {σ α ε : Type} (step : σ → α → σ × Option ε)
    (run : σ → List α → σ × Option ε) : Prop where
  nil : ∀ s, run s [] = (s, none)
  done : ∀ {s s' : σ} {a : α}, step s a = (s', none) → ∀ as, run s (a :: as) = run s' as
  failed : ∀ {s s' : σ} {a : α} {f : ε}, step s a = (s', some f) →
    ∀ as, run s (a :: as) = (s', some f)

/-- Goes on where nothing has failed. -/
def goOn {σ ε : Type} (o : σ × Option ε) (next : σ → σ × Option ε) : σ × Option ε :=
  match o with
  | (s, none) => next s
  | (s, some f) => (s, some f)

/-- The longest first part of a list that completes. -/
structure LongestDone {α : Type} (completes : List α → Prop) (xs before : List α) : Prop where
  front : before <+: xs
  done : completes before
  longest : ∀ ys, ys <+: xs → completes ys → ys <+: before

section LongestDone

variable {α : Type} {completes : List α → Prop}

theorem LongestDone.whole {xs : List α} (done : completes xs) : LongestDone completes xs xs :=
  ⟨List.prefix_refl xs, done, fun _ front _ => front⟩

theorem LongestDone.of_stop {before : List α} {a : α} (done : completes before)
    (stops : ∀ rest, ¬ completes (before ++ a :: rest)) (after : List α) :
    LongestDone completes (before ++ a :: after) before := by
  have first := List.prefix_append before (a :: after)
  refine ⟨first, done, fun ys front completed => ?_⟩
  rcases List.prefix_or_prefix_of_prefix front first with shorter | ⟨zs, rfl⟩
  · exact shorter
  · cases zs with
    | nil => simp
    | cons b zs =>
      have next := (List.prefix_append_right_inj before).mp front
      obtain ⟨rfl, _⟩ := List.cons_prefix_cons.mp next
      exact absurd completed (stops zs)

end LongestDone

namespace InTurn

variable {σ α ε : Type} {step : σ → α → σ × Option ε} {run : σ → List α → σ × Option ε}

theorem append (h : InTurn step run) (s : σ) (as bs : List α) :
    run s (as ++ bs) = goOn (run s as) fun s' => run s' bs := by
  induction as generalizing s with
  | nil =>
    rw [List.nil_append, h.nil]
    rfl
  | cons a as ih =>
    rcases first : step s a with ⟨s₁, _ | f⟩
    · rw [List.cons_append, h.done first, h.done first, ih]
    · rw [List.cons_append, h.failed first, h.failed first]
      rfl

/-- A list fails in the first of its steps that does. -/
theorem eq_failed_iff (h : InTurn step run) {s s' : σ} {as : List α} {f : ε} :
    run s as = (s', some f) ↔ ∃ before a after s₁, as = before ++ a :: after ∧
      run s before = (s₁, none) ∧ step s₁ a = (s', some f) := by
  constructor
  · intro failed
    induction as generalizing s with
    | nil =>
      rw [h.nil] at failed
      cases failed
    | cons a as ih =>
      rcases first : step s a with ⟨s₁, _ | g⟩
      · rw [h.done first] at failed
        obtain ⟨before, b, after, s₂, rfl, done, stops⟩ := ih failed
        exact ⟨a :: before, b, after, s₂, rfl, (h.done first before).trans done, stops⟩
      · rw [h.failed first] at failed
        cases failed
        exact ⟨[], a, as, s, rfl, h.nil s, first⟩
  · rintro ⟨before, a, after, s₁, rfl, done, stops⟩
    rw [h.append, done]
    exact h.failed stops after

/-- If a step that fails keeps something of the state, then the longest part that completes has left
it as the whole list does. -/
theorem exists_longestDone (h : InTurn step run) {β : Type} {kept : σ → β}
    (keeps : ∀ s s' a f, step s a = (s', some f) → kept s' = kept s) (s : σ) (as : List α) :
    ∃ before, LongestDone (fun bs => (run s bs).2 = none) as before ∧
      kept (run s as).1 = kept (run s before).1 := by
  rcases whole : run s as with ⟨s', _ | f⟩
  · have completed : (run s as).2 = none := by rw [whole]
    exact ⟨as, .whole completed, by rw [whole]⟩
  · obtain ⟨before, a, after, s₁, rfl, done, stops⟩ := h.eq_failed_iff.mp whole
    have completed : (run s before).2 = none := by rw [done]
    have incomplete : ∀ rest, ¬ (run s (before ++ a :: rest)).2 = none := by
      intro rest
      rw [h.eq_failed_iff.mpr ⟨before, a, rest, s₁, rfl, done, stops⟩]
      simp
    refine ⟨before, .of_stop completed incomplete after, ?_⟩
    rw [done]
    exact keeps s₁ s' a f stops

end InTurn

/-- The state that is left, with the failure. -/
def Outcome.parts {σ : Type} (o : Outcome σ) : σ × Option Failure :=
  (o.state, o.failure)

theorem Outcome.parts_eq_iff {σ : Type} {o : Outcome σ} {s : σ} {f : Option Failure} :
    o.parts = (s, f) ↔ o = ⟨s, f⟩ := by
  cases o
  simp [parts]

theorem Outcome.parts_inj {σ : Type} {o o' : Outcome σ} : o.parts = o'.parts ↔ o = o' :=
  parts_eq_iff

theorem Outcome.parts_andThen {σ : Type} (o : Outcome σ) (next : σ → Outcome σ) :
    (o.andThen next).parts = goOn o.parts fun s => (next s).parts := by
  obtain ⟨s, _ | f⟩ := o <;> rfl

namespace Session

/-- An action that fails leaves the session as it is. -/
def turn (s : Session) (a : Action) : Session × Option Failure :=
  match s.act a with
  | .ok s' => (s', none)
  | .error f => (s, some f)

theorem turn_eq_done_iff {s s' : Session} {a : Action} :
    s.turn a = (s', none) ↔ s.act a = .ok s' := by
  rw [turn]
  cases s.act a <;> simp

theorem turn_eq_failed_iff {s s' : Session} {a : Action} {f : Failure} :
    s.turn a = (s', some f) ↔ s = s' ∧ s.act a = .error f := by
  rw [turn]
  cases s.act a <;> simp

theorem inTurn_execute : InTurn turn fun s p => (s.execute p).parts where
  nil s := rfl
  done acted p := by simp only [execute, turn_eq_done_iff.mp acted]
  failed acted p := by
    obtain ⟨rfl, failure⟩ := turn_eq_failed_iff.mp acted
    simp only [execute, failure, Outcome.parts]

theorem execute_append (s : Session) (p q : Program) :
    s.execute (p ++ q) = (s.execute p).andThen fun s' => s'.execute q := by
  rw [← Outcome.parts_inj, Outcome.parts_andThen]
  exact inTurn_execute.append s p q

/-- A program fails in the first action that does, in the session that the actions before it
leave. -/
theorem execute_eq_failed_iff {s s' : Session} {p : Program} {f : Failure} :
    s.execute p = ⟨s', some f⟩ ↔ ∃ before a after, p = before ++ a :: after ∧
      s.execute before = ⟨s', none⟩ ∧ s'.act a = .error f := by
  rw [← Outcome.parts_eq_iff, inTurn_execute.eq_failed_iff]
  constructor
  · rintro ⟨before, a, after, s₁, split, done, failed⟩
    obtain ⟨rfl, failure⟩ := turn_eq_failed_iff.mp failed
    exact ⟨before, a, after, split, Outcome.parts_eq_iff.mp done, failure⟩
  · rintro ⟨before, a, after, split, done, failed⟩
    exact ⟨before, a, after, s', split, Outcome.parts_eq_iff.mpr done,
      turn_eq_failed_iff.mpr ⟨rfl, failed⟩⟩

/-- What a program has stored and printed when it ends is what the longest part of it that completes
has. -/
theorem exists_longestDone (s : Session) (p : Program) :
    ∃ before, LongestDone (fun q => (s.execute q).failure = none) p before ∧
      (s.execute p).state = (s.execute before).state :=
  inTurn_execute.exists_longestDone
    (fun _ _ _ _ failed => (turn_eq_failed_iff.mp failed).1.symm) s p

end Session

namespace Machine

theorem inTurn_steps :
    InTurn (fun m i => (m.step i).parts) fun (m : Machine) is => (m.steps is).parts where
  nil m := rfl
  done first is := by simp only [steps, Outcome.parts_eq_iff.mp first]
  failed first is := by simp only [steps, Outcome.parts_eq_iff.mp first, Outcome.parts]

theorem steps_append (m : Machine) (is js : List Instruction) :
    m.steps (is ++ js) = (m.steps is).andThen fun m' => m'.steps js := by
  rw [← Outcome.parts_inj, Outcome.parts_andThen]
  exact inTurn_steps.append m is js

theorem steps_append_of_done {m m' : Machine} {is : List Instruction} (h : m.steps is = ⟨m', none⟩)
    (js : List Instruction) : m.steps (is ++ js) = m'.steps js := by
  rw [steps_append, h]
  rfl

theorem steps_append_of_failed {m m' : Machine} {is : List Instruction} {f : Failure}
    (h : m.steps is = ⟨m', some f⟩) (js : List Instruction) :
    m.steps (is ++ js) = ⟨m', some f⟩ := by
  rw [steps_append, h]
  rfl

/-- Instructions fail in the first of them that does. -/
theorem steps_eq_failed_iff {m m' : Machine} {is : List Instruction} {f : Failure} :
    m.steps is = ⟨m', some f⟩ ↔ ∃ before i after m₁, is = before ++ i :: after ∧
      m.steps before = ⟨m₁, none⟩ ∧ m₁.step i = ⟨m', some f⟩ := by
  simp only [← Outcome.parts_eq_iff]
  exact inTurn_steps.eq_failed_iff

end Machine

theorem Bench.inTurn_obeyAll : InTurn obey obeyAll where
  nil b := rfl
  done first os := by simp only [obeyAll, first]
  failed first os := by simp only [obeyAll, first]

end PolishCalc
