import PolishCalc.Proofs.StackDepth
import PolishCalc.Proofs.Stops

namespace PolishCalc

/-- Every name that an action reads is the target of an action before it. -/
def Program.DefinitelyAssigned (p : Program) : Prop :=
  ∀ before a after, p = before ++ a :: after → ∀ x ∈ a.expr.reads, x ∈ Program.targets before

namespace Program

/-- The check of that in one pass, with the names that have been assigned to so far. -/
def assignedAfter (known : List String) : Program → Bool
  | [] => true
  | a :: p =>
    a.expr.reads.all (fun x => decide (x ∈ known)) && assignedAfter (known ++ a.target?.toList) p

theorem assignedAfter_iff {known : List String} {p : Program} :
    assignedAfter known p = true ↔ ∀ before a after, p = before ++ a :: after →
      ∀ x ∈ a.expr.reads, x ∈ known ++ Program.targets before := by
  induction p generalizing known with
  | nil => simp [assignedAfter]
  | cons b p ih =>
    simp only [assignedAfter, Bool.and_eq_true, List.all_eq_true, decide_eq_true_eq, ih]
    constructor
    · rintro ⟨first, others⟩ before a after split x hx
      cases before with
      | nil =>
        cases split
        exact List.mem_append_left _ (first x hx)
      | cons c before =>
        cases split
        rw [targets_cons, ← List.append_assoc]
        exact others before a after rfl x hx
    · intro h
      refine ⟨fun x hx => ?_, fun before a after split x hx => ?_⟩
      · simpa [targets] using h [] b p rfl x hx
      · have later := h (b :: before) a after (congrArg (b :: ·) split) x hx
        rwa [targets_cons, ← List.append_assoc] at later

instance (p : Program) : Decidable p.DefinitelyAssigned :=
  decidable_of_iff (assignedAfter [] p = true) assignedAfter_iff

theorem exists_last_assign {p : Program} {x : String} (h : x ∈ p.targets) :
    ∃ before e after, p = before ++ .assign x e :: after ∧ x ∉ Program.targets after := by
  induction p with
  | nil => cases h
  | cons a p ih =>
    by_cases later : x ∈ Program.targets p
    · obtain ⟨before, e, after, rfl, last⟩ := ih later
      exact ⟨a :: before, e, after, rfl, last⟩
    · rw [targets_cons, List.mem_append, Option.mem_toList] at h
      obtain ⟨e, rfl⟩ := Action.target?_eq_some (h.resolve_right later)
      exact ⟨[], e, p, rfl, later⟩

end Program

namespace Table

theorem get?_eq_none_iff {t : Table} {x : String} : t.get? x = none ↔ x ∉ t.names := by
  induction t with
  | nil => simp [get?, names]
  | cons q t ih =>
    obtain ⟨y, u⟩ := q
    by_cases hy : y = x
    · simp [get?, names, hy]
    · have hx : x ≠ y := fun h => hy h.symm
      simp only [names] at ih
      simp [get?, names, hy, hx, ih]

theorem get?_set (t : Table) (x : String) (v : Int) (y : String) :
    (t.set x v).get? y = if x = y then some v else t.get? y := by
  induction t with
  | nil => rfl
  | cons q t ih =>
    obtain ⟨z, u⟩ := q
    by_cases hz : z = x
    · subst hz
      by_cases hy : z = y <;> simp [set, get?, hy]
    · by_cases hy : z = y
      · have hx : x ≠ y := fun h => hz (hy.trans h.symm)
        simp only [set, get?, if_neg hz, if_pos hy, if_neg hx]
      · simp only [set, get?, if_neg hz, if_neg hy, ih]

end Table

theorem Fault.eq_uninitialized {f : Fault} (h : f.complaint.kind = .uninitialized) :
    ∃ x, f = .uninitialized x := by
  cases f with
  | uninitialized x => exact ⟨x, rfl⟩
  | _ => cases h

theorem Fault.failure_eq_fault {f g : Fault} (h : f.failure = .fault g) : g = f := by
  unfold failure at h
  split at h
  next => exact (Failure.fault.inj h).symm
  next => simp at h

theorem printed_ne_fault (v : Int) (f : Fault) : printed v ≠ .error (.fault f) := by
  unfold printed
  split <;> simp

/-- Only the reading of a name without a value stops an expression as uninitialized. -/
theorem Expr.StopsBy.unset_read {t : Table} {e : Expr} {x : String}
    (h : e.StopsBy t (.unset x)) : x ∈ e.reads ∧ t.get? x = none := by
  generalize hc : Stop.unset x = c at h
  induction h with
  | unset missing =>
    cases hc
    exact ⟨by simp [reads], missing⟩
  | root => cases hc
  | zero => cases hc
  | operand op _ ih => exact ih hc
  | left plain r _ ih => exact ⟨List.mem_append_left _ (ih hc).1, (ih hc).2⟩
  | right plain _ _ ih => exact ⟨List.mem_append_right _ (ih hc).1, (ih hc).2⟩
  | divisor l _ ih => exact ⟨List.mem_append_right _ (ih hc).1, (ih hc).2⟩
  | dividend _ _ _ ih => exact ⟨List.mem_append_left _ (ih hc).1, (ih hc).2⟩

theorem Expr.evaluate_uninitialized {t : Table} {e : Expr} {x : String}
    (h : e.evaluate t = .error (.fault (.uninitialized x))) : x ∈ e.reads ∧ x ∉ t.names := by
  obtain ⟨c, stops, failure⟩ := exists_stopsBy h
  cases c with
  | unset y =>
    cases failure
    obtain ⟨read, missing⟩ := stops.unset_read
    exact ⟨read, Table.get?_eq_none_iff.mp missing⟩
  | negativeRoot a => cases Fault.failure_eq_fault failure
  | zeroDivisor q =>
    simp only [Stop.failure, divisionFailure] at failure
    split at failure <;> simp at failure

namespace Session

theorem act_uninitialized {s : Session} {a : Action} {x : String}
    (h : s.act a = .error (.fault (.uninitialized x))) :
    x ∈ a.expr.reads ∧ x ∉ s.symbols.names := by
  cases a with
  | assign y e =>
    rcases bind_eq_error_iff.mp h with h | ⟨v, _, h⟩
    · exact Expr.evaluate_uninitialized h
    · cases h
  | print e =>
    rcases bind_eq_error_iff.mp h with h | ⟨v, _, h⟩
    · exact Expr.evaluate_uninitialized h
    · rcases bind_eq_error_iff.mp h with h | ⟨line, _, h⟩
      · exact absurd h (printed_ne_fault v _)
      · cases h

theorem act_target {s s' : Session} {a : Action} (h : s.act a = .ok s') :
    s'.symbols.names = a.target?.toList.foldl noteName s.symbols.names ∧
      ∀ x, a.target? ≠ some x → s'.symbols.get? x = s.symbols.get? x := by
  cases a with
  | assign y e =>
    obtain ⟨v, _, h⟩ := bind_eq_ok_iff.mp h
    cases h
    refine ⟨Table.names_set s.symbols y v, fun x other => ?_⟩
    have hne : y ≠ x := fun h => other (congrArg some h)
    rw [Table.get?_set, if_neg hne]
  | print e =>
    obtain ⟨v, _, h⟩ := bind_eq_ok_iff.mp h
    obtain ⟨line, _, h⟩ := bind_eq_ok_iff.mp h
    cases h
    exact ⟨rfl, fun x _ => rfl⟩

/-- Actions that all succeed note their targets one after the other, and leave the value of every
other name as it is. -/
theorem execute_targets {s s' : Session} {p : Program} (h : s.execute p = ⟨s', none⟩) :
    s'.symbols.names = p.targets.foldl noteName s.symbols.names ∧
      ∀ x, x ∉ p.targets → s'.symbols.get? x = s.symbols.get? x := by
  induction p generalizing s with
  | nil =>
    cases h
    exact ⟨rfl, fun x _ => rfl⟩
  | cons a p ih =>
    simp only [execute] at h
    split at h
    next s₁ first =>
      obtain ⟨names, others⟩ := act_target first
      obtain ⟨names', others'⟩ := ih h
      rw [Program.targets_cons]
      refine ⟨by rw [names', names, List.foldl_append], fun x unassigned => ?_⟩
      simp only [List.mem_append, not_or, Option.mem_toList] at unassigned
      rw [others' x unassigned.2, others x unassigned.1]
    next => cases h

theorem names_of_execute {s : Session} {p : Program} (h : empty.execute p = ⟨s, none⟩) :
    s.symbols.names = p.targets.eraseDups :=
  (execute_targets h).1.trans (foldl_noteName _)

/-- An action in the midst of a run that completes. -/
theorem execute_split {s s' : Session} {before after : Program} {a : Action}
    (h : s.execute (before ++ a :: after) = ⟨s', none⟩) :
    ∃ t t', s.execute before = ⟨t, none⟩ ∧ t.act a = .ok t' ∧ t'.execute after = ⟨s', none⟩ := by
  rw [execute_append] at h
  rcases done : s.execute before with ⟨t, _ | f⟩
  · rw [done] at h
    simp only [Outcome.andThen, execute] at h
    split at h
    next t' acted => exact ⟨t, t', rfl, acted, h⟩
    next => cases h
  · rw [done] at h
    cases h

theorem execute_uninitialized {s : Session} {p : Program} {x : String}
    (h : empty.execute p = ⟨s, some (.fault (.uninitialized x))⟩) :
    ∃ before a after, p = before ++ a :: after ∧ x ∈ a.expr.reads ∧
      x ∉ Program.targets before := by
  obtain ⟨before, a, after, split, done, failed⟩ := execute_eq_failed_iff.mp h
  obtain ⟨read, missing⟩ := act_uninitialized failed
  rw [names_of_execute done, List.mem_eraseDups] at missing
  exact ⟨before, a, after, split, read, missing⟩

end Session

namespace Machine

theorem pushResult_failure {m m' : Machine} {r : Except Failure Int} {f : Failure}
    (h : m.pushResult r = ⟨m', some f⟩) : r = .error f := by
  cases r <;> cases h
  rfl

theorem step_uninitialized {m m' : Machine} {i : Instruction} {x : String}
    (h : m.step i = ⟨m', some (.fault (.uninitialized x))⟩) :
    i = .load x ∧ x ∉ m.table.names := by
  obtain ⟨stack, table, output, running⟩ := m
  cases i with
  | push n => cases h
  | load y =>
    obtain ⟨missing, failure⟩ := Table.read_eq_error_iff.mp (pushResult_failure h)
    cases failure
    exact ⟨rfl, Table.get?_eq_none_iff.mp missing⟩
  | store y => cases stack <;> cases h
  | unary op =>
    cases stack with
    | nil => cases h
    | cons a rest =>
      obtain ⟨_, _, failure⟩ := UnaryOp.apply_eq_error (pushResult_failure h)
      cases Fault.failure_eq_fault failure
  | binary op =>
    rcases stack with _ | ⟨b, _ | ⟨a, rest⟩⟩
    · cases h
    · cases h
    · have failed := pushResult_failure h
      by_cases hop : op = .div
      · subst hop
        simp only [BinaryOp.apply, quotient] at failed
        split at failed
        next => cases Fault.failure_eq_fault (Except.error.inj failed)
        next => cases failed
      · exact absurd failed (BinaryOp.apply_ne_error hop a b _)
  | print =>
    cases stack with
    | nil => cases h
    | cons a rest =>
      simp only [step, popThen_cons] at h
      split at h
      next => cases h
      next line =>
        cases h
        exact absurd line (printed_ne_fault a _)

/-- Instructions stop as uninitialized at a load in front of which nothing stores to that name. -/
theorem execute_uninitialized {m : Machine} {is : List Instruction} {x : String}
    (h : (m.execute is).failure = some (.fault (.uninitialized x))) :
    ∃ before after, is = before ++ .load x :: after ∧
      x ∉ before.filterMap Instruction.stored? := by
  rw [execute_eq] at h
  rcases steps : Session.empty.machine.steps is with ⟨m', failure⟩
  rw [steps] at h
  cases h
  obtain ⟨before, i, after, m₁, split, done, failed⟩ := steps_eq_failed_iff.mp steps
  obtain ⟨rfl, missing⟩ := step_uninitialized failed
  have names : m₁.table.names = (before.filterMap Instruction.stored?).eraseDups :=
    (steps_done done).names.trans (foldl_noteName _)
  rw [names, List.mem_eraseDups] at missing
  exact ⟨before, after, split, missing⟩

end Machine

theorem Expr.load_mem_code {e : Expr} {x : String} (h : .load x ∈ e.code) : x ∈ e.reads := by
  induction e with
  | constant n => simp [code] at h
  | «variable» y => simpa [code, reads] using h
  | unary op e ih => simpa [code, reads] using ih (by simpa [code] using h)
  | binary op l r ihl ihr =>
    have sides : .load x ∈ l.code ∨ .load x ∈ r.code := by simpa [code] using h
    rcases sides with h | h
    · exact List.mem_append_left _ (ihl h)
    · exact List.mem_append_right _ (ihr h)

theorem Expr.stored_code (e : Expr) : e.code.filterMap Instruction.stored? = [] := by
  induction e with
  | constant n => rfl
  | «variable» x => rfl
  | unary op e ih => simp [code, ih, Instruction.stored?]
  | binary op l r ihl ihr => simp [code, ihl, ihr, Instruction.stored?]

theorem Action.load_mem_code {a : Action} {x : String} (h : .load x ∈ a.code) :
    x ∈ a.expr.reads := by
  cases a with
  | assign y e => exact e.load_mem_code (by simpa [code] using h)
  | print e => exact e.load_mem_code (by simpa [code] using h)

theorem Action.stored_code (a : Action) :
    a.code.filterMap Instruction.stored? = a.target?.toList := by
  cases a with
  | assign x e => simp [code, e.stored_code, Instruction.stored?, target?]
  | print e => simp [code, e.stored_code, Instruction.stored?, target?]

/-- A load in the code of a program comes from an action that reads the name. The actions before it
have stored to their targets by then. -/
theorem Program.load_of_code {p : Program} {bs cs : List Instruction} {x : String}
    (h : p.code = bs ++ .load x :: cs) :
    ∃ before a after, p = before ++ a :: after ∧ x ∈ a.expr.reads ∧
      ∀ y ∈ Program.targets before, y ∈ bs.filterMap Instruction.stored? := by
  induction p generalizing bs with
  | nil => simp [Program.code] at h
  | cons a p ih =>
    have hcode : bs ++ .load x :: cs = a.code ++ Program.code p := h.symm
    have place : (∃ bs', bs = a.code ++ bs' ∧ Program.code p = bs' ++ .load x :: cs) ∨
        .load x ∈ a.code := by
      rcases List.append_eq_append_iff.mp hcode with ⟨ds, ha, hp⟩ | ⟨bs', hbs, hp⟩
      · cases ds with
        | nil => exact .inl ⟨[], by simp [ha], hp.symm⟩
        | cons d ds =>
          cases hp
          exact .inr (by simp [ha])
      · exact .inl ⟨bs', hbs, hp⟩
    rcases place with ⟨bs', rfl, hp⟩ | load
    · obtain ⟨before, b, after, rfl, read, stored⟩ := ih hp
      refine ⟨a :: before, b, after, rfl, read, fun y hy => ?_⟩
      rw [Program.targets_cons, List.mem_append] at hy
      rw [List.filterMap_append, a.stored_code, List.mem_append]
      exact hy.imp_right (stored y)
    · exact ⟨[], a, p, rfl, Action.load_mem_code load, by simp [Program.targets]⟩

theorem Program.DefinitelyAssigned.names {p : Program} (assigned : p.DefinitelyAssigned)
    {Name : String → Prop} (targets : ∀ x ∈ p.targets, Name x) : p.Names Name := by
  intro a ha
  refine ⟨fun x hx => ?_, fun x hx => targets x (List.mem_filterMap.mpr ⟨a, ha, hx⟩)⟩
  obtain ⟨before, after, rfl⟩ := List.append_of_mem ha
  apply targets
  rw [Program.targets_append]
  exact List.mem_append_left _ (assigned before a after rfl x hx)

/-- If the assembly text of such a program is accepted and no name is cut at a blank, then what is
read is its code. -/
theorem Program.DefinitelyAssigned.assembled {p : Program} (assigned : p.DefinitelyAssigned)
    (wellFormed : p.WellFormed) (unblank : ∀ x ∈ p.targets, ∀ c ∈ x.toList, isBlank c = false)
    {is : List Instruction} (h : (assemble (p.code.map Instruction.text)).result = .ok is) :
    is = p.code := by
  have leads : p.targets.findSome? (nameFault? "STORE") = none := by
    rw [assemble_code_leading wellFormed] at h
    cases found : p.targets.findSome? (nameFault? "STORE") with
    | none => rfl
    | some f => simp [found] at h
  have isWord : ∀ x ∈ p.targets, IsWord x := by
    intro x hx
    refine ⟨?_, unblank x hx⟩
    rintro rfl
    obtain ⟨w, ws, empty, _⟩ := findSome?_nameFault?_eq_none_iff.mp leads "" hx
    cases empty
  rw [(assemble_compiled wellFormed (assigned.names isWord)).1] at h
  exact (Except.ok.inj h).symm

/-- A program whose names are all assigned to before they are read is never stopped as
uninitialized, and neither is its code on the machine if no name has a blank in it. Every program
that completes is of this kind, and then the table holds its targets in the order of their first
assignments, each with the value that the last assignment to it had worked out. -/
theorem definite_assignment_suffices {ts : List String} {p : Program} (parsed : parse ts = .ok p) :
    (p.DefinitelyAssigned →
      (∀ s f, (Session.run s p).failure = some (.fault f) →
        f.complaint.kind ≠ .uninitialized) ∧
      ∃ ls, p.compile = .ok ls ∧
        ((∀ x ∈ p.targets, ∀ c ∈ x.toList, isBlank c = false) →
          ∀ is, (assemble ls).result = .ok is → ∀ (m : Machine) f,
            (m.execute is).failure = some (.fault f) → f.complaint.kind ≠ .uninitialized)) ∧
    ∀ s, Session.empty.run p = ⟨s, none⟩ →
      p.DefinitelyAssigned ∧ s.symbols.names = p.targets.eraseDups ∧
      ∀ x ∈ p.targets, ∃ before e after t v, p = before ++ .assign x e :: after ∧
        x ∉ Program.targets after ∧ Session.empty.run before = ⟨t, none⟩ ∧
        e.evaluate t.symbols = .ok v ∧ s.symbols.get? x = some v := by
  have wellFormed := parse_wellFormed parsed
  refine ⟨fun assigned => ⟨fun s f failed kind => ?_, _, wellFormed.compile_eq, ?_⟩, ?_⟩
  · obtain ⟨x, rfl⟩ := Fault.eq_uninitialized kind
    rcases run : Session.empty.execute p with ⟨s', failure⟩
    have stopped : failure = some (.fault (.uninitialized x)) := by
      rw [← failed, Session.run, run]
    subst stopped
    obtain ⟨before, a, after, split, read, unassigned⟩ := Session.execute_uninitialized run
    exact unassigned (assigned before a after split x read)
  · intro unblank is assembled m f failed kind
    obtain ⟨x, rfl⟩ := Fault.eq_uninitialized kind
    cases assigned.assembled wellFormed unblank assembled
    obtain ⟨bs, cs, code, missing⟩ := Machine.execute_uninitialized failed
    obtain ⟨before, a, after, split, read, stored⟩ := Program.load_of_code code
    exact missing (stored x (assigned before a after split x read))
  · intro s completed
    have done : Session.empty.execute p = ⟨s, none⟩ := completed
    refine ⟨?_, Session.names_of_execute done, ?_⟩
    · rintro before a after rfl x read
      obtain ⟨t, t', first, acted, _⟩ := Session.execute_split done
      have named := (Session.act_names acted).1 x read
      rwa [Session.names_of_execute first, List.mem_eraseDups] at named
    · intro x hx
      obtain ⟨before, e, after, rfl, last⟩ := Program.exists_last_assign hx
      obtain ⟨t, t', first, acted, others⟩ := Session.execute_split done
      obtain ⟨v, value, acted⟩ := bind_eq_ok_iff.mp acted
      cases acted
      refine ⟨before, e, after, t, v, rfl, last, first, value, ?_⟩
      rw [(Session.execute_targets others).2 x last, Table.get?_set, if_pos rfl]

/-- A name that is read to work out its own new value, and a program that both ways of running it
stop for a zero divisor before they come to its last action. -/
theorem reassigned_name_keeps_place :
    let p : Program := [.assign "a" (.constant 2),
      .assign "b" (.binary .add (.variable "a") (.constant 1)),
      .assign "a" (.binary .mul (.variable "b") (.variable "a")), .print (.variable "a")]
    let q : Program := [.assign "z" (.constant 0),
      .print (.binary .div (.constant 1) (.variable "z")), .assign "y" (.variable "z")]
    let f := Fault.zeroDivisor "( 1 / z )"
    let g := Fault.zeroDivision 1
    parse p.tokens = .ok p ∧ (Session.empty.run p).failure = none ∧ p.DefinitelyAssigned ∧
      (Session.empty.run p).state.symbols.names = ["a", "b"] ∧
      parse q.tokens = .ok q ∧ q.DefinitelyAssigned ∧
      (Session.empty.run q).failure = some (.fault f) ∧ f.complaint.kind ≠ .uninitialized ∧
      (Machine.fresh.execute q.code).failure = some (.fault g) ∧
      g.complaint.kind ≠ .uninitialized := by
  intro p q f g
  have parsed : parse p.tokens = .ok p := parse_tokens (by decide +kernel)
  have completed : (Session.empty.run p).failure = none := by decide +kernel
  have run : Session.empty.run p = ⟨(Session.empty.run p).state, none⟩ := by rw [← completed]
  obtain ⟨assigned, names, _⟩ := (definite_assignment_suffices parsed).2 _ run
  have wellFormed : q.WellFormed := by decide +kernel
  have assigned' : q.DefinitelyAssigned := by decide
  have parsed' : parse q.tokens = .ok q := parse_tokens wellFormed
  obtain ⟨interpreted, ls, compiled, executed⟩ := (definite_assignment_suffices parsed').1 assigned'
  rw [wellFormed.compile_eq] at compiled
  cases compiled
  have isWord : ∀ x ∈ q.targets, IsWord x := by decide
  have assembled := (assemble_compiled wellFormed (assigned'.names isWord)).1
  have stopped : (Session.empty.run q).failure = some (.fault f) := by decide +kernel
  have stopped' : (Machine.fresh.execute q.code).failure = some (.fault g) := by decide +kernel
  exact ⟨parsed, completed, assigned, names, parsed', assigned', stopped,
    interpreted _ f stopped, stopped',
    executed (fun x hx => (isWord x hx).2) q.code (by rw [assembled]) Machine.fresh g stopped'⟩

end PolishCalc
