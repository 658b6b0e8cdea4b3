import PolishCalc.Proofs.FirstFailure
import PolishCalc.Proofs.StackValue

namespace PolishCalc

def Instruction.name? : Instruction → Option String
  | .load x => some x
  | .store x => some x
  | _ => none

namespace Machine

theorem pushResult_frame (m : Machine) (t : Table) (b : Bool) (r : Except Failure Int) :
    (⟨m.stack, t, m.output, b⟩ : Machine).pushResult r =
      ⟨⟨(m.pushResult r).state.stack, t, (m.pushResult r).state.output, b⟩,
        (m.pushResult r).failure⟩ := by
  cases r <;> rfl

theorem popThen_frame {next : Int → Machine → Outcome Machine} {t : Table} {b : Bool}
    (frame : ∀ a (m : Machine), next a ⟨m.stack, t, m.output, b⟩ =
      ⟨⟨(next a m).state.stack, t, (next a m).state.output, b⟩, (next a m).failure⟩)
    (m : Machine) :
    (⟨m.stack, t, m.output, b⟩ : Machine).popThen next =
      ⟨⟨(m.popThen next).state.stack, t, (m.popThen next).state.output, b⟩,
        (m.popThen next).failure⟩ := by
  obtain ⟨_ | ⟨a, rest⟩, table, output, running⟩ := m
  · rfl
  · exact frame a ⟨rest, table, output, running⟩

/-- An instruction without a name works on the stack and the output alone. -/
theorem step_frame {i : Instruction} (unnamed : i.name? = none) (m : Machine) (t : Table)
    (b : Bool) :
    (⟨m.stack, t, m.output, b⟩ : Machine).step i =
      ⟨⟨(m.step i).state.stack, t, (m.step i).state.output, b⟩, (m.step i).failure⟩ := by
  cases i with
  | push n => rfl
  | load x => cases unnamed
  | store x => cases unnamed
  | unary op => exact popThen_frame (fun a m => pushResult_frame m t b _) m
  | binary op =>
    exact popThen_frame (fun r m => popThen_frame (fun l m => pushResult_frame m t b _) m) m
  | print =>
    refine popThen_frame (fun a m => ?_) m
    cases printed a <;> rfl

theorem step_keeps {i : Instruction} (unnamed : i.name? = none) (m : Machine) :
    (m.step i).state.table = m.table ∧ (m.step i).state.running = m.running := by
  have frame := step_frame unnamed m m.table m.running
  exact ⟨congrArg (·.state.table) frame, congrArg (·.state.running) frame⟩

theorem steps_singleton (m : Machine) (i : Instruction) : m.steps [i] = m.step i := by
  simp only [steps]
  split
  next h => exact h.symm
  next h => exact h.symm

theorem steps_unary {m m' : Machine} {is : List Instruction} {a : Int}
    (h : m.steps is = ⟨m'.push a, none⟩) (op : UnaryOp) :
    m.steps (is ++ [.unary op]) = m'.pushResult (op.apply a) := by
  rw [steps_append_of_done h, steps_singleton]
  rfl

theorem steps_binary {m m' : Machine} {is : List Instruction} {a b : Int}
    (h : m.steps is = ⟨(m'.push a).push b, none⟩) (op : BinaryOp) :
    m.steps (is ++ [.binary op]) = m'.pushResult (op.apply a b) := by
  rw [steps_append_of_done h, steps_singleton]
  rfl

/-- The code of an expression that has a value leaves the value on top of the stack. -/
theorem steps_code_of_ok {m : Machine} {e : Expr} {v : Int} (h : e.stackValue m.table = .ok v) :
    m.steps e.code = ⟨m.push v, none⟩ := by
  induction e generalizing m v with
  | constant n => cases h; rfl
  | «variable» x =>
    rw [Expr.code, steps_singleton, step, show m.table.read x = .ok v from h]
    rfl
  | unary op e ih =>
    obtain ⟨a, ha, h⟩ := bind_eq_ok_iff.mp h
    rw [Expr.code, steps_unary (ih ha), h]
    rfl
  | binary op l r ihl ihr =>
    obtain ⟨a, ha, h⟩ := bind_eq_ok_iff.mp h
    obtain ⟨b, hb, h⟩ := bind_eq_ok_iff.mp h
    have hright : (m.push a).steps r.code = ⟨(m.push a).push b, none⟩ := ihr hb
    have hboth := (steps_append_of_done (ihl ha) r.code).trans hright
    rw [Expr.code, steps_binary hboth, h]
    rfl

/-- The code of an expression that has no value fails as the expression does, and changes nothing
but the stack. -/
theorem steps_code_of_error {m : Machine} {e : Expr} {f : Failure}
    (h : e.stackValue m.table = .error f) :
    ∃ rest, m.steps e.code = ⟨{ m with stack := rest }, some f⟩ := by
  induction e generalizing m f with
  | constant n => simp [Expr.stackValue] at h
  | «variable» x =>
    refine ⟨m.stack, ?_⟩
    rw [Expr.code, steps_singleton, step, show m.table.read x = .error f from h]
    rfl
  | unary op e ih =>
    rcases bind_eq_error_iff.mp h with h | ⟨a, ha, h⟩
    · obtain ⟨rest, hr⟩ := ih h
      exact ⟨rest, steps_append_of_failed hr _⟩
    · refine ⟨m.stack, ?_⟩
      rw [Expr.code, steps_unary (steps_code_of_ok ha), h]
      rfl
  | binary op l r ihl ihr =>
    rcases bind_eq_error_iff.mp h with h | ⟨a, ha, h⟩
    · obtain ⟨rest, hr⟩ := ihl h
      exact ⟨rest, steps_append_of_failed (steps_append_of_failed hr _) _⟩
    · have hleft := steps_append_of_done (steps_code_of_ok ha) r.code
      rcases bind_eq_error_iff.mp h with h | ⟨b, hb, h⟩
      · have hright : ∃ rest, (m.push a).steps r.code = ⟨{ m with stack := rest }, some f⟩ := ihr h
        obtain ⟨rest, hr⟩ := hright
        exact ⟨rest, steps_append_of_failed (hleft.trans hr) _⟩
      · have hright : (m.push a).steps r.code = ⟨(m.push a).push b, none⟩ := steps_code_of_ok hb
        refine ⟨m.stack, ?_⟩
        rw [Expr.code, steps_binary (hleft.trans hright), h]
        rfl

end Machine

/-- The machine between two actions of a program: nothing is on its stack. -/
def Session.machine (s : Session) : Machine :=
  ⟨[], s.symbols, s.output, true⟩

namespace Session

theorem steps_code_of_evaluate {s : Session} {e : Expr} {v : Int}
    (h : e.evaluate s.symbols = .ok v) : s.machine.steps e.code = ⟨s.machine.push v, none⟩ :=
  Machine.steps_code_of_ok (Expr.evaluate_eq_ok_iff.mp h)

theorem steps_action_of_ok {s s' : Session} {a : Action} (h : s.act a = .ok s') :
    s.machine.steps a.code = ⟨s'.machine, none⟩ := by
  cases a with
  | assign x e =>
    obtain ⟨v, hv, h⟩ := bind_eq_ok_iff.mp h
    cases h
    rw [Action.code, Machine.steps_append_of_done (steps_code_of_evaluate hv)]
    rfl
  | print e =>
    obtain ⟨v, hv, h⟩ := bind_eq_ok_iff.mp h
    obtain ⟨line, hline, h⟩ := bind_eq_ok_iff.mp h
    cases h
    rw [Action.code, Machine.steps_append_of_done (steps_code_of_evaluate hv),
      Machine.steps_singleton]
    simp only [Machine.step, Machine.popThen_push, hline]
    rfl

/-- If an expression has no value in a session, its code fails on the machine, for the same reason
unless there is a division in it. -/
theorem steps_code_of_evaluate_error {s : Session} {e : Expr} {f : Failure}
    (h : e.evaluate s.symbols = .error f) :
    ∃ rest g, s.machine.steps e.code = ⟨{ s.machine with stack := rest }, some g⟩ ∧
      g.NoUnderflow ∧ (e.divides = false → g = f) := by
  cases hv : e.stackValue s.symbols with
  | ok v =>
    rw [Expr.evaluate_eq_ok_iff.mpr hv] at h
    cases h
  | error g =>
    obtain ⟨rest, hr⟩ := Machine.steps_code_of_error (m := s.machine) hv
    refine ⟨rest, g, hr, Expr.stackValue_noUnderflow hv, ?_⟩
    intro hd
    rw [Expr.evaluate_eq_stackValue s.symbols hd, hv] at h
    exact Except.error.inj h

theorem printed_noUnderflow {v : Int} {f : Failure} (h : printed v = .error f) : f.NoUnderflow := by
  unfold printed at h
  split at h
  next => simp at h
  next =>
    intro g hg
    rw [← Except.error.inj h] at hg
    simp at hg

theorem steps_action_of_error {s : Session} {a : Action} {f : Failure} (h : s.act a = .error f) :
    ∃ rest g, s.machine.steps a.code = ⟨{ s.machine with stack := rest }, some g⟩ ∧
      g.NoUnderflow ∧ (a.expr.divides = false → g = f) := by
  cases a with
  | assign x e =>
    rcases bind_eq_error_iff.mp h with h | ⟨v, _, h⟩
    · obtain ⟨rest, g, hr, hg⟩ := steps_code_of_evaluate_error h
      exact ⟨rest, g, Machine.steps_append_of_failed hr _, hg⟩
    · simp at h
  | print e =>
    rcases bind_eq_error_iff.mp h with h | ⟨v, hv, h⟩
    · obtain ⟨rest, g, hr, hg⟩ := steps_code_of_evaluate_error h
      exact ⟨rest, g, Machine.steps_append_of_failed hr _, hg⟩
    · -- the value is there but has too many digits to be printed
      rcases bind_eq_error_iff.mp h with h | ⟨line, _, h⟩
      · refine ⟨[], f, ?_, printed_noUnderflow h, fun _ => rfl⟩
        rw [Action.code, Machine.steps_append_of_done (steps_code_of_evaluate hv),
          Machine.steps_singleton]
        simp only [Machine.step, Machine.popThen_push, h]
        rfl
      · simp at h

/-- A program that completes does the same on the machine, and leaves nothing on its stack. -/
theorem steps_program_of_done {s s' : Session} {p : Program} (h : s.execute p = ⟨s', none⟩) :
    s.machine.steps p.code = ⟨s'.machine, none⟩ := by
  induction p generalizing s with
  | nil => cases h; rfl
  | cons a p ih =>
    simp only [execute] at h
    split at h
    next s₁ ha =>
      have hfirst := Machine.steps_append_of_done (steps_action_of_ok ha) (Program.code p)
      exact hfirst.trans (ih h)
    next => simp at h

/-- A program that fails also fails on the machine, in the same action. -/
theorem steps_program_of_failed {s s' : Session} {p : Program} {f : Failure}
    (h : s.execute p = ⟨s', some f⟩) :
    ∃ rest g, s.machine.steps p.code = ⟨{ s'.machine with stack := rest }, some g⟩ ∧
      g.NoUnderflow ∧ (p.divides = false → g = f) := by
  induction p generalizing s with
  | nil => simp [execute] at h
  | cons a p ih =>
    have hdivides : Program.divides (a :: p) = false →
        a.expr.divides = false ∧ Program.divides p = false := by
      simp [Program.divides]
    simp only [execute] at h
    split at h
    next s₁ ha =>
      have hfirst := Machine.steps_append_of_done (steps_action_of_ok ha) (Program.code p)
      obtain ⟨rest, g, hr, hg, hsame⟩ := ih h
      exact ⟨rest, g, hfirst.trans hr, hg, fun hd => hsame (hdivides hd).2⟩
    next ha =>
      cases h
      obtain ⟨rest, g, hr, hg, hsame⟩ := steps_action_of_error ha
      exact ⟨rest, g, Machine.steps_append_of_failed hr _, hg, fun hd => hsame (hdivides hd).1⟩

end Session

end PolishCalc
