import PolishCalc.Bench
import PolishCalc.Tree
import PolishCalc.Proofs.StackCode

namespace PolishCalc

theorem Expr.display_tree (e : Expr) :
    e.tree.display =
      if e.writable then .ok (.line e.text) else .error (.failure (.limit .writing)) := by
  induction e with
  | constant n => rfl
  | «variable» x => rfl
  | unary op e ih =>
    by_cases hw : e.writable = true
    · simp [tree, Tree.display, ih, writable, text, hw, bind, Except.bind, Shown.text]
    · simp [tree, Tree.display, ih, writable, hw, bind, Except.bind]
  | binary op l r ihl ihr =>
    by_cases hl : l.writable = true
    · by_cases hr : r.writable = true
      · simp [tree, Tree.display, ihl, ihr, writable, text, hl, hr, bind, Except.bind, Shown.text]
      · simp [tree, Tree.display, ihl, ihr, writable, hl, hr, bind, Except.bind]
    · simp [tree, Tree.display, ihl, writable, hl, bind, Except.bind]

theorem Expr.divisionFailure_tree (e : Expr) :
    e.tree.divisionFailure = .failure e.divisionFailure := by
  by_cases hw : e.writable = true
  · simp [Tree.divisionFailure, display_tree, divisionFailure, display, hw, Shown.text]
  · simp [Tree.divisionFailure, display_tree, divisionFailure, display, hw]

theorem Tree.lift_bind {α β : Type} (x : Except Failure α) (f : α → Except Failure β) :
    lift (x >>= f) = lift x >>= fun a => lift (f a) := by
  cases x <;> rfl

theorem Expr.evaluate_tree (t : Table) (e : Expr) :
    e.tree.evaluate t = Tree.lift (e.evaluate t) := by
  induction e with
  | constant n => rfl
  | «variable» x => rfl
  | unary op e ih =>
    simp only [tree, Tree.evaluate, ih, evaluate, Tree.lift_bind]
    cases op <;> rfl
  | binary op l r ihl ihr =>
    by_cases hop : op = .div
    · subst hop
      have hfail := (Expr.binary .div l r).divisionFailure_tree
      simp only [tree, BinaryOp.symbol] at hfail
      simp only [tree, BinaryOp.symbol, Tree.evaluate, ihl, ihr, evaluate, hfail]
      cases r.evaluate t with
      | error f => rfl
      | ok d =>
        by_cases hd : d = 0
        · simp [Tree.lift, bind, Except.bind, hd]
        · cases l.evaluate t <;> simp [Tree.lift, bind, Except.bind, hd]
    · simp only [evaluate_binary t hop, Tree.lift_bind]
      cases op with
      | div => exact absurd rfl hop
      | _ =>
        simp only [tree, BinaryOp.symbol, Tree.evaluate, ihl, ihr]
        rfl

theorem Action.execute_tree (s : Session) (a : Action) :
    Tree.execute s a.tree = match s.act a with
      | .ok s' => (s', none)
      | .error f => (s, some (.failure f)) := by
  cases a with
  | assign x e =>
    simp only [tree, Tree.execute, Expr.evaluate_tree, Session.act]
    cases e.evaluate s.symbols <;> rfl
  | print e =>
    simp only [tree, Tree.execute, Expr.evaluate_tree, Session.act]
    cases e.evaluate s.symbols with
    | error f => rfl
    | ok v =>
      simp only [Tree.lift, bind, Except.bind]
      cases printed v <;> rfl

theorem Program.execute_tree (s : Session) (p : Program) :
    Tree.execute s p.tree =
      ((s.execute p).state, (s.execute p).failure.map TreeFailure.failure) := by
  simp only [tree, Tree.execute]
  induction p generalizing s with
  | nil => rfl
  | cons a p ih =>
    simp only [List.map_cons, Tree.executeAll, Action.execute_tree, Session.execute]
    cases s.act a with
    | ok s' => exact ih s'
    | error f => rfl

theorem Action.display_tree {a : Action} (h : a.expr.writable = true) :
    a.tree.display = .ok (.line a.text) := by
  cases a with
  | assign x e =>
    have hw : e.writable = true := h
    simp [tree, Tree.display, Expr.display_tree, hw, text, bind, Except.bind, Shown.text]
  | print e =>
    have hw : e.writable = true := h
    simp [tree, Tree.display, Expr.display_tree, hw, text, bind, Except.bind, Shown.text]

theorem Program.writable_cons {a : Action} {p : Program} :
    Program.writable (a :: p) = true ↔ a.expr.writable = true ∧ p.writable = true := by
  simp [writable]

theorem Program.display_tree {p : Program} (h : p.writable = true) :
    p.tree.display = .ok (.block (p.map fun a => .line a.text)) := by
  have entries : Tree.displayAll (p.map Action.tree) = .ok (p.map fun a => .line a.text) := by
    induction p with
    | nil => rfl
    | cons a p ih =>
      obtain ⟨ha, hp⟩ := writable_cons.mp h
      simp only [List.map_cons, Tree.displayAll, a.display_tree ha, ih hp]
      rfl
  simp only [tree, Tree.display, entries]
  rfl

theorem UnaryOp.mnemonic_symbol (op : UnaryOp) : Tree.mnemonic op.symbol = .ok op.mnemonic := by
  cases op <;> rfl

theorem BinaryOp.mnemonic_symbol (op : BinaryOp) : Tree.mnemonic op.symbol = .ok op.mnemonic := by
  cases op <;> rfl

theorem Expr.compile_tree {e : Expr} (h : e.writable = true) :
    e.tree.compile = .ok (e.code.map Instruction.text) := by
  induction e with
  | constant n =>
    have hw : PolishCalc.writable n = true := h
    simp [tree, Tree.compile, hw, code]
  | «variable» x => rfl
  | unary op e ih =>
    simp only [tree, Tree.compile, ih h, op.mnemonic_symbol, code, List.map_append]
    rfl
  | binary op l r ihl ihr =>
    obtain ⟨hl, hr⟩ : l.writable = true ∧ r.writable = true := by
      simpa [writable] using h
    simp only [tree, Tree.compile, ihl hl, ihr hr, op.mnemonic_symbol, code, List.map_append]
    rfl

theorem Action.compile_tree {a : Action} (h : a.expr.writable = true) :
    a.tree.compile = .ok (a.code.map Instruction.text) := by
  cases a with
  | assign x e =>
    simp only [tree, Tree.compile, e.compile_tree h, code, List.map_append]
    rfl
  | print e =>
    simp only [tree, Tree.compile, e.compile_tree h, code, List.map_append]
    rfl

theorem Program.compile_tree {p : Program} (h : p.writable = true) :
    p.tree.compile = .ok (p.code.map Instruction.text) := by
  simp only [tree, Tree.compile]
  induction p with
  | nil => rfl
  | cons a p ih =>
    obtain ⟨ha, hp⟩ := writable_cons.mp h
    simp only [List.map_cons, Tree.compileAll, a.compile_tree ha, ih hp, code, List.flatMap_cons,
      List.map_append]
    rfl

theorem Machine.bench_obeyAll (m : Machine) (is : List Instruction) :
    m.bench.obeyAll (is.map Instruction.order) =
      ((m.steps is).state.bench, (m.steps is).failure.map OrderFailure.failure) := by
  induction is generalizing m with
  | nil => rfl
  | cons i is ih =>
    simp only [List.map_cons, Bench.obeyAll, bench_obey, steps]
    cases h : m.step i with
    | mk m' failure =>
      cases failure with
      | none => exact ih m'
      | some f => rfl

theorem Machine.bench_execute (m : Machine) (is : List Instruction) :
    m.bench.execute (is.map Instruction.order) =
      ((m.execute is).state.bench, (m.execute is).failure.map OrderFailure.failure) := by
  have h := bench_obeyAll { m.reset with running := true } is
  have hr : ({ m.bench.reset with running := true } : Bench) =
      ({ m.reset with running := true } : Machine).bench := rfl
  simp only [Bench.execute, hr, h]
  rfl

end PolishCalc
