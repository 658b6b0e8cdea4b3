import PolishCalc.Generator
import PolishCalc.Proofs.Reads

namespace PolishCalc

/-- Different names of the list are still different after the replacement. -/
def KeepsApart (f : String → String) (xs : List String) : Prop :=
  ∀ x ∈ xs, ∀ y ∈ xs, f x = f y → x = y

instance (f : String → String) (xs : List String) : Decidable (KeepsApart f xs) :=
  inferInstanceAs (Decidable (∀ x ∈ xs, ∀ y ∈ xs, f x = f y → x = y))

def Expr.rename (f : String → String) : Expr → Expr
  | .constant n => .constant n
  | .variable x => .variable (f x)
  | .unary op e => .unary op (e.rename f)
  | .binary op l r => .binary op (l.rename f) (r.rename f)

def Action.rename (f : String → String) : Action → Action
  | .assign x e => .assign (f x) (e.rename f)
  | .print e => .print (e.rename f)

def Program.rename (f : String → String) (p : Program) : Program :=
  p.map (Action.rename f)

def Instruction.rename (f : String → String) : Instruction → Instruction
  | .load x => .load (f x)
  | .store x => .store (f x)
  | i => i

def Table.rename (f : String → String) (t : Table) : Table :=
  t.map fun p => (f p.1, p.2)

def Session.rename (f : String → String) (s : Session) : Session :=
  ⟨s.symbols.rename f, s.output⟩

theorem Program.targets_cons (a : Action) (p : Program) :
    Program.targets (a :: p) = a.target?.toList ++ Program.targets p := by
  cases ht : a.target? <;> simp [targets, ht]

theorem Expr.code_rename (f : String → String) (e : Expr) :
    (e.rename f).code = e.code.map (Instruction.rename f) := by
  induction e with
  | constant n => rfl
  | «variable» x => rfl
  | unary op e ih => simp [rename, code, ih, Instruction.rename]
  | binary op l r ihl ihr => simp [rename, code, ihl, ihr, Instruction.rename]

theorem Action.code_rename (f : String → String) (a : Action) :
    (a.rename f).code = a.code.map (Instruction.rename f) := by
  cases a <;> simp [rename, code, Expr.code_rename, Instruction.rename]

theorem Program.code_rename (f : String → String) (p : Program) :
    (p.rename f).code = p.code.map (Instruction.rename f) := by
  simp [rename, code, List.flatMap_map, List.map_flatMap, Action.code_rename]

theorem Table.get?_rename {f : String → String} {t : Table} {x : String}
    (apart : ∀ y ∈ t.names, f y = f x → y = x) : (t.rename f).get? (f x) = t.get? x := by
  induction t with
  | nil => rfl
  | cons q t ih =>
    obtain ⟨y, u⟩ := q
    have ht := ih (fun z hz => apart z (List.mem_cons_of_mem _ hz))
    have hy : f y = f x ↔ y = x := ⟨apart y (by simp [names]), congrArg f⟩
    simp only [rename, List.map_cons, get?, hy] at ht ⊢
    rw [ht]

theorem Table.set_rename {f : String → String} {t : Table} {x : String} (v : Int)
    (apart : ∀ y ∈ t.names, f y = f x → y = x) :
    (t.rename f).set (f x) v = (t.set x v).rename f := by
  induction t with
  | nil => rfl
  | cons q t ih =>
    obtain ⟨y, u⟩ := q
    have ht := ih (fun z hz => apart z (List.mem_cons_of_mem _ hz))
    have hy : f y = f x ↔ y = x := ⟨apart y (by simp [names]), congrArg f⟩
    simp only [rename, List.map_cons, set, hy] at ht ⊢
    by_cases h : y = x
    · simp [h]
    · simp [h, ht]

theorem Expr.writable_rename (f : String → String) (e : Expr) :
    (e.rename f).writable = e.writable := by
  induction e with
  | constant n => rfl
  | «variable» x => rfl
  | unary op e ih => exact ih
  | binary op l r ihl ihr => simp [rename, writable, ihl, ihr]

/-- The kind of a failure, which does not tell what it is about. -/
def Failure.kind : Failure → Except DigitLimit ErrorKind
  | .fault f => .ok f.complaint.kind
  | .limit l => .error l

theorem Expr.divisionFailure_rename (f : String → String) (e : Expr) :
    (e.rename f).divisionFailure.kind = e.divisionFailure.kind := by
  have same := e.writable_rename f
  cases hw : e.writable <;> simp_all [divisionFailure, display, Failure.kind, Fault.complaint]

theorem mapError_ok {α ε : Type} (k : Failure → ε) (a : α) :
    (Except.ok a : Except Failure α).mapError k = .ok a :=
  rfl

theorem mapError_bind {α β ε : Type} (k : Failure → ε) (x : Except Failure α)
    (g : α → Except Failure β) :
    (x >>= g).mapError k = x.mapError k >>= fun a => (g a).mapError k := by
  cases x <;> rfl

theorem Table.read_rename {f : String → String} {t : Table} {x : String}
    (apart : ∀ y ∈ t.names, f y = f x → y = x) :
    ((t.rename f).read (f x)).mapError Failure.kind = (t.read x).mapError Failure.kind := by
  simp only [read, get?_rename apart]
  cases t.get? x <;> rfl

/-- Under other names an expression has the same value, or a failure of the same kind. -/
theorem Expr.evaluate_rename {f : String → String} {xs : List String} {t : Table} {e : Expr}
    (apart : KeepsApart f xs) (known : t.names ⊆ xs) (reads : ∀ x ∈ e.reads, x ∈ xs) :
    ((e.rename f).evaluate (t.rename f)).mapError Failure.kind =
      (e.evaluate t).mapError Failure.kind := by
  induction e with
  | constant n => rfl
  | «variable» x =>
    exact Table.read_rename (fun y hy => apart y (known hy) x (reads x (by simp [Expr.reads])))
  | unary op e ih => simp only [rename, evaluate, mapError_bind, ih reads]
  | binary op l r ihl ihr =>
    have left := ihl (fun x hx => reads x (List.mem_append_left _ hx))
    have right := ihr (fun x hx => reads x (List.mem_append_right _ hx))
    by_cases hop : op = .div
    · subst hop
      have failure := (Expr.binary .div l r).divisionFailure_rename f
      simp only [rename] at failure
      rw [rename, evaluate_div, evaluate_div, mapError_bind, mapError_bind, right]
      congr 1
      funext d
      by_cases hd : d = 0
      · simp only [hd, if_true]
        exact congrArg Except.error failure
      · simp only [hd, if_false, mapError_bind, left]
    · rw [rename, evaluate_binary _ hop, evaluate_binary _ hop]
      simp only [mapError_bind, left, right]

/-- The second outcome leaves behind what the first does, changed as given, and has a failure of the
same kind if the first has one. -/
def Outcome.AlikeUnder {σ : Type} (change : σ → σ) (o o' : Outcome σ) : Prop :=
  o'.state = change o.state ∧ o'.failure.map Failure.kind = o.failure.map Failure.kind

theorem Outcome.AlikeUnder.done {σ : Type} {change : σ → σ} {s : σ} {o : Outcome σ}
    (alike : AlikeUnder change ⟨s, none⟩ o) : o = ⟨change s, none⟩ := by
  obtain ⟨s', failure⟩ := o
  obtain ⟨state, same⟩ := alike
  have completed : failure = none := Option.map_eq_none_iff.mp same
  rw [completed, show s' = change s from state]

theorem Outcome.AlikeUnder.failed {σ : Type} {change : σ → σ} {s : σ} {g : Failure} {o : Outcome σ}
    (alike : AlikeUnder change ⟨s, some g⟩ o) :
    ∃ g', o = ⟨change s, some g'⟩ ∧ g'.kind = g.kind := by
  obtain ⟨s', failure⟩ := o
  obtain ⟨state, same⟩ := alike
  obtain ⟨g', failed, kind⟩ := Option.map_eq_some_iff.mp same
  exact ⟨g', by rw [show failure = some g' from failed, show s' = change s from state], kind⟩

theorem mapError_eq_ok {α ε : Type} {k : Failure → ε} {x : Except Failure α} {a : α}
    (h : x.mapError k = .ok a) : x = .ok a := by
  cases x with
  | ok b => cases h; rfl
  | error f => cases h

theorem mapError_eq_error {α ε : Type} {k : Failure → ε} {x : Except Failure α} {c : ε}
    (h : x.mapError k = .error c) : ∃ f, x = .error f ∧ k f = c := by
  cases x with
  | ok b => cases h
  | error f => exact ⟨f, rfl, Except.error.inj h⟩

theorem Session.act_rename {f : String → String} {xs : List String} {s : Session} {a : Action}
    (apart : KeepsApart f xs) (known : s.symbols.names ⊆ xs) (reads : ∀ x ∈ a.expr.reads, x ∈ xs)
    (target : ∀ x, a.target? = some x → x ∈ xs) :
    ((s.rename f).act (a.rename f)).mapError Failure.kind =
      ((s.act a).map (Session.rename f)).mapError Failure.kind := by
  cases a with
  | assign x e =>
    have value := Expr.evaluate_rename (t := s.symbols) (e := e) apart known reads
    simp only [act, Action.rename, mapError_bind, Session.rename, value]
    cases e.evaluate s.symbols with
    | error g => rfl
    | ok v =>
      have hset := Table.set_rename (t := s.symbols) (x := x) v
        (fun y hy => apart y (known hy) x (target x rfl))
      exact congrArg (fun t => Except.ok (⟨t, s.output⟩ : Session)) hset
  | print e =>
    have value := Expr.evaluate_rename (t := s.symbols) (e := e) apart known reads
    simp only [act, Action.rename, mapError_bind, Session.rename, value]
    cases e.evaluate s.symbols with
    | error g => rfl
    | ok v =>
      simp only [mapError_ok, bind, Except.bind]
      cases printed v <;> rfl

/-- Under other names that are kept apart a program prints the same, stores the same under the new
names, and fails where it failed, if it did, with a failure of the same kind. -/
theorem Session.execute_rename {f : String → String} {xs : List String} {s : Session} {p : Program}
    (apart : KeepsApart f xs) (known : s.symbols.names ⊆ xs) (names : p.Names (· ∈ xs)) :
    (s.execute p).AlikeUnder (Session.rename f) ((s.rename f).execute (p.rename f)) := by
  -- The names in the table change from action to action, but never leave the given list.
  induction p generalizing s with
  | nil => exact ⟨rfl, rfl⟩
  | cons a p ih =>
    obtain ⟨reads, target⟩ := names a (by simp)
    have first := act_rename apart known reads target
    simp only [Program.rename, List.map_cons, execute]
    cases ha : s.act a with
    | ok s₁ =>
      have known₁ : s₁.symbols.names ⊆ xs := by
        intro x hx
        rcases (act_names ha).2 x hx with hx | hx
        · exact known hx
        · exact target x hx
      rw [ha] at first
      rw [mapError_eq_ok first]
      exact ih known₁ (fun b hb => names b (by simp [hb]))
    | error g =>
      rw [ha] at first
      obtain ⟨g', failed, same⟩ := mapError_eq_error first
      rw [failed]
      exact ⟨rfl, congrArg some same⟩

end PolishCalc
