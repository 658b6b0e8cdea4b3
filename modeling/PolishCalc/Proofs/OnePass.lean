import Mathlib.Data.List.Nodup
import PolishCalc.Proofs.ExactArithmetic
import PolishCalc.Proofs.RunEndings
import PolishCalc.Proofs.Stops

namespace PolishCalc

/-- Where an operand stands. -/
inductive Side
  | only
  | left
  | right
  deriving DecidableEq, Repr

/-- The way from an expression down to a part of it. -/
abbrev Path := List Side

def Expr.at? : Expr → Path → Option Expr
  | e, [] => some e
  | .unary _ e, .only :: p => e.at? p
  | .binary _ l _, .left :: p => l.at? p
  | .binary _ _ r, .right :: p => r.at? p
  | _, _ => none

def Side.inside (s : Side) (ps : List Path) : List Path :=
  ps.map (s :: ·)

/-- A division begins with its divisor, all other operators with their left operand. -/
def BinaryOp.inOrder : BinaryOp → List Path → List Path → List Path
  | .div, ls, rs => Side.right.inside rs ++ Side.left.inside ls
  | _, ls, rs => Side.left.inside ls ++ Side.right.inside rs

/-- The paths to all parts of an expression in the order in which the parts are begun. -/
def Expr.schedule : Expr → List Path
  | .constant _ => [[]]
  | .variable _ => [[]]
  | .unary _ e => [] :: Side.only.inside e.schedule
  | .binary op l r => [] :: op.inOrder l.schedule r.schedule

/-- `e.Pass t ps r`: the expression is worked out with the values in `t` in a single pass, which
begins the parts that the paths `ps` lead to, one after the other, and ends in `r`. The first part
without a value ends the pass. -/
inductive Expr.Pass (t : Table) : Expr → List Path → Except Failure Int → Prop
  | constant (n : Int) : Pass t (.constant n) [[]] (.ok n)
  | known {x : String} {v : Int} (value : t.get? x = some v) : Pass t (.variable x) [[]] (.ok v)
  | unset {x : String} (missing : t.get? x = none) :
      Pass t (.variable x) [[]] (.error (.fault (.uninitialized x)))
  | operandFails (op : UnaryOp) {e : Expr} {ps : List Path} {f : Failure}
      (operand : Pass t e ps (.error f)) :
      Pass t (.unary op e) ([] :: Side.only.inside ps) (.error f)
  | unary {op : UnaryOp} {e : Expr} {ps : List Path} {a : Int} {r : Except Failure Int}
      (operand : Pass t e ps (.ok a)) (result : op.Yields a r) :
      Pass t (.unary op e) ([] :: Side.only.inside ps) r
  | leftFails {op : BinaryOp} (plain : op ≠ .div) {l : Expr} (r : Expr) {ps : List Path}
      {f : Failure} (left : Pass t l ps (.error f)) :
      Pass t (.binary op l r) ([] :: Side.left.inside ps) (.error f)
  | rightFails {op : BinaryOp} (plain : op ≠ .div) {l r : Expr} {ps qs : List Path} {a : Int}
      {f : Failure} (left : Pass t l ps (.ok a)) (right : Pass t r qs (.error f)) :
      Pass t (.binary op l r) ([] :: (Side.left.inside ps ++ Side.right.inside qs)) (.error f)
  | binary {op : BinaryOp} (plain : op ≠ .div) {l r : Expr} {ps qs : List Path} {a b v : Int}
      (left : Pass t l ps (.ok a)) (right : Pass t r qs (.ok b)) (value : op.Yields a b v) :
      Pass t (.binary op l r) ([] :: (Side.left.inside ps ++ Side.right.inside qs)) (.ok v)
  | divisorFails (l : Expr) {r : Expr} {qs : List Path} {f : Failure}
      (divisor : Pass t r qs (.error f)) :
      Pass t (.binary .div l r) ([] :: Side.right.inside qs) (.error f)
  | zeroDivisor (l : Expr) {r : Expr} {qs : List Path} (divisor : Pass t r qs (.ok 0)) :
      Pass t (.binary .div l r) ([] :: Side.right.inside qs)
        (.error (.fault (.zeroDivisor (Expr.binary .div l r).text)))
  | dividendFails {l r : Expr} {ps qs : List Path} {d : Int} {f : Failure}
      (divisor : Pass t r qs (.ok d)) (nonzero : d ≠ 0) (dividend : Pass t l ps (.error f)) :
      Pass t (.binary .div l r) ([] :: (Side.right.inside qs ++ Side.left.inside ps)) (.error f)
  | quotient {l r : Expr} {ps qs : List Path} {a d q : Int} (divisor : Pass t r qs (.ok d))
      (nonzero : d ≠ 0) (dividend : Pass t l ps (.ok a)) (value : BinaryOp.Yields .div a d q) :
      Pass t (.binary .div l r) ([] :: (Side.right.inside qs ++ Side.left.inside ps)) (.ok q)

theorem Side.mem_inside {s : Side} {ps : List Path} {p : Path} :
    p ∈ s.inside ps ↔ ∃ q ∈ ps, s :: q = p :=
  List.mem_map

theorem Side.nodup_inside {s : Side} {ps : List Path} (h : ps.Nodup) : (s.inside ps).Nodup :=
  h.map List.cons_injective

theorem Side.prefix_first (s s' : Side) {ps qs : List Path} (h : ps <+: qs) (rs : List Path) :
    [] :: s.inside ps <+: [] :: (s.inside qs ++ s'.inside rs) :=
  List.cons_prefix_cons.mpr ⟨rfl, (h.map _).trans (List.prefix_append _ _)⟩

theorem Side.prefix_second (s s' : Side) (qs : List Path) {ps rs : List Path} (h : ps <+: rs) :
    [] :: (s.inside qs ++ s'.inside ps) <+: [] :: (s.inside qs ++ s'.inside rs) :=
  List.cons_prefix_cons.mpr ⟨rfl, (List.prefix_append_right_inj _).mpr (h.map _)⟩

theorem BinaryOp.mem_inOrder {op : BinaryOp} {ls rs : List Path} {p : Path} :
    p ∈ op.inOrder ls rs ↔ p ∈ Side.left.inside ls ∨ p ∈ Side.right.inside rs := by
  cases op <;> simp [inOrder, or_comm]

theorem BinaryOp.nodup_inOrder (op : BinaryOp) {ls rs : List Path} (left : ls.Nodup)
    (right : rs.Nodup) : (op.inOrder ls rs).Nodup := by
  have apart : ∀ p ∈ Side.left.inside ls, ∀ q ∈ Side.right.inside rs, p ≠ q := by
    intro p hp q hq
    obtain ⟨p', _, rfl⟩ := Side.mem_inside.mp hp
    obtain ⟨q', _, rfl⟩ := Side.mem_inside.mp hq
    simp
  have left := Side.nodup_inside (s := .left) left
  have right := Side.nodup_inside (s := .right) right
  cases op with
  | div => exact List.nodup_append.mpr ⟨right, left, fun q hq p hp => (apart p hp q hq).symm⟩
  | _ => exact List.nodup_append.mpr ⟨left, right, apart⟩

theorem BinaryOp.inOrder_of_ne {op : BinaryOp} (plain : op ≠ .div) (ls rs : List Path) :
    op.inOrder ls rs = Side.left.inside ls ++ Side.right.inside rs := by
  cases op with
  | div => exact absurd rfl plain
  | _ => rfl

theorem Stop.zeroDivisor_of_kind {c : Stop} {f : Fault} (failure : c.failure = .fault f)
    (kind : f.complaint.kind = .divideByZero) :
    ∃ q shown, c = .zeroDivisor q ∧ q.display = .ok shown ∧ f = .zeroDivisor shown := by
  cases c with
  | unset x =>
    cases failure
    cases kind
  | negativeRoot a =>
    simp only [Stop.failure, Fault.failure] at failure
    split at failure
    · cases failure
      cases kind
    · cases failure
  | zeroDivisor q =>
    simp only [Stop.failure, Expr.divisionFailure] at failure
    split at failure
    next shown display =>
      cases failure
      exact ⟨q, shown, rfl, display, rfl⟩
    next => cases failure

namespace Expr

theorem mem_schedule {e : Expr} {p : Path} : p ∈ e.schedule ↔ ∃ part, e.at? p = some part := by
  induction e generalizing p with
  | constant n => cases p <;> simp [schedule, at?]
  | «variable» x => cases p <;> simp [schedule, at?]
  | unary op e ih =>
    rcases p with _ | ⟨_ | _ | _, p⟩ <;> simp [schedule, at?, Side.mem_inside, ih]
  | binary op l r ihl ihr =>
    rcases p with _ | ⟨_ | _ | _, p⟩ <;>
      simp [schedule, at?, BinaryOp.mem_inOrder, Side.mem_inside, ihl, ihr]

theorem schedule_nodup (e : Expr) : e.schedule.Nodup := by
  induction e with
  | constant n => simp [schedule]
  | «variable» x => simp [schedule]
  | unary op e ih => simp [schedule, Side.mem_inside, Side.nodup_inside ih]
  | binary op l r ihl ihr =>
    simp [schedule, BinaryOp.mem_inOrder, Side.mem_inside, op.nodup_inOrder ihl ihr]

/-- A pass keeps to the schedule, and comes to its end if the expression has a value. -/
theorem Pass.keeps_schedule {t : Table} {e : Expr} {ps : List Path} {r : Except Failure Int}
    (h : e.Pass t ps r) : ps <+: e.schedule ∧ ∀ v, r = .ok v → ps = e.schedule := by
  induction h with
  | constant n => exact ⟨List.prefix_rfl, fun _ _ => rfl⟩
  | known value => exact ⟨List.prefix_rfl, fun _ _ => rfl⟩
  | unset missing => exact ⟨List.prefix_rfl, fun _ _ => rfl⟩
  | operandFails op operand ih =>
    exact ⟨List.cons_prefix_cons.mpr ⟨rfl, ih.1.map _⟩, by simp⟩
  | unary operand result ih =>
    rw [ih.2 _ rfl]
    exact ⟨List.prefix_rfl, fun _ _ => rfl⟩
  | leftFails plain r left ih =>
    refine ⟨?_, by simp⟩
    rw [schedule, BinaryOp.inOrder_of_ne plain]
    exact Side.prefix_first .left .right ih.1 _
  | rightFails plain left right ihl ihr =>
    refine ⟨?_, by simp⟩
    rw [schedule, BinaryOp.inOrder_of_ne plain, ihl.2 _ rfl]
    exact Side.prefix_second .left .right _ ihr.1
  | binary plain left right value ihl ihr =>
    rw [schedule, BinaryOp.inOrder_of_ne plain, ihl.2 _ rfl, ihr.2 _ rfl]
    exact ⟨List.prefix_rfl, fun _ _ => rfl⟩
  | divisorFails l divisor ih => exact ⟨Side.prefix_first .right .left ih.1 _, by simp⟩
  | zeroDivisor l divisor ih => exact ⟨Side.prefix_first .right .left ih.1 _, by simp⟩
  | dividendFails divisor nonzero dividend ihr ihl =>
    refine ⟨?_, by simp⟩
    rw [ihr.2 _ rfl]
    exact Side.prefix_second .right .left _ ihl.1
  | quotient divisor nonzero dividend value ihr ihl =>
    rw [ihr.2 _ rfl, ihl.2 _ rfl]
    exact ⟨List.prefix_rfl, fun _ _ => rfl⟩

theorem divisionFailure_of_writable {e : Expr} (writable : e.writable = true) :
    e.divisionFailure = .fault (.zeroDivisor e.text) := by
  simp [divisionFailure, display, writable]

theorem writable_operands {op : BinaryOp} {l r : Expr}
    (writable : (Expr.binary op l r).writable = true) :
    l.writable = true ∧ r.writable = true := by
  simpa [Expr.writable] using writable

theorem evaluate_div_of_ne_zero {t : Table} {r : Expr} {d : Int} (l : Expr)
    (divisor : r.evaluate t = .ok d) (nonzero : d ≠ 0) :
    (Expr.binary .div l r).evaluate t = (do
      let a ← l.evaluate t
      .ok (a.tdiv d)) := by
  rw [evaluate_div, divisor]
  exact if_neg nonzero

/-- What a pass ends in is what the expression evaluates to, though a division evaluates its divisor
twice. -/
theorem Pass.evaluate_eq {t : Table} {e : Expr} {ps : List Path} {r : Except Failure Int}
    (writable : e.writable = true) (h : e.Pass t ps r) : e.evaluate t = r := by
  induction h with
  | constant n => rfl
  | known value => simp [evaluate, Table.read, value]
  | unset missing => simp [evaluate, Table.read, missing]
  | operandFails op operand ih => exact bind_eq_error_iff.mpr (.inl (ih writable))
  | unary operand result ih =>
    rw [evaluate, ih writable]
    exact UnaryOp.yields_iff.mp result
  | leftFails plain r left ih =>
    rw [evaluate_binary t plain, ih (writable_operands writable).1]
    rfl
  | rightFails plain left right ihl ihr =>
    obtain ⟨writable_l, writable_r⟩ := writable_operands writable
    rw [evaluate_binary t plain, ihl writable_l, ihr writable_r]
    rfl
  | binary plain left right value ihl ihr =>
    obtain ⟨writable_l, writable_r⟩ := writable_operands writable
    rw [evaluate_binary t plain, ihl writable_l, ihr writable_r]
    exact BinaryOp.yields_iff.mp value
  | divisorFails l divisor ih =>
    rw [evaluate_div, ih (writable_operands writable).2]
    rfl
  | zeroDivisor l divisor ih =>
    rw [evaluate_div, ih (writable_operands writable).2, divisionFailure_of_writable writable]
    rfl
  | dividendFails divisor nonzero dividend ihr ihl =>
    obtain ⟨writable_l, writable_r⟩ := writable_operands writable
    rw [evaluate_div_of_ne_zero _ (ihr writable_r) nonzero, ihl writable_l]
    rfl
  | quotient divisor nonzero dividend value ihr ihl =>
    obtain ⟨writable_l, writable_r⟩ := writable_operands writable
    rw [evaluate_div_of_ne_zero _ (ihr writable_r) nonzero, ihl writable_l]
    exact (quotient_of_ne_zero _ nonzero).symm.trans (BinaryOp.yields_iff.mp value)

theorem exists_pass_plain {t : Table} {op : BinaryOp} (plain : op ≠ .div) {l r : Expr}
    (left : ∃ ps, l.Pass t ps (l.evaluate t)) (right : ∃ qs, r.Pass t qs (r.evaluate t)) :
    ∃ ps, (Expr.binary op l r).Pass t ps ((Expr.binary op l r).evaluate t) := by
  obtain ⟨ps, left⟩ := left
  obtain ⟨qs, right⟩ := right
  rw [evaluate_binary t plain]
  cases value : l.evaluate t with
  | error f =>
    rw [value] at left
    exact ⟨_, .leftFails plain r left⟩
  | ok a =>
    rw [value] at left
    cases value' : r.evaluate t with
    | error f =>
      rw [value'] at right
      exact ⟨_, .rightFails plain left right⟩
    | ok b =>
      rw [value'] at right
      obtain ⟨v, applied⟩ := BinaryOp.exists_apply plain a b
      change ∃ ps, (Expr.binary op l r).Pass t ps (op.apply a b)
      rw [applied]
      exact ⟨_, .binary plain left right (BinaryOp.yields_iff.mpr applied)⟩

theorem exists_pass_div {t : Table} {l r : Expr}
    (writable : (Expr.binary .div l r).writable = true)
    (left : ∃ ps, l.Pass t ps (l.evaluate t)) (right : ∃ qs, r.Pass t qs (r.evaluate t)) :
    ∃ ps, (Expr.binary .div l r).Pass t ps ((Expr.binary .div l r).evaluate t) := by
  obtain ⟨ps, left⟩ := left
  obtain ⟨qs, right⟩ := right
  cases divisor : r.evaluate t with
  | error f =>
    rw [divisor] at right
    rw [evaluate_div, divisor]
    exact ⟨_, .divisorFails l right⟩
  | ok d =>
    rw [divisor] at right
    by_cases zero : d = 0
    · subst zero
      rw [evaluate_div, divisor, divisionFailure_of_writable writable]
      exact ⟨_, .zeroDivisor l right⟩
    · rw [evaluate_div_of_ne_zero l divisor zero]
      cases dividend : l.evaluate t with
      | error f =>
        rw [dividend] at left
        exact ⟨_, .dividendFails right zero left⟩
      | ok a =>
        rw [dividend] at left
        exact ⟨_, .quotient right zero left (.quotient (cutOff_tdiv a zero))⟩

theorem exists_pass (t : Table) {e : Expr} (writable : e.writable = true) :
    ∃ ps, e.Pass t ps (e.evaluate t) := by
  induction e with
  | constant n => exact ⟨_, .constant n⟩
  | «variable» x =>
    rw [evaluate, Table.read]
    cases value : t.get? x with
    | none => exact ⟨_, .unset value⟩
    | some v => exact ⟨_, .known value⟩
  | unary op e ih =>
    obtain ⟨ps, operand⟩ := ih writable
    rw [evaluate]
    cases value : e.evaluate t with
    | error f =>
      rw [value] at operand
      exact ⟨_, .operandFails op operand⟩
    | ok a =>
      rw [value] at operand
      exact ⟨_, .unary operand (UnaryOp.yields_iff.mpr rfl)⟩
  | binary op l r ihl ihr =>
    obtain ⟨writable_l, writable_r⟩ := writable_operands writable
    by_cases hop : op = .div
    · subst hop
      exact exists_pass_div writable (ihl writable_l) (ihr writable_r)
    · exact exists_pass_plain hop (ihl writable_l) (ihr writable_r)

/-- The division that stops an expression is a part of it, and its divisor is zero. -/
theorem StopsBy.division_at {t : Table} {e q : Expr} (stops : e.StopsBy t (.zeroDivisor q)) :
    ∃ p l r, e.at? p = some q ∧ q = .binary .div l r ∧ r.evaluate t = .ok 0 := by
  generalize hc : Stop.zeroDivisor q = c at stops
  induction stops with
  | unset missing => cases hc
  | root value negative => cases hc
  | operand op _ ih =>
    obtain ⟨p, l, r, found, division⟩ := ih hc
    exact ⟨.only :: p, l, r, found, division⟩
  | left plain _ _ ih =>
    obtain ⟨p, l, r, found, division⟩ := ih hc
    exact ⟨.left :: p, l, r, found, division⟩
  | right plain _ _ ih =>
    obtain ⟨p, l, r, found, division⟩ := ih hc
    exact ⟨.right :: p, l, r, found, division⟩
  | divisor _ _ ih =>
    obtain ⟨p, l, r, found, division⟩ := ih hc
    exact ⟨.right :: p, l, r, found, division⟩
  | zero l value =>
    cases hc
    exact ⟨[], l, _, rfl, rfl, value⟩
  | dividend _ _ _ ih =>
    obtain ⟨p, l, r, found, division⟩ := ih hc
    exact ⟨.left :: p, l, r, found, division⟩

/-- An expression worked out with a whole session at hand, to read and to change. Every part is
worked out where it is needed, and a quotient tests its divisor once more; `late` is what that
second test fails by. -/
def work (late : Int → Failure) : Expr → ExceptT Failure (StateM Session) Int
  | .constant n => pure n
  | .variable x => do
    let s ← get
    ExceptT.mk (pure (s.symbols.read x))
  | .unary op e => do
    let a ← e.work late
    ExceptT.mk (pure (op.apply a))
  | .binary .div l r => do
    let d ← r.work late
    if d = 0 then throw (Expr.binary .div l r).divisionFailure
    else
      let a ← l.work late
      let b ← r.work late
      if b = 0 then throw (late a) else pure (signedQuotient a b)
  | .binary op l r => do
    let a ← l.work late
    let b ← r.work late
    ExceptT.mk (pure (op.apply a b))

theorem work_binary (late : Int → Failure) {op : BinaryOp} (plain : op ≠ .div) (l r : Expr) :
    (Expr.binary op l r).work late = (do
      let a ← l.work late
      let b ← r.work late
      ExceptT.mk (pure (op.apply a b))) := by
  cases op with
  | div => exact absurd rfl plain
  | _ => rfl

section Work

variable {α β : Type} {m : ExceptT Failure (StateM Session) α} {s s' : Session}

theorem run_bind_of_value {a : α} (value : m.run.run s = (.ok a, s'))
    (k : α → ExceptT Failure (StateM Session) β) :
    (m >>= k).run.run s = (k a).run.run s' := by
  rw [ExceptT.run_bind, StateT.run_bind, value]
  rfl

theorem run_bind_of_failure {f : Failure} (failed : m.run.run s = (.error f, s'))
    (k : α → ExceptT Failure (StateM Session) β) :
    (m >>= k).run.run s = (.error f, s') := by
  rw [ExceptT.run_bind, StateT.run_bind, failed]
  rfl

end Work

theorem work_eq_plain {late : Int → Failure} {op : BinaryOp} (plain : op ≠ .div) {l r : Expr}
    {s : Session} (left : (l.work late).run.run s = (l.evaluate s.symbols, s))
    (right : (r.work late).run.run s = (r.evaluate s.symbols, s)) :
    ((Expr.binary op l r).work late).run.run s =
      ((Expr.binary op l r).evaluate s.symbols, s) := by
  rw [work_binary late plain, evaluate_binary s.symbols plain]
  cases value : l.evaluate s.symbols with
  | error f =>
    rw [value] at left
    exact run_bind_of_failure left _
  | ok a =>
    rw [value] at left
    rw [run_bind_of_value left]
    cases value' : r.evaluate s.symbols with
    | error f =>
      rw [value'] at right
      exact run_bind_of_failure right _
    | ok b =>
      rw [value'] at right
      exact run_bind_of_value right _

/-- The divisor has the same value when it is worked out again, so the second test does not fail. -/
theorem work_eq_div {late : Int → Failure} {l r : Expr} {s : Session}
    (left : (l.work late).run.run s = (l.evaluate s.symbols, s))
    (right : (r.work late).run.run s = (r.evaluate s.symbols, s)) :
    ((Expr.binary .div l r).work late).run.run s =
      ((Expr.binary .div l r).evaluate s.symbols, s) := by
  rw [work]
  cases divisor : r.evaluate s.symbols with
  | error f =>
    rw [divisor] at right
    rw [evaluate_div, divisor]
    exact run_bind_of_failure right _
  | ok d =>
    rw [divisor] at right
    rw [run_bind_of_value right]
    by_cases zero : d = 0
    · subst zero
      rw [evaluate_div, divisor]
      rfl
    · rw [if_neg zero, evaluate_div_of_ne_zero l divisor zero]
      cases dividend : l.evaluate s.symbols with
      | error f =>
        rw [dividend] at left
        exact run_bind_of_failure left _
      | ok a =>
        rw [dividend] at left
        -- The session is as before, so the divisor is `d` again and `late` is not asked.
        rw [run_bind_of_value left, run_bind_of_value right, if_neg zero,
          signedQuotient_eq_tdiv a zero]
        rfl

theorem work_eq (late : Int → Failure) (e : Expr) (s : Session) :
    (e.work late).run.run s = (e.evaluate s.symbols, s) := by
  induction e with
  | constant n => rfl
  | «variable» x => rfl
  | unary op e ih =>
    rw [work, evaluate]
    cases value : e.evaluate s.symbols with
    | error f =>
      rw [value] at ih
      exact run_bind_of_failure ih _
    | ok a =>
      rw [value] at ih
      exact run_bind_of_value ih _
  | binary op l r ihl ihr =>
    by_cases hop : op = .div
    · subst hop
      exact work_eq_div ihl ihr
    · exact work_eq_plain hop ihl ihr

end Expr

/-- An expression that the parser gives has the value, or stops by the failure, of a single pass. A
pass keeps to a schedule that has every part of the expression once, up to the first failure, or to
its end if there is a value. A division by zero always names, in infix form, a division in the
expression whose divisor is zero. And working the expression out leaves the session as it is,
whatever the second test of a divisor would fail by. -/
theorem evaluation_is_one_pass {ts rest : List String} {e : Expr}
    (parsed : expression ts = (.ok e, rest)) (s : Session) :
    (∀ r, e.evaluate s.symbols = r ↔ ∃ ps, e.Pass s.symbols ps r) ∧
    (∀ ps r, e.Pass s.symbols ps r → ps <+: e.schedule ∧ ∀ v, r = .ok v → ps = e.schedule) ∧
    e.schedule.Nodup ∧ (∀ p, p ∈ e.schedule ↔ ∃ part, e.at? p = some part) ∧
    (∀ f, e.evaluate s.symbols = .error (.fault f) → f.complaint.kind = .divideByZero →
      ∃ p l r shown, e.at? p = some (.binary .div l r) ∧ r.evaluate s.symbols = .ok 0 ∧
        (Expr.binary .div l r).display = .ok shown ∧ f.complaint.value = some (.text shown)) ∧
    ∀ late, (e.work late).run.run s = (e.evaluate s.symbols, s) := by
  obtain ⟨_, _, derived⟩ := derivesExpr_of_expression parsed
  have writable := derived.wellFormed.writable_eq
  refine ⟨fun r => ⟨?_, ?_⟩, fun ps r => Expr.Pass.keeps_schedule, e.schedule_nodup,
    fun p => Expr.mem_schedule, fun f failed kind => ?_, fun late => Expr.work_eq late e s⟩
  · rintro rfl
    exact Expr.exists_pass s.symbols writable
  · rintro ⟨ps, pass⟩
    exact pass.evaluate_eq writable
  · obtain ⟨c, stops, failure⟩ := Expr.exists_stopsBy failed
    obtain ⟨q, shown, rfl, display, rfl⟩ := Stop.zeroDivisor_of_kind failure kind
    obtain ⟨p, l, r, found, rfl, divisor⟩ := stops.division_at
    exact ⟨p, l, r, shown, found, divisor, display, rfl⟩

/-- A division in a dividend that is not reached, since the divisor of the outer one stops first by
its own zero divisor; and a pass that comes to its end through a quotient that is cut off, a sign and
a root. -/
theorem inner_divisor_stops_first :
    let ts := ["/", "/", "x", "0", "/", "y", "-", "a", "a"]
    let e : Expr := .binary .div (.binary .div (.variable "x") (.constant 0))
      (.binary .div (.variable "y") (.binary .sub (.variable "a") (.variable "a")))
    let s : Session := ⟨[("a", 3)], ["=== 3"]⟩
    let f := Failure.fault (.zeroDivisor "( y / ( a - a ) )")
    let ts' := ["%", "_", "/", "-7", "2"]
    let e' : Expr := .unary .root (.unary .negate (.binary .div (.constant (-7)) (.constant 2)))
    expression ts = (.ok e, []) ∧ e.evaluate s.symbols = .error f ∧
      e.Pass s.symbols [[], [.right], [.right, .right], [.right, .right, .left],
        [.right, .right, .right]] (.error f) ∧
      (∀ late, (e.work late).run.run s = (.error f, s)) ∧
      expression ts' = (.ok e', []) ∧ e'.evaluate s.symbols = .ok 1 ∧
      e'.Pass s.symbols [[], [.only], [.only, .only], [.only, .only, .right],
        [.only, .only, .left]] (.ok 1) := by
  intro ts e s f ts' e'
  have wellFormed : e.WellFormed := by decide +kernel
  have parsed : expression ts = (.ok e, []) := wellFormed.derivesExpr.expression_eq []
  have a : (Expr.variable "a").Pass s.symbols [[]] (.ok 3) := .known rfl
  have difference : (Expr.binary .sub (.variable "a") (.variable "a")).Pass s.symbols
      [[], [.left], [.right]] (.ok 0) := .binary (by decide) a a (.difference 3 3)
  have inner := Expr.Pass.zeroDivisor (.variable "y") difference
  have shown : (Expr.binary .div (.variable "y")
      (.binary .sub (.variable "a") (.variable "a"))).text = "( y / ( a - a ) )" := by
    decide +kernel
  rw [shown] at inner
  have pass := Expr.Pass.divisorFails (.binary .div (.variable "x") (.constant 0)) inner
  obtain ⟨value, _, _, _, _, kept⟩ := evaluation_is_one_pass parsed s
  have failed := (value (.error f)).mpr ⟨_, pass⟩
  have wellFormed' : e'.WellFormed := by decide +kernel
  have parsed' : expression ts' = (.ok e', []) := wellFormed'.derivesExpr.expression_eq []
  have cut : CutOff (-7) 2 (-3) := ⟨-1, by decide, by decide, by decide⟩
  have quotient : (Expr.binary .div (.constant (-7)) (.constant 2)).Pass s.symbols
      [[], [.right], [.left]] (.ok (-3)) :=
    .quotient (.constant 2) (by decide) (.constant (-7)) (.quotient cut)
  have root : UnaryOp.Yields .root 3 (.ok 1) := .root (r := 1) (by decide) (by decide)
  have pass' : e'.Pass s.symbols _ (.ok 1) := .unary (.unary quotient (.negated (-3))) root
  obtain ⟨value', _⟩ := evaluation_is_one_pass parsed' s
  exact ⟨parsed, failed, pass, fun late => (kept late).trans (by rw [failed]), parsed',
    (value' (.ok 1)).mpr ⟨_, pass'⟩, pass'⟩

end PolishCalc
