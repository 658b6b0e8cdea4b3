import PolishCalc.Generator
import PolishCalc.Proofs.Reassembly
import PolishCalc.Proofs.StackValue
import PolishCalc.Proofs.TokenForm

namespace PolishCalc

def Expr.reads : Expr → List String
  | .constant _ => []
  | .variable x => [x]
  | .unary _ e => e.reads
  | .binary _ l r => l.reads ++ r.reads

def Action.target? : Action → Option String
  | .assign x _ => some x
  | .print _ => none

def Program.targets (p : Program) : List String :=
  p.filterMap Action.target?

theorem Action.target?_eq_some {a : Action} {x : String} (h : a.target? = some x) :
    ∃ e, a = .assign x e := by
  cases a with
  | assign y e =>
    cases Option.some.inj h
    exact ⟨e, rfl⟩
  | print e => simp [target?] at h

theorem DerivesExpr.reads_mem {ts : List String} {e : Expr} (h : DerivesExpr ts e) :
    ∀ x ∈ e.reads, x ∈ ts := by
  induction h with
  | numeral => simp [Expr.reads]
  | identifier => simp [Expr.reads]
  | unary op _ ih =>
    intro x hx
    exact List.mem_cons_of_mem _ (ih x hx)
  | binary op _ _ ihl ihr =>
    intro x hx
    apply List.mem_cons_of_mem
    rcases List.mem_append.mp hx with hx | hx
    · exact List.mem_append_left _ (ihl x hx)
    · exact List.mem_append_right _ (ihr x hx)

/-- The names of a program stand among its tokens, targets right behind an assignment sign. -/
theorem DerivesProgram.names_mem {Target : String → Prop} {ts : List String} {p : Program}
    (h : DerivesProgram Target ts p) {a : Action} (ha : a ∈ p) :
    (∀ x ∈ a.expr.reads, x ∈ ts) ∧ ∀ x, a.target? = some x → [":=", x] <:+: ts := by
  induction h with
  | nil => simp at ha
  | @cons ts us b p first _ ih =>
    rcases List.mem_cons.mp ha with rfl | ha
    · cases first with
      | @assign y ts e _ value =>
        refine ⟨fun x hx => ?_, fun x hx => ?_⟩
        · exact List.mem_append_left _ (by simp [value.reads_mem x hx])
        · cases Option.some.inj hx
          exact ⟨[], ts ++ us, by simp⟩
      | @print ts e value =>
        refine ⟨fun x hx => ?_, fun x hx => by simp [Action.target?] at hx⟩
        exact List.mem_append_left _ (by simp [value.reads_mem x hx])
    · obtain ⟨hv, ht⟩ := ih ha
      refine ⟨fun x hx => List.mem_append_right _ (hv x hx), fun x hx => ?_⟩
      exact (ht x hx).trans (List.suffix_append ts us).isInfix

/-- Every name that is read or assigned to is as asked for. -/
def Program.Names (p : Program) (Name : String → Prop) : Prop :=
  ∀ a ∈ p, (∀ x ∈ a.expr.reads, Name x) ∧ ∀ x, a.target? = some x → Name x

theorem parse_names {ts : List String} {p : Program} (tokens : ∀ t ∈ ts, IsWord t)
    (h : parse ts = .ok p) : p.Names IsWord := by
  intro a ha
  obtain ⟨hv, ht⟩ := (parse_eq_ok_iff.mp h).names_mem ha
  refine ⟨fun x hx => tokens x (hv x hx), fun x hx => ?_⟩
  exact tokens x ((ht x hx).subset (by simp))

theorem Expr.code_wellFormed {Name : String → Prop} {e : Expr} (wellFormed : e.WellFormed)
    (names : ∀ x ∈ e.reads, Name x) : ∀ i ∈ e.code, i.WellFormed Name := by
  induction e with
  | constant n =>
    intro i hi
    cases List.mem_singleton.mp hi
    exact wellFormed
  | «variable» x =>
    intro i hi
    cases List.mem_singleton.mp hi
    have form : Identifier x := wellFormed
    exact ⟨names x (by simp [reads]), isNumeral_eq_false_iff.mpr form.noNumeral⟩
  | unary op e ih =>
    intro i hi
    rcases List.mem_append.mp hi with hi | hi
    · exact ih wellFormed names i hi
    · cases List.mem_singleton.mp hi
      trivial
  | binary op l r ihl ihr =>
    intro i hi
    simp only [reads, List.mem_append] at names
    rcases List.mem_append.mp hi with hi | hi
    · rcases List.mem_append.mp hi with hi | hi
      · exact ihl wellFormed.1 (fun x hx => names x (.inl hx)) i hi
      · exact ihr wellFormed.2 (fun x hx => names x (.inr hx)) i hi
    · cases List.mem_singleton.mp hi
      trivial

theorem Action.code_wellFormed {Name : String → Prop} {a : Action} (wellFormed : a.WellFormed)
    (reads : ∀ x ∈ a.expr.reads, Name x) (target : ∀ x, a.target? = some x → Name x) :
    ∀ i ∈ a.code, i.WellFormed Name := by
  intro i hi
  cases a with
  | assign x e =>
    rcases List.mem_append.mp hi with hi | hi
    · exact Expr.code_wellFormed wellFormed.2 reads i hi
    · cases List.mem_singleton.mp hi
      exact ⟨target x rfl, isNumeral_eq_false_iff.mpr wellFormed.1⟩
  | print e =>
    rcases List.mem_append.mp hi with hi | hi
    · exact Expr.code_wellFormed wellFormed reads i hi
    · cases List.mem_singleton.mp hi
      trivial

theorem Program.code_wellFormed {Name : String → Prop} {p : Program}
    (wellFormed : p.WellFormed) (names : p.Names Name) : ∀ i ∈ p.code, i.WellFormed Name := by
  intro i hi
  obtain ⟨a, ha, hi⟩ := List.mem_flatMap.mp hi
  exact Action.code_wellFormed (wellFormed a ha) (names a ha).1 (names a ha).2 i hi

end PolishCalc
