import PolishCalc.Proofs.Names

namespace PolishCalc

theorem Table.mem_names_of_get? {t : Table} {x : String} {v : Int} (h : t.get? x = some v) :
    x ∈ t.names := by
  induction t with
  | nil => simp [get?] at h
  | cons q t ih =>
    obtain ⟨y, u⟩ := q
    by_cases hy : y = x
    · simp [names, hy]
    · simp only [get?, hy, if_false] at h
      exact List.mem_cons_of_mem _ (ih h)

theorem Table.mem_names_of_read {t : Table} {x : String} {v : Int} (h : t.read x = .ok v) :
    x ∈ t.names := by
  unfold read at h
  split at h
  next hw => exact mem_names_of_get? hw
  next => simp at h

theorem Table.mem_names_set {t : Table} {x y : String} {v : Int} :
    y ∈ (t.set x v).names ↔ y ∈ t.names ∨ y = x := by
  induction t with
  | nil => simp [set, names]
  | cons q t ih =>
    obtain ⟨z, u⟩ := q
    simp only [names, set, List.map_cons, List.mem_cons] at ih ⊢
    split
    next hz => simp [hz, or_comm]
    next => rw [List.map_cons, List.mem_cons, ih, or_assoc]

/-- An expression that has a value reads nothing but names of the table. -/
theorem Expr.reads_mem_names {t : Table} {e : Expr} {v : Int} (h : e.evaluate t = .ok v) :
    ∀ x ∈ e.reads, x ∈ t.names := by
  rw [evaluate_eq_ok_iff] at h
  induction e generalizing v with
  | constant n => simp [reads]
  | «variable» x =>
    intro y hy
    cases List.mem_singleton.mp hy
    exact Table.mem_names_of_read h
  | unary op e ih =>
    obtain ⟨a, ha, _⟩ := bind_eq_ok_iff.mp h
    exact ih ha
  | binary op l r ihl ihr =>
    obtain ⟨a, ha, h⟩ := bind_eq_ok_iff.mp h
    obtain ⟨b, hb, _⟩ := bind_eq_ok_iff.mp h
    intro x hx
    rcases List.mem_append.mp hx with hx | hx
    · exact ihl ha x hx
    · exact ihr hb x hx

theorem Session.act_names {s s' : Session} {a : Action} (h : s.act a = .ok s') :
    (∀ x ∈ a.expr.reads, x ∈ s.symbols.names) ∧
      ∀ x ∈ s'.symbols.names, x ∈ s.symbols.names ∨ a.target? = some x := by
  cases a with
  | assign y e =>
    obtain ⟨v, hv, h⟩ := bind_eq_ok_iff.mp h
    cases h
    refine ⟨Expr.reads_mem_names hv, fun x hx => ?_⟩
    rcases Table.mem_names_set.mp hx with hx | rfl
    · exact .inl hx
    · exact .inr rfl
  | print e =>
    obtain ⟨v, hv, h⟩ := bind_eq_ok_iff.mp h
    obtain ⟨line, _, h⟩ := bind_eq_ok_iff.mp h
    cases h
    exact ⟨Expr.reads_mem_names hv, fun x hx => .inl hx⟩

/-- A program that completes reads nothing but what it assigns to or was there before. -/
theorem Session.reads_assigned {s s' : Session} {p : Program} (h : s.execute p = ⟨s', none⟩)
    {a : Action} (ha : a ∈ p) :
    ∀ x ∈ a.expr.reads, x ∈ s.symbols.names ∨ x ∈ p.targets := by
  induction p generalizing s with
  | nil => simp at ha
  | cons b p ih =>
    simp only [execute] at h
    split at h
    next s₁ hb =>
      obtain ⟨reads, adds⟩ := act_names hb
      intro x hx
      rcases List.mem_cons.mp ha with rfl | ha
      · exact .inl (reads x hx)
      · rcases ih h ha x hx with hn | ht
        · rcases adds x hn with hn | ht
          · exact .inl hn
          · exact .inr (List.mem_filterMap.mpr ⟨b, by simp, ht⟩)
        · obtain ⟨c, hc, ht⟩ := List.mem_filterMap.mp ht
          exact .inr (List.mem_filterMap.mpr ⟨c, by simp [hc], ht⟩)
    next => simp at h

/-- What holds of all targets of a program that completes holds of all its names. -/
theorem names_of_completed {Name : String → Prop} {s : Session} {p : Program}
    (h : Session.empty.execute p = ⟨s, none⟩) (targets : ∀ x ∈ p.targets, Name x) :
    p.Names Name := by
  intro a ha
  refine ⟨fun x hx => ?_, fun x hx => targets x (List.mem_filterMap.mpr ⟨a, ha, hx⟩)⟩
  rcases Session.reads_assigned h ha x hx with hn | ht
  · simp [Session.empty, Table.names] at hn
  · exact targets x ht

end PolishCalc
