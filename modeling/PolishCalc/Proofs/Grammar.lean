import PolishCalc.Proofs.TokenClasses

namespace PolishCalc

/-- The expressions of prefix notation: operators stand in front of their operands, and a numeral
counts only if it is short enough to be read. -/
inductive DerivesExpr : List String → Expr → Prop
  | numeral {t : String} {ds : List Char} {n : Int} (form : Numeral t ds n)
      (short : ds.length ≤ digitLimit) : DerivesExpr [t] (.constant n)
  | identifier {t : String} (form : Identifier t) : DerivesExpr [t] (.variable t)
  | unary (op : UnaryOp) {ts : List String} {e : Expr} (operand : DerivesExpr ts e) :
      DerivesExpr (op.symbol :: ts) (.unary op e)
  | binary (op : BinaryOp) {ts us : List String} {l r : Expr} (left : DerivesExpr ts l)
      (right : DerivesExpr us r) : DerivesExpr (op.symbol :: (ts ++ us)) (.binary op l r)

/-- The actions, if the tokens in a given class can be assigned to. -/
inductive DerivesAction (Target : String → Prop) : List String → Action → Prop
  | assign {x : String} {ts : List String} {e : Expr} (target : Target x)
      (value : DerivesExpr ts e) : DerivesAction Target (":=" :: x :: ts) (.assign x e)
  | print {ts : List String} {e : Expr} (value : DerivesExpr ts e) :
      DerivesAction Target ("#" :: ts) (.print e)

inductive DerivesProgram (Target : String → Prop) : List String → Program → Prop
  | nil : DerivesProgram Target [] []
  | cons {ts us : List String} {a : Action} {p : Program} (first : DerivesAction Target ts a)
      (others : DerivesProgram Target us p) : DerivesProgram Target (ts ++ us) (a :: p)

theorem readConstant_eq_ok {t : String} {e : Expr} (hn : isNumeral t = true)
    (h : readConstant t = .ok e) : DerivesExpr [t] e := by
  obtain ⟨ds, n, form⟩ := isNumeral_iff.mp hn
  unfold readConstant at h
  split at h
  next m hm =>
    obtain ⟨short, rfl⟩ := (readNumeral_eq_ok_iff form).mp hm
    cases h
    exact .numeral form short
  next => simp at h

theorem expression_ok_cases {t : String} {ts rest : List String} {e : Expr}
    (h : expression (t :: ts) = (.ok e, rest)) :
    (rest = ts ∧ DerivesExpr [t] e) ∨
      (∃ (op : UnaryOp) (a : Expr), t = op.symbol ∧ e = .unary op a ∧
        expression ts = (.ok a, rest)) ∨
      (∃ (op : BinaryOp) (l r : Expr) (mid : List String), t = op.symbol ∧ e = .binary op l r ∧
        expression ts = (.ok l, mid) ∧ expression mid = (.ok r, rest)) := by
  rw [expression_cons] at h
  rcases classify_cases t with ⟨hc, hn⟩ | ⟨hc, hi⟩ | ⟨op, hc, ht⟩ | ⟨op, hc, ht⟩ | hc
  · simp only [hc, Prod.mk.injEq] at h
    exact .inl ⟨h.2.symm, readConstant_eq_ok hn h.1⟩
  · simp only [hc, Prod.mk.injEq, Except.ok.injEq] at h
    obtain ⟨rfl, rfl⟩ := h
    exact .inl ⟨rfl, .identifier hi⟩
  · simp only [hc] at h
    split at h
    next a mid ha =>
      cases h
      exact .inr (.inl ⟨op, a, ht, rfl, ha⟩)
    next => simp at h
  · simp only [hc] at h
    split at h
    next => simp at h
    next l mid hl =>
      split at h
      next r mid' hr =>
        cases h
        exact .inr (.inr ⟨op, l, r, mid, ht, rfl, hl, hr⟩)
      next => simp at h
  · simp [hc] at h

/-- What is read as an expression is one, followed by the tokens that are left. -/
theorem derivesExpr_of_expression {ts rest : List String} {e : Expr}
    (h : expression ts = (.ok e, rest)) : ∃ used, ts = used ++ rest ∧ DerivesExpr used e := by
  induction hn : ts.length using Nat.strongRecOn generalizing ts e rest with
  | ind n ih =>
    cases ts with
    | nil => simp [expression_nil] at h
    | cons t ts =>
      have hlen : ts.length < n := by simp only [List.length_cons] at hn; omega
      rcases expression_ok_cases h with
        ⟨rfl, he⟩ | ⟨op, a, rfl, rfl, ha⟩ | ⟨op, l, r, mid, rfl, rfl, hl, hr⟩
      · exact ⟨[t], rfl, he⟩
      · obtain ⟨used, rfl, hu⟩ := ih _ hlen ha rfl
        exact ⟨op.symbol :: used, rfl, .unary op hu⟩
      · -- the right operand starts where the left one ended, further on in the tokens
        have hmid := expression_length_le ts
        rw [hl] at hmid
        obtain ⟨used, rfl, hu⟩ := ih _ hlen hl rfl
        obtain ⟨used', rfl, hu'⟩ := ih mid.length (by simp only at hmid; omega) hr rfl
        exact ⟨op.symbol :: (used ++ used'), by simp, .binary op hu hu'⟩

theorem DerivesExpr.ne_nil {ts : List String} {e : Expr} (h : DerivesExpr ts e) : ts ≠ [] := by
  cases h <;> simp

/-- An expression is read whole, whatever follows it. -/
theorem DerivesExpr.expression_eq {ts : List String} {e : Expr} (h : DerivesExpr ts e)
    (rest : List String) : expression (ts ++ rest) = (.ok e, rest) := by
  induction h generalizing rest with
  | @numeral t ds n form short =>
    have hc := classify_of_numeral (isNumeral_iff.mpr ⟨ds, n, form⟩)
    have hr := (readNumeral_eq_ok_iff form).mpr ⟨short, rfl⟩
    simp [expression_cons, hc, readConstant, hr]
  | identifier form => simp [expression_cons, form.classify_eq]
  | unary op _ ih => simp [expression_cons, op.classify_symbol, ih]
  | binary op _ _ ihl ihr => simp [expression_cons, op.classify_symbol, ihl, ihr]

theorem readThen_eq_ok {make : Expr → Except Failure Action} {ts rest : List String} {a : Action}
    (h : readThen make ts = (.ok a, rest)) :
    ∃ e, expression ts = (.ok e, rest) ∧ make e = .ok a := by
  unfold readThen at h
  split at h
  next => simp at h
  next e mid he =>
    obtain ⟨hm, rfl⟩ := Prod.mk.inj h
    exact ⟨e, he, hm⟩

theorem assignment_eq_ok_iff {x : String} {e : Expr} {a : Action} :
    assignment x e = .ok a ↔ NoNumeral x ∧ a = .assign x e := by
  rw [NoNumeral, ← isNumeral_eq_false_iff]
  unfold assignment
  cases isNumeral x <;> simp [eq_comm]

theorem derivesAction_of_action {ts rest : List String} {a : Action}
    (h : action ts = (.ok a, rest)) :
    ∃ used, ts = used ++ rest ∧ used ≠ [] ∧ DerivesAction NoNumeral used a := by
  unfold action at h
  split at h
  next => simp at h
  next t ts =>
    split at h
    next ht =>
      subst ht
      split at h
      next => simp at h
      next x ts =>
        obtain ⟨e, he, hm⟩ := readThen_eq_ok h
        obtain ⟨target, rfl⟩ := assignment_eq_ok_iff.mp hm
        obtain ⟨used, rfl, hu⟩ := derivesExpr_of_expression he
        exact ⟨":=" :: x :: used, rfl, by simp, .assign target hu⟩
    next =>
      split at h
      next ht =>
        subst ht
        split at h
        next => simp at h
        next =>
          obtain ⟨e, he, hm⟩ := readThen_eq_ok h
          cases hm
          obtain ⟨used, hts, hu⟩ := derivesExpr_of_expression he
          exact ⟨"#" :: used, by simp [hts], by simp, .print hu⟩
      next => simp at h

theorem DerivesAction.action_eq {ts : List String} {a : Action} (h : DerivesAction NoNumeral ts a)
    (rest : List String) : action (ts ++ rest) = (.ok a, rest) := by
  cases h with
  | @assign x ts e target value =>
    simp [action, readThen, value.expression_eq rest, assignment_eq_ok_iff.mpr ⟨target, rfl⟩]
  | @print ts e value =>
    obtain ⟨t, us, rfl⟩ := List.exists_cons_of_ne_nil value.ne_nil
    have he := value.expression_eq rest
    simp only [List.cons_append] at he
    simp [action, readThen, he]

theorem DerivesAction.ne_nil {Target : String → Prop} {ts : List String} {a : Action}
    (h : DerivesAction Target ts a) : ts ≠ [] := by
  cases h <;> simp

theorem derivesProgram_of_actions {ts rest : List String} {p : Program}
    (h : actions ts = (.ok p, rest)) : DerivesProgram NoNumeral ts p := by
  induction hn : ts.length using Nat.strongRecOn generalizing ts p rest with
  | ind n ih =>
    cases ts with
    | nil =>
      rw [actions_nil] at h
      cases h
      exact .nil
    | cons t ts =>
      rw [actions_cons] at h
      split at h
      next => simp at h
      next a mid ha =>
        split at h
        next q end' hq =>
          cases h
          obtain ⟨used, hts, hne, hu⟩ := derivesAction_of_action ha
          have hlen := congrArg List.length hts
          have hpos := List.length_pos_iff.mpr hne
          simp only [List.length_append, List.length_cons] at hlen hn
          rw [hts]
          exact .cons hu (ih mid.length (by omega) hq rfl)
        next => simp at h

/-- A program is read whole, and the tokens behind it are read as if they stood alone. -/
theorem DerivesProgram.actions_append {ts : List String} {p : Program}
    (h : DerivesProgram NoNumeral ts p) (rest : List String) :
    actions (ts ++ rest) = ((actions rest).1.map (p ++ ·), (actions rest).2) := by
  induction h with
  | nil => cases hr : (actions rest).1 <;> simp [Except.map, Prod.ext_iff, hr]
  | @cons ts us a p first _ ih =>
    obtain ⟨t, ts', rfl⟩ := List.exists_cons_of_ne_nil first.ne_nil
    have ha := first.action_eq (us ++ rest)
    rw [List.append_assoc]
    rw [List.cons_append] at ha ⊢
    rw [actions_cons, ha]
    simp only [ih]
    cases (actions rest).1 <;> rfl

theorem DerivesProgram.actions_eq {ts : List String} {p : Program}
    (h : DerivesProgram NoNumeral ts p) : actions ts = (.ok p, []) := by
  have alone := h.actions_append []
  rw [List.append_nil, actions_nil] at alone
  rw [alone]
  simp [Except.map]

/-- The parser accepts the programs of the grammar and gives their trees. -/
theorem parse_eq_ok_iff {ts : List String} {p : Program} :
    parse ts = .ok p ↔ DerivesProgram NoNumeral ts p := by
  constructor
  · intro h
    exact derivesProgram_of_actions (Prod.ext h rfl)
  · intro h
    rw [parse, h.actions_eq]

theorem parse_append {ts : List String} {p : Program} (h : parse ts = .ok p) (us : List String) :
    parse (ts ++ us) = (parse us).map (p ++ ·) := by
  rw [parse, (parse_eq_ok_iff.mp h).actions_append us]
  rfl

end PolishCalc
