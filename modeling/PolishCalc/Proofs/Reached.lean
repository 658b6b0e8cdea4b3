import PolishCalc.Proofs.Grammar

namespace PolishCalc

/-- `ReachesOperand ts t`: read as an expression, the tokens are in order up to `t`, which stands
where an expression has to begin. -/
inductive ReachesOperand : List String → String → Prop
  | here {t : String} {ts : List String} : ReachesOperand (t :: ts) t
  | unary (op : UnaryOp) {ts : List String} {t : String} (operand : ReachesOperand ts t) :
      ReachesOperand (op.symbol :: ts) t
  | left (op : BinaryOp) {ts : List String} {t : String} (operand : ReachesOperand ts t) :
      ReachesOperand (op.symbol :: ts) t
  | right (op : BinaryOp) {ts us : List String} {l : Expr} {t : String} (left : DerivesExpr ts l)
      (operand : ReachesOperand us t) : ReachesOperand (op.symbol :: (ts ++ us)) t

/-- What the parser can take a token for. -/
inductive Place
  | action
  | target
  | operand
  deriving DecidableEq, Repr

/-- `Reaches ts place t`: the parser comes to the token `t` and finds nothing wrong before it. A
target is not looked at before its expression has been read. -/
inductive Reaches : List String → Place → String → Prop
  | action {t : String} {ts : List String} : Reaches (t :: ts) .action t
  | target {x : String} {ts : List String} : Reaches (":=" :: x :: ts) .target x
  | assigned {x t : String} {ts : List String} (operand : ReachesOperand ts t) :
      Reaches (":=" :: x :: ts) .operand t
  | printed {t : String} {ts : List String} (operand : ReachesOperand ts t) :
      Reaches ("#" :: ts) .operand t
  | later {ts us : List String} {a : Action} {place : Place} {t : String}
      (first : DerivesAction NoNumeral ts a) (others : Reaches us place t) :
      Reaches (ts ++ us) place t

/-- Tokens that cannot begin an expression, and the failure that each of them is. -/
inductive Refused : String → Failure → Prop
  | long {t : String} {ds : List Char} {n : Int} (form : Numeral t ds n)
      (long : digitLimit < ds.length) : Refused t (.limit (.reading ds.length))
  | unknown {t : String} (unknown : classify t = .other) :
      Refused t (.fault (.notAnExpression t))

theorem readConstant_eq_error {t : String} {f : Failure} (hn : isNumeral t = true)
    (h : readConstant t = .error f) : Refused t f := by
  obtain ⟨ds, n, form⟩ := isNumeral_iff.mp hn
  unfold readConstant readNumeral at h
  rw [form.digitCount_eq] at h
  by_cases short : ds.length ≤ digitLimit
  · simp [short] at h
  · simp only [short, if_false, Except.error.injEq] at h
    subst h
    exact .long form (by omega)

theorem Refused.expression_eq {t : String} {f : Failure} (h : Refused t f) (ts : List String) :
    expression (t :: ts) = (.error f, ts) := by
  rw [expression_cons]
  cases h with
  | @long ds n form long =>
    have hc := classify_of_numeral (isNumeral_iff.mpr ⟨ds, n, form⟩)
    have hr : readNumeral t = .error (.reading ds.length) := by
      rw [readNumeral, form.digitCount_eq, if_neg (by omega)]
    simp [hc, readConstant, hr]
  | unknown unknown => simp [unknown]

theorem ReachesOperand.expression_eq {ts : List String} {t : String} {f : Failure}
    (reached : ReachesOperand ts t) (refused : Refused t f) :
    ∃ rest, expression ts = (.error f, rest) := by
  induction reached with
  | @here t ts => exact ⟨ts, refused.expression_eq ts⟩
  | unary op _ ih =>
    obtain ⟨rest, h⟩ := ih refused
    exact ⟨rest, by simp [expression_cons, op.classify_symbol, h]⟩
  | left op _ ih =>
    obtain ⟨rest, h⟩ := ih refused
    exact ⟨rest, by simp [expression_cons, op.classify_symbol, h]⟩
  | right op left _ ih =>
    obtain ⟨rest, h⟩ := ih refused
    exact ⟨rest, by simp [expression_cons, op.classify_symbol, left.expression_eq, h]⟩

theorem expression_error_cases {t : String} {ts rest : List String} {f : Failure}
    (h : expression (t :: ts) = (.error f, rest)) :
    Refused t f ∨
      (∃ op : UnaryOp, t = op.symbol ∧ expression ts = (.error f, rest)) ∨
      (∃ op : BinaryOp, t = op.symbol ∧ expression ts = (.error f, rest)) ∨
      (∃ (op : BinaryOp) (l : Expr) (mid : List String), t = op.symbol ∧
        expression ts = (.ok l, mid) ∧ expression mid = (.error f, rest)) := by
  rw [expression_cons] at h
  rcases classify_cases t with ⟨hc, hn⟩ | ⟨hc, hi⟩ | ⟨op, hc, ht⟩ | ⟨op, hc, ht⟩ | hc
  · simp only [hc, Prod.mk.injEq] at h
    exact .inl (readConstant_eq_error hn h.1)
  · simp [hc] at h
  · simp only [hc] at h
    split at h
    next => simp at h
    next f' mid hf =>
      cases h
      exact .inr (.inl ⟨op, ht, hf⟩)
  · simp only [hc] at h
    split at h
    next f' mid hf =>
      cases h
      exact .inr (.inr (.inl ⟨op, ht, hf⟩))
    next l mid hl =>
      split at h
      next => simp at h
      next f' mid' hf =>
        cases h
        exact .inr (.inr (.inr ⟨op, l, mid, ht, hl, hf⟩))
  · simp only [hc, Prod.mk.injEq, Except.error.injEq] at h
    rw [← h.1]
    exact .inl (.unknown hc)

/-- An expression that cannot be read runs out of tokens or comes to one that is refused. -/
theorem reachesOperand_of_expression {ts rest : List String} {f : Failure}
    (h : expression ts = (.error f, rest)) :
    f = .fault .noExpression ∨ ∃ t, ReachesOperand ts t ∧ Refused t f := by
  -- By the number of tokens: a right operand starts where the left one ends, not at the next token.
  induction hn : ts.length using Nat.strongRecOn generalizing ts f rest with
  | ind n ih =>
    cases ts with
    | nil =>
      rw [expression_nil] at h
      cases h
      exact .inl rfl
    | cons t ts =>
      have hlen : ts.length < n := by simp only [List.length_cons] at hn; omega
      rcases expression_error_cases h with
        refused | ⟨op, rfl, hf⟩ | ⟨op, rfl, hf⟩ | ⟨op, l, mid, rfl, hl, hf⟩
      · exact .inr ⟨t, .here, refused⟩
      · rcases ih _ hlen hf rfl with ended | ⟨u, reached, refused⟩
        · exact .inl ended
        · exact .inr ⟨u, .unary op reached, refused⟩
      · rcases ih _ hlen hf rfl with ended | ⟨u, reached, refused⟩
        · exact .inl ended
        · exact .inr ⟨u, .left op reached, refused⟩
      · obtain ⟨used, rfl, left⟩ := derivesExpr_of_expression hl
        have hmid : mid.length < n := by simp only [List.length_append] at hlen; omega
        rcases ih _ hmid hf rfl with ended | ⟨u, reached, refused⟩
        · exact .inl ended
        · exact .inr ⟨u, .right op left reached, refused⟩

theorem readThen_eq_error {make : Expr → Except Failure Action} {ts rest : List String}
    {f : Failure} (h : readThen make ts = (.error f, rest)) :
    expression ts = (.error f, rest) ∨ ∃ e, expression ts = (.ok e, rest) ∧ make e = .error f := by
  unfold readThen at h
  split at h
  next f mid hf =>
    cases h
    exact .inl hf
  next e mid he =>
    obtain ⟨hm, rfl⟩ := Prod.mk.inj h
    exact .inr ⟨e, he, hm⟩

theorem readThen_eq_limit {make : Expr → Except Failure Action} {ts rest : List String}
    {l : DigitLimit} (h : readThen make ts = (.error (.limit l), rest)) :
    (∃ t, ReachesOperand ts t ∧ Refused t (.limit l)) ∨
      ∃ e, make e = .error (.limit l) := by
  rcases readThen_eq_error h with failed | ⟨e, _, refused⟩
  · rcases reachesOperand_of_expression failed with ended | reached
    · simp at ended
    · exact .inl reached
  · exact .inr ⟨e, refused⟩

theorem reaches_of_action {ts rest : List String} {l : DigitLimit}
    (h : action ts = (.error (.limit l), rest)) :
    ∃ t, Reaches ts .operand t ∧ Refused t (.limit l) := by
  unfold action at h
  split at h
  next => simp at h
  next t ts =>
    split at h
    next ht =>
      subst ht
      split at h
      next => simp at h
      next x ts =>
        rcases readThen_eq_limit h with ⟨u, reached, refused⟩ | ⟨e, he⟩
        · exact ⟨u, .assigned reached, refused⟩
        · simp only [assignment] at he
          split at he <;> simp at he
    next =>
      split at h
      next ht =>
        subst ht
        split at h
        next => simp at h
        next =>
          rcases readThen_eq_limit h with ⟨u, reached, refused⟩ | ⟨e, he⟩
          · exact ⟨u, .printed reached, refused⟩
          · simp at he
      next => simp at h

theorem reaches_of_actions {ts rest : List String} {l : DigitLimit}
    (h : actions ts = (.error (.limit l), rest)) :
    ∃ t, Reaches ts .operand t ∧ Refused t (.limit l) := by
  induction hn : ts.length using Nat.strongRecOn generalizing ts rest with
  | ind n ih =>
    cases ts with
    | nil => simp [actions_nil] at h
    | cons t ts =>
      rw [actions_cons] at h
      split at h
      next f mid hf =>
        cases h
        exact reaches_of_action hf
      next a mid ha =>
        split at h
        next => simp at h
        next f mid' hf =>
          cases h
          obtain ⟨used, hts, hne, first⟩ := derivesAction_of_action ha
          have hlen := congrArg List.length hts
          have hpos := List.length_pos_iff.mpr hne
          simp only [List.length_append, List.length_cons] at hlen hn
          obtain ⟨u, reached, refused⟩ := ih mid.length (by omega) hf rfl
          exact ⟨u, by rw [hts]; exact .later first reached, refused⟩

theorem action_of_reachesOperand {ts : List String} {t : String} {f : Failure}
    (reached : ReachesOperand ts t) (refused : Refused t f) (x : String) :
    (∃ rest, action (":=" :: x :: ts) = (.error f, rest)) ∧
      ∃ rest, action ("#" :: ts) = (.error f, rest) := by
  obtain ⟨rest, h⟩ := reached.expression_eq refused
  refine ⟨⟨rest, by simp [action, readThen, h]⟩, ⟨rest, ?_⟩⟩
  cases ts with
  | nil => cases reached
  | cons u ts => simp [action, readThen, h]

theorem Reaches.actions_eq {ts : List String} {place : Place} {t : String} {f : Failure}
    (reached : Reaches ts place t) (operand : place = .operand) (refused : Refused t f) :
    ∃ rest, actions ts = (.error f, rest) := by
  induction reached with
  | action => cases operand
  | target => cases operand
  | @assigned x t ts value =>
    obtain ⟨⟨rest, h⟩, _⟩ := action_of_reachesOperand value refused x
    exact ⟨rest, by simp [actions_cons, h]⟩
  | @printed t ts value =>
    obtain ⟨_, rest, h⟩ := action_of_reachesOperand value refused ""
    exact ⟨rest, by simp [actions_cons, h]⟩
  | @later ts us a place t first _ ih =>
    obtain ⟨rest, h⟩ := ih operand refused
    obtain ⟨u, ts', rfl⟩ := List.exists_cons_of_ne_nil first.ne_nil
    have ha := first.action_eq us
    rw [List.cons_append] at ha ⊢
    exact ⟨rest, by simp [actions_cons, ha, h]⟩

/-- The parser gives up for the digit limit if and only if it comes to a numeral with too many
digits in the place of an expression. -/
theorem parse_eq_limit_iff {ts : List String} {l : DigitLimit} :
    parse ts = .error (.limit l) ↔
      ∃ t ds n, Reaches ts .operand t ∧ Numeral t ds n ∧ digitLimit < ds.length ∧
        l = .reading ds.length := by
  constructor
  · intro h
    obtain ⟨t, reached, refused⟩ := reaches_of_actions (Prod.ext h rfl)
    cases refused with
    | @long ds n form long => exact ⟨t, ds, n, reached, form, long, rfl⟩
  · rintro ⟨t, ds, n, reached, form, long, rfl⟩
    obtain ⟨rest, h⟩ := reached.actions_eq rfl (.long form long)
    rw [parse, h]

end PolishCalc
