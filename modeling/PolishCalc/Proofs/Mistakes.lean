import PolishCalc.Proofs.Reached
import PolishCalc.Proofs.TokenWalk

namespace PolishCalc

/-- The tokens that expressions are made of. -/
inductive ExprToken : String → Prop
  | numeral {t : String} {ds : List Char} {n : Int} (form : Numeral t ds n)
      (short : ds.length ≤ digitLimit) : ExprToken t
  | identifier {t : String} (form : Identifier t) : ExprToken t
  | unary (op : UnaryOp) : ExprToken op.symbol
  | binary (op : BinaryOp) : ExprToken op.symbol

/-- Tokens that would be in no expression even if numerals could have any length. -/
structure Foreign (t : String) : Prop where
  noNumeral : NoNumeral t
  noIdentifier : ¬ Identifier t
  noUnary : ∀ op : UnaryOp, t ≠ op.symbol
  noBinary : ∀ op : BinaryOp, t ≠ op.symbol

/-- Tokens of expressions, of which the first ones do not make up an expression yet. -/
structure Unfinished (ts : List String) : Prop where
  tokens : ∀ t ∈ ts, ExprToken t
  incomplete : ∀ us e, us <+: ts → ¬ DerivesExpr us e

theorem classify_eq_other_iff {t : String} : classify t = .other ↔ Foreign t := by
  constructor
  · intro h
    refine ⟨fun ds n form => ?_, fun form => ?_, ?_, ?_⟩
    · simp [classify_of_numeral (isNumeral_iff.mpr ⟨ds, n, form⟩)] at h
    · simp [form.classify_eq] at h
    · rintro op rfl
      simp [op.classify_symbol] at h
    · rintro op rfl
      simp [op.classify_symbol] at h
  · intro foreign
    rcases classify_cases t with ⟨_, hn⟩ | ⟨_, form⟩ | ⟨op, _, rfl⟩ | ⟨op, _, rfl⟩ | hc
    · obtain ⟨ds, n, form⟩ := isNumeral_iff.mp hn
      exact absurd form (foreign.noNumeral ds n)
    · exact absurd form foreign.noIdentifier
    · exact absurd rfl (foreign.noUnary op)
    · exact absurd rfl (foreign.noBinary op)
    · exact hc

theorem DerivesExpr.exprToken {ts : List String} {e : Expr} (h : DerivesExpr ts e) :
    ∀ t ∈ ts, ExprToken t := by
  induction h with
  | numeral form short => exact List.forall_mem_singleton.mpr (.numeral form short)
  | identifier form => exact List.forall_mem_singleton.mpr (.identifier form)
  | unary op _ ih => exact List.forall_mem_cons.mpr ⟨.unary op, ih⟩
  | binary op _ _ ihl ihr =>
    exact List.forall_mem_cons.mpr ⟨.binary op, List.forall_mem_append.mpr ⟨ihl, ihr⟩⟩

theorem Refused.not_noExpression {t : String} (h : Refused t (.fault .noExpression)) : False := by
  cases h

theorem Refused.not_exprToken {t : String} {f : Failure} (refused : Refused t f) :
    ¬ ExprToken t := by
  -- Alone, a token of an expression is one or lacks an operand; a refused token is neither.
  intro token
  have alone := refused.expression_eq []
  have ended : f = .fault .noExpression := by
    cases token with
    | numeral form short =>
      have whole := (DerivesExpr.numeral form short).expression_eq []
      rw [List.singleton_append, alone] at whole
      cases whole
    | identifier form =>
      have whole := (DerivesExpr.identifier form).expression_eq []
      rw [List.singleton_append, alone] at whole
      cases whole
    | unary op =>
      simp only [expression_cons, op.classify_symbol, expression_nil, Prod.mk.injEq,
        Except.error.injEq] at alone
      exact alone.1.symm
    | binary op =>
      simp only [expression_cons, op.classify_symbol, expression_nil, Prod.mk.injEq,
        Except.error.injEq] at alone
      exact alone.1.symm
  rw [ended] at refused
  exact refused.not_noExpression

theorem ReachesOperand.mem {ts : List String} {t : String} (reached : ReachesOperand ts t) :
    t ∈ ts := by
  induction reached with
  | here => simp
  | unary _ _ ih => exact List.mem_cons_of_mem _ ih
  | left _ _ ih => exact List.mem_cons_of_mem _ ih
  | right _ _ _ ih => exact List.mem_cons_of_mem _ (List.mem_append_right _ ih)

/-- Tokens that run out in an expression: all are in order, and any token could follow them. -/
theorem exprToken_of_ended {ts rest : List String}
    (h : expression ts = (.error (.fault .noExpression), rest)) :
    (∀ t ∈ ts, ExprToken t) ∧ ∀ t us, ReachesOperand (ts ++ t :: us) t := by
  induction hn : ts.length using Nat.strongRecOn generalizing ts rest with
  | ind n ih =>
    cases ts with
    | nil => exact ⟨by simp, fun t us => .here⟩
    | cons u ts =>
      have hlen : ts.length < n := by simp only [List.length_cons] at hn; omega
      rcases expression_error_cases h with
        refused | ⟨op, rfl, hf⟩ | ⟨op, rfl, hf⟩ | ⟨op, l, mid, rfl, hl, hf⟩
      · exact refused.not_noExpression.elim
      · obtain ⟨tokens, follow⟩ := ih _ hlen hf rfl
        exact ⟨List.forall_mem_cons.mpr ⟨.unary op, tokens⟩, fun t us => .unary op (follow t us)⟩
      · obtain ⟨tokens, follow⟩ := ih _ hlen hf rfl
        exact ⟨List.forall_mem_cons.mpr ⟨.binary op, tokens⟩, fun t us => .left op (follow t us)⟩
      · obtain ⟨used, rfl, left⟩ := derivesExpr_of_expression hl
        have hmid : mid.length < n := by simp only [List.length_append] at hlen; omega
        obtain ⟨tokens, follow⟩ := ih _ hmid hf rfl
        refine ⟨List.forall_mem_cons.mpr ⟨.binary op, ?_⟩, fun t us => ?_⟩
        · exact List.forall_mem_append.mpr ⟨left.exprToken, tokens⟩
        · rw [List.cons_append, List.append_assoc]
          exact .right op left (follow t us)

/-- Reading an expression runs out of tokens if and only if they are unfinished. -/
theorem expression_ended_iff {ts : List String} :
    (∃ rest, expression ts = (.error (.fault .noExpression), rest)) ↔ Unfinished ts := by
  constructor
  · rintro ⟨rest, ended⟩
    refine ⟨(exprToken_of_ended ended).1, ?_⟩
    rintro us e ⟨others, rfl⟩ whole
    rw [whole.expression_eq others] at ended
    cases ended
  · intro unfinished
    cases h : expression ts with
    | mk result rest =>
      cases result with
      | ok e =>
        obtain ⟨used, rfl, whole⟩ := derivesExpr_of_expression h
        exact absurd whole (unfinished.incomplete used e (List.prefix_append used rest))
      | error f =>
        rcases reachesOperand_of_expression h with rfl | ⟨t, reached, refused⟩
        · exact ⟨rest, rfl⟩
        · exact absurd (unfinished.tokens t reached.mem) refused.not_exprToken

theorem ReachesOperand.split {ts : List String} {t : String} (reached : ReachesOperand ts t) :
    ∃ before after, ts = before ++ t :: after ∧ Unfinished before := by
  simp only [← expression_ended_iff]
  induction reached with
  | @here t ts => exact ⟨[], ts, rfl, [], expression_nil⟩
  | unary op _ ih =>
    obtain ⟨before, after, rfl, rest, ended⟩ := ih
    exact ⟨op.symbol :: before, after, rfl, rest,
      by simp [expression_cons, op.classify_symbol, ended]⟩
  | left op _ ih =>
    obtain ⟨before, after, rfl, rest, ended⟩ := ih
    exact ⟨op.symbol :: before, after, rfl, rest,
      by simp [expression_cons, op.classify_symbol, ended]⟩
  | @right op ts us l t left _ ih =>
    obtain ⟨before, after, rfl, rest, ended⟩ := ih
    exact ⟨op.symbol :: (ts ++ before), after, by simp, rest,
      by simp [expression_cons, op.classify_symbol, left.expression_eq, ended]⟩

theorem Unfinished.reachesOperand {before : List String} (unfinished : Unfinished before)
    (t : String) (after : List String) : ReachesOperand (before ++ t :: after) t := by
  obtain ⟨rest, ended⟩ := expression_ended_iff.mpr unfinished
  exact (exprToken_of_ended ended).2 t after

/-- What a failure tells the user: a complaint, or that the digit limit was met. -/
def Failure.told : Failure → Except DigitLimit Complaint
  | .fault f => .ok f.complaint
  | .limit l => .error l

/-- What is wrong with tokens that do not start with an expression. -/
inductive Misread : List String → Except DigitLimit Complaint → Prop
  | long {before after : List String} {t : String} {ds : List Char} {n : Int}
      (unfinished : Unfinished before) (form : Numeral t ds n) (long : digitLimit < ds.length) :
      Misread (before ++ t :: after) (.error (.reading ds.length))
  | foreign {before after : List String} {t : String} (unfinished : Unfinished before)
      (foreign : Foreign t) :
      Misread (before ++ t :: after)
        (.ok ⟨.illegalValue, some (.text t), some "Expected an expression"⟩)
  | ended {ts : List String} (unfinished : Unfinished ts) :
      Misread ts (.ok ⟨.illegalValue, none, some "Expected an expression but the program ended"⟩)

/-- What is wrong with tokens that do not start with an action. -/
inductive Mistake : List String → Except DigitLimit Complaint → Prop
  | noSign {t : String} {ts : List String} (noAssignment : t ≠ ":=") (noPrint : t ≠ "#") :
      Mistake (t :: ts) (.ok ⟨.illegalValue, some (.text t), some "Expected an action"⟩)
  | signOnly {t : String} (sign : t = ":=" ∨ t = "#") :
      Mistake [t] (.ok ⟨.prematureEnd, some (.text t), some "Nothing follows"⟩)
  | assigned {x : String} {ts : List String} {v : Except DigitLimit Complaint}
      (value : Misread ts v) : Mistake (":=" :: x :: ts) v
  | printed {t : String} {ts : List String} {v : Except DigitLimit Complaint}
      (value : Misread (t :: ts) v) : Mistake ("#" :: t :: ts) v
  | target {x : String} {ds : List Char} {n : Int} {us rest : List String} {e : Expr}
      (form : Numeral x ds n) (value : DerivesExpr us e) :
      Mistake (":=" :: x :: (us ++ rest))
        (.ok ⟨.illegalValue, some (.text x), some "Cannot assign to a numeral"⟩)

theorem misread_iff {ts : List String} {v : Except DigitLimit Complaint} :
    Misread ts v ↔ ∃ f rest, expression ts = (.error f, rest) ∧ f.told = v := by
  constructor
  · intro misread
    cases misread with
    | @long before after t ds n unfinished form long =>
      have reached := unfinished.reachesOperand t after
      obtain ⟨rest, failed⟩ := reached.expression_eq (.long form long)
      exact ⟨_, rest, failed, rfl⟩
    | @foreign before after t unfinished foreign =>
      have reached := unfinished.reachesOperand t after
      obtain ⟨rest, failed⟩ := reached.expression_eq (.unknown (classify_eq_other_iff.mpr foreign))
      exact ⟨_, rest, failed, rfl⟩
    | ended unfinished =>
      obtain ⟨rest, ended⟩ := expression_ended_iff.mpr unfinished
      exact ⟨_, rest, ended, rfl⟩
  · rintro ⟨f, rest, failed, rfl⟩
    rcases reachesOperand_of_expression failed with rfl | ⟨t, reached, refused⟩
    · exact .ended (expression_ended_iff.mp ⟨rest, failed⟩)
    · obtain ⟨before, after, rfl, unfinished⟩ := reached.split
      cases refused with
      | long form long => exact .long unfinished form long
      | unknown unknown => exact .foreign unfinished (classify_eq_other_iff.mp unknown)

theorem assignment_eq_error_iff {x : String} {e : Expr} {f : Failure} :
    assignment x e = .error f ↔ isNumeral x = true ∧ f = .fault (.numeralTarget x) := by
  unfold assignment
  cases isNumeral x <;> simp [eq_comm]

theorem action_of_mistake {ts : List String} {v : Except DigitLimit Complaint}
    (mistake : Mistake ts v) : ∃ f rest, action ts = (.error f, rest) ∧ f.told = v := by
  cases mistake with
  | @noSign t ts noAssignment noPrint =>
    exact ⟨.fault (.notAnAction t), ts, by simp [action, noAssignment, noPrint], rfl⟩
  | @signOnly t sign =>
    refine ⟨.fault (.nothingFollows t), [], ?_, rfl⟩
    rcases sign with rfl | rfl <;> simp [action]
  | @assigned x ts v value =>
    obtain ⟨f, rest, failed, rfl⟩ := misread_iff.mp value
    exact ⟨f, rest, by simp [action, readThen, failed], rfl⟩
  | @printed t ts v value =>
    obtain ⟨f, rest, failed, rfl⟩ := misread_iff.mp value
    exact ⟨f, rest, by simp [action, readThen, failed], rfl⟩
  | @target x ds n us rest e form value =>
    have numeral := isNumeral_iff.mpr ⟨ds, n, form⟩
    refine ⟨.fault (.numeralTarget x), rest, ?_, rfl⟩
    simp [action, readThen, value.expression_eq rest, assignment, numeral]

theorem mistake_of_action {t : String} {ts rest : List String} {f : Failure}
    (h : action (t :: ts) = (.error f, rest)) : Mistake (t :: ts) f.told := by
  simp only [action] at h
  split at h
  next assign =>
    subst assign
    cases ts with
    | nil =>
      cases h
      exact .signOnly (.inl rfl)
    | cons x ts =>
      rcases readThen_eq_error h with failed | ⟨e, read, refused⟩
      · exact .assigned (misread_iff.mpr ⟨f, rest, failed, rfl⟩)
      · obtain ⟨numeral, rfl⟩ := assignment_eq_error_iff.mp refused
        obtain ⟨ds, n, form⟩ := isNumeral_iff.mp numeral
        obtain ⟨used, rfl, value⟩ := derivesExpr_of_expression read
        exact .target form value
  next noAssignment =>
    split at h
    next print =>
      subst print
      cases ts with
      | nil =>
        cases h
        exact .signOnly (.inr rfl)
      | cons u ts =>
        rcases readThen_eq_error h with failed | ⟨e, _, refused⟩
        · exact .printed (misread_iff.mpr ⟨f, rest, failed, rfl⟩)
        · cases refused
    next noPrint =>
      cases h
      exact .noSign noAssignment noPrint

theorem Mistake.value_of_prematureEnd {ts : List String} {c : Complaint}
    (mistake : Mistake ts (.ok c)) (kind : c.kind = .prematureEnd) : c.value ≠ none := by
  have value : ∀ us, Misread us (.ok c) → c.kind = .illegalValue := by
    intro us misread
    cases misread <;> rfl
  cases mistake with
  | noSign => cases kind
  | signOnly => simp
  | assigned misread => simp [value _ misread] at kind
  | printed misread => simp [value _ misread] at kind
  | target => cases kind

/-- The first tokens that make up a program, as many as can be, and the tokens behind them. -/
structure LongestProgram (ts vs rest : List String) : Prop where
  split : ts = vs ++ rest
  program : ∃ p, DerivesProgram NoNumeral vs p
  longest : ∀ us p, us <+: ts → DerivesProgram NoNumeral us p → us.length ≤ vs.length

theorem exists_longestProgram (ts : List String) : ∃ vs rest, LongestProgram ts vs rest := by
  -- From one program at the front to a longer one, as long as there is a longer one.
  have extend : ∀ n vs, ts.length - vs.length = n → vs <+: ts →
      (∃ p, DerivesProgram NoNumeral vs p) → ∃ vs rest, LongestProgram ts vs rest := by
    intro n
    induction n using Nat.strongRecOn with
    | ind n ih =>
      rintro vs hn ⟨rest, split⟩ program
      by_cases longer : ∃ us p, us <+: ts ∧ DerivesProgram NoNumeral us p ∧ vs.length < us.length
      · obtain ⟨us, p, front, derived, longer⟩ := longer
        have bound := front.length_le
        exact ih (ts.length - us.length) (by omega) us rfl front ⟨p, derived⟩
      · refine ⟨vs, rest, split.symm, program, fun us p front derived => ?_⟩
        exact Nat.le_of_not_lt fun more => longer ⟨us, p, front, derived, more⟩
  exact extend _ [] rfl List.nil_prefix ⟨[], .nil⟩

/-- Behind the longest program no action can be read. -/
theorem LongestProgram.action_fails {ts vs rest : List String} (h : LongestProgram ts vs rest)
    {a : Action} {after : List String} (read : action rest = (.ok a, after)) : False := by
  obtain ⟨used, rfl, nonempty, first⟩ := derivesAction_of_action read
  obtain ⟨p, derived⟩ := h.program
  have alone : parse used = .ok [a] := by
    rw [parse_eq_ok_iff, ← List.append_nil used]
    exact .cons first .nil
  have longer : parse (vs ++ used) = .ok (p ++ [a]) := by
    rw [parse_append (parse_eq_ok_iff.mpr derived), alone]
    rfl
  have front : vs ++ used <+: ts := by
    rw [h.split, ← List.append_assoc]
    exact List.prefix_append _ after
  have bound := h.longest _ _ front (parse_eq_ok_iff.mp longer)
  have positive := List.length_pos_iff.mpr nonempty
  simp only [List.length_append] at bound
  omega

/-- What the parser says about tokens that are no program is what is wrong behind the longest
program at their front. -/
theorem LongestProgram.parse_eq {ts vs rest : List String} (h : LongestProgram ts vs rest)
    (nonempty : rest ≠ []) :
    ∃ f, parse ts = .error f ∧ ∀ v, Mistake rest v ↔ f.told = v := by
  obtain ⟨t, us, rfl⟩ := List.exists_cons_of_ne_nil nonempty
  cases read : action (t :: us) with
  | mk result after =>
    cases result with
    | ok a => exact (h.action_fails read).elim
    | error f =>
      obtain ⟨p, derived⟩ := h.program
      have failed : parse (t :: us) = .error f := by
        rw [parse, actions_cons, read]
      refine ⟨f, ?_, fun v => ⟨fun mistake => ?_, ?_⟩⟩
      · rw [h.split, parse_append (parse_eq_ok_iff.mpr derived), failed]
        rfl
      · obtain ⟨g, after', read', told⟩ := action_of_mistake mistake
        rw [read] at read'
        cases read'
        exact told
      · rintro rfl
        exact mistake_of_action read

theorem LongestProgram.rest_ne_nil_iff {ts vs rest : List String} (h : LongestProgram ts vs rest) :
    rest ≠ [] ↔ ∀ p, ¬ DerivesProgram NoNumeral ts p := by
  constructor
  · intro nonempty p derived
    have bound := h.longest ts p (List.prefix_refl ts) derived
    have positive := List.length_pos_iff.mpr nonempty
    rw [h.split, List.length_append] at bound
    omega
  · rintro noProgram rfl
    obtain ⟨p, derived⟩ := h.program
    rw [h.split, List.append_nil] at noProgram
    exact noProgram p derived

/-- A program with a mistake behind it is the longest one. -/
theorem Mistake.longestProgram {vs rest : List String} {p : Program}
    {v : Except DigitLimit Complaint} (mistake : Mistake rest v)
    (derived : DerivesProgram NoNumeral vs p) : LongestProgram (vs ++ rest) vs rest := by
  refine ⟨rfl, ⟨p, derived⟩, fun us q front derived' => Nat.le_of_not_lt fun longer => ?_⟩
  -- What the longer program has behind the first one would start with an action.
  obtain ⟨ws, rfl⟩ :=
    List.prefix_of_prefix_length_le (List.prefix_append vs rest) front (Nat.le_of_lt longer)
  have others := parse_append (parse_eq_ok_iff.mpr derived) ws
  rw [parse_eq_ok_iff.mpr derived'] at others
  cases parsed : parse ws with
  | error f =>
    rw [parsed] at others
    cases others
  | ok r =>
    cases parse_eq_ok_iff.mp parsed with
    | nil => simp at longer
    | @cons ts us a r first _ =>
      obtain ⟨after, rfl⟩ := (List.prefix_append_right_inj vs).mp front
      obtain ⟨f, rest', failed, _⟩ := action_of_mistake mistake
      rw [List.append_assoc, first.action_eq] at failed
      cases failed

/-- What the parser tells about tokens that are no program. Of the tokens behind the longest program
at their front, it tells what is wrong with them and nothing else; so it never complains of an end
without the token it stands behind, and read token by token it never asks for one too many. -/
theorem parse_tells_mistake_behind_longest_program :
    (∀ ts, (∀ p, ¬ DerivesProgram NoNumeral ts p) →
      (∃ vs rest, LongestProgram ts vs rest) ∧
      ∀ vs rest, LongestProgram ts vs rest →
        rest ≠ [] ∧ ∃ f, parse ts = .error f ∧ ∀ v, Mistake rest v ↔ f.told = v) ∧
    (∀ ts f, parse ts = .error (.fault f) → f.complaint.kind = .prematureEnd →
      f.complaint.value ≠ none) ∧
    ∀ ts depth, ts.length < depth →
      Walk.program depth (Cursor.start ts) =
        ((parse ts).mapError .failure, (Cursor.start ts).parse.2) := by
  refine ⟨fun ts noProgram => ⟨exists_longestProgram ts, fun vs rest longest => ?_⟩, ?_, ?_⟩
  · have nonempty := longest.rest_ne_nil_iff.mpr noProgram
    exact ⟨nonempty, longest.parse_eq nonempty⟩
  · intro ts f failed kind
    obtain ⟨vs, rest, longest⟩ := exists_longestProgram ts
    have noProgram : ∀ p, ¬ DerivesProgram NoNumeral ts p := by
      intro p derived
      rw [parse_eq_ok_iff.mpr derived] at failed
      cases failed
    obtain ⟨g, failed', told⟩ := longest.parse_eq (longest.rest_ne_nil_iff.mpr noProgram)
    rw [failed] at failed'
    cases failed'
    exact ((told _).mpr rfl).value_of_prematureEnd kind
  · exact fun ts depth deep => Walk.program_start deep

/-- A foreign token in an expression, ahead of the numeral it would be assigned to and of a sign
with nothing behind it. -/
theorem foreign_token_told_first :
    let vs := [":=", "x", "1"]
    let rest := [":=", "5", "+", "2", ")", "#"]
    let foreign : Complaint := ⟨.illegalValue, some (.text ")"), some "Expected an expression"⟩
    LongestProgram (vs ++ rest) vs rest ∧ (∀ p, ¬ DerivesProgram NoNumeral (vs ++ rest) p) ∧
      Mistake rest (.ok foreign) ∧
      (∃ f, parse (vs ++ rest) = .error f ∧ f.told = .ok foreign ∧
        (Walk.program 10 (Cursor.start (vs ++ rest))).1 = .error (.failure f)) ∧
      parse ["#"] = .error (.fault (.nothingFollows "#")) ∧
      (Fault.nothingFollows "#").complaint.value ≠ none := by
  intro vs rest foreign
  have one : DerivesExpr ["1"] (.constant 1) := .numeral (decimal_numeral 1) (by decide)
  have two : DerivesExpr ["2"] (.constant 2) := .numeral (decimal_numeral 2) (by decide)
  have assignment : DerivesAction NoNumeral vs (.assign "x" (.constant 1)) :=
    .assign (isNumeral_eq_false_iff.mp (by decide)) one
  have derived : DerivesProgram NoNumeral vs [.assign "x" (.constant 1)] := .cons assignment .nil
  have unfinished : Unfinished ["+", "2"] := by
    refine expression_ended_iff.mp ⟨[], ?_⟩
    have sum : classify "+" = .binary .add := BinaryOp.add.classify_symbol
    have operand := two.expression_eq []
    rw [List.append_nil] at operand
    simp [expression_cons "+", sum, operand, expression_nil]
  have mistake : Mistake rest (.ok foreign) :=
    .assigned (.foreign unfinished (classify_eq_other_iff.mp (by decide)))
  have longest := mistake.longestProgram derived
  have noProgram := longest.rest_ne_nil_iff.mp (by simp [rest])
  obtain ⟨classified, premature, walked⟩ := parse_tells_mistake_behind_longest_program
  obtain ⟨_, f, failed, told⟩ := (classified _ noProgram).2 vs rest longest
  have walk := walked (vs ++ rest) 10 (by decide)
  rw [failed] at walk
  have ended : parse ["#"] = .error (.fault (.nothingFollows "#")) := by
    simp [parse, actions_cons, action]
  exact ⟨longest, noProgram, mistake, ⟨f, failed, (told _).mp mistake, congrArg Prod.fst walk⟩,
    ended, premature ["#"] _ ended rfl⟩

end PolishCalc
