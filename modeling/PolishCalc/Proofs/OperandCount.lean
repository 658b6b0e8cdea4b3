import PolishCalc.Proofs.Mistakes

namespace PolishCalc

/-- How many operands a token of an expression asks for, less the one that it stands for itself. -/
inductive TokenWeight : String → Int → Prop
  | numeral {t : String} {ds : List Char} {n : Int} (form : Numeral t ds n)
      (short : ds.length ≤ digitLimit) : TokenWeight t (-1)
  | identifier {t : String} (form : Identifier t) : TokenWeight t (-1)
  | unary (op : UnaryOp) : TokenWeight op.symbol 0
  | binary (op : BinaryOp) : TokenWeight op.symbol 1

/-- The sum of the weights of tokens that all have one. -/
inductive TotalWeight : List String → Int → Prop
  | nil : TotalWeight [] 0
  | cons {t : String} {ts : List String} {v w : Int} (first : TokenWeight t v)
      (others : TotalWeight ts w) : TotalWeight (t :: ts) (v + w)

def TokenClass.weight : TokenClass → Int
  | .numeral => -1
  | .identifier => -1
  | .unary _ => 0
  | .binary _ => 1
  | .other => 0

theorem TokenWeight.eq_weight {t : String} {w : Int} (h : TokenWeight t w) :
    w = (classify t).weight := by
  cases h with
  | numeral form short =>
    rw [classify_of_numeral (isNumeral_iff.mpr ⟨_, _, form⟩)]
    rfl
  | identifier form =>
    rw [form.classify_eq]
    rfl
  | unary op =>
    rw [op.classify_symbol]
    rfl
  | binary op =>
    rw [op.classify_symbol]
    rfl

theorem TotalWeight.unique {ts : List String} {v w : Int} (hv : TotalWeight ts v)
    (hw : TotalWeight ts w) : v = w := by
  induction hv generalizing w with
  | nil =>
    cases hw
    rfl
  | cons first _ ih =>
    cases hw with
    | cons first' others' => rw [first.eq_weight, first'.eq_weight, ih others']

theorem TotalWeight.append {ts us : List String} {v w : Int} (hts : TotalWeight ts v)
    (hus : TotalWeight us w) : TotalWeight (ts ++ us) (v + w) := by
  induction hts with
  | nil => simpa using hus
  | cons first _ ih =>
    rw [Int.add_assoc]
    exact .cons first ih

theorem TotalWeight.tokens {ts : List String} {w : Int} (h : TotalWeight ts w) :
    ∀ t ∈ ts, ExprToken t := by
  induction h with
  | nil => simp
  | cons first _ ih =>
    refine List.forall_mem_cons.mpr ⟨?_, ih⟩
    cases first with
    | numeral form short => exact .numeral form short
    | identifier form => exact .identifier form
    | unary op => exact .unary op
    | binary op => exact .binary op

/-- An expression leaves no operand open and is one itself. -/
theorem DerivesExpr.totalWeight {ts : List String} {e : Expr} (h : DerivesExpr ts e) :
    TotalWeight ts (-1) := by
  induction h with
  | numeral form short => exact .cons (.numeral form short) .nil
  | identifier form => exact .cons (.identifier form) .nil
  | unary op _ ih => exact .cons (.unary op) ih
  | binary op _ _ ihl ihr => exact .cons (.binary op) (ihl.append ihr)

/-- Tokens that run out in an expression are all looked at, and leave an operand open. -/
theorem totalWeight_of_ended {ts rest : List String}
    (h : expression ts = (.error (.fault .noExpression), rest)) :
    rest = [] ∧ ∃ w, 0 ≤ w ∧ TotalWeight ts w := by
  induction hn : ts.length using Nat.strongRecOn generalizing ts rest with
  | ind n ih =>
    cases ts with
    | nil =>
      rw [expression_nil] at h
      cases h
      exact ⟨rfl, 0, Int.le_refl 0, .nil⟩
    | cons u ts =>
      have hlen : ts.length < n := by simp only [List.length_cons] at hn; omega
      rcases expression_error_cases h with
        refused | ⟨op, rfl, hf⟩ | ⟨op, rfl, hf⟩ | ⟨op, l, mid, rfl, hl, hf⟩
      · exact refused.not_noExpression.elim
      · obtain ⟨ended, w, owing, weight⟩ := ih _ hlen hf rfl
        exact ⟨ended, 0 + w, by omega, .cons (.unary op) weight⟩
      · obtain ⟨ended, w, owing, weight⟩ := ih _ hlen hf rfl
        exact ⟨ended, 1 + w, by omega, .cons (.binary op) weight⟩
      · -- The left operand takes back what the operator has added.
        obtain ⟨used, rfl, left⟩ := derivesExpr_of_expression hl
        have hmid : mid.length < n := by simp only [List.length_append] at hlen; omega
        obtain ⟨ended, w, owing, weight⟩ := ih _ hmid hf rfl
        exact ⟨ended, 1 + (-1 + w), by omega, .cons (.binary op) (left.totalWeight.append weight)⟩

theorem Unfinished.of_prefix {us ts : List String} (h : Unfinished ts) (front : us <+: ts) :
    Unfinished us :=
  ⟨fun t ht => h.tokens t (front.subset ht), fun vs e hvs => h.incomplete vs e (hvs.trans front)⟩

theorem Unfinished.exists_totalWeight {us : List String} (h : Unfinished us) :
    ∃ w, 0 ≤ w ∧ TotalWeight us w := by
  obtain ⟨rest, ended⟩ := expression_ended_iff.mpr h
  exact (totalWeight_of_ended ended).2

theorem Unfinished.not_totalWeight {us : List String} (h : Unfinished us) :
    ¬ TotalWeight us (-1) := by
  intro closed
  obtain ⟨w, owing, weight⟩ := h.exists_totalWeight
  have same := closed.unique weight
  omega

theorem DerivesExpr.unfinished_of_prefix {us ts : List String} {e : Expr} (h : DerivesExpr ts e)
    (front : us <+: ts) (proper : us.length < ts.length) : Unfinished us := by
  refine ⟨fun t ht => h.exprToken t (front.subset ht), ?_⟩
  intro vs e' front' whole
  -- Read from the front, the tokens would have to end where `vs` does.
  obtain ⟨rest, rfl⟩ := front'.trans front
  have read := h.expression_eq []
  rw [List.append_nil, whole.expression_eq rest] at read
  cases read
  have shorter := front'.length_le
  simp only [List.append_nil] at proper
  omega

/-- A token that is refused is the last one looked at. -/
theorem ReachesOperand.stops {ts : List String} {t : String} (reached : ReachesOperand ts t) :
    ∃ before after, ts = before ++ t :: after ∧ Unfinished before ∧
      ∀ f, Refused t f → expression ts = (.error f, after) := by
  simp only [← expression_ended_iff]
  induction reached with
  | @here t ts => exact ⟨[], ts, rfl, ⟨[], expression_nil⟩, fun f refused => refused.expression_eq ts⟩
  | unary op _ ih =>
    obtain ⟨before, after, rfl, ⟨rest, ended⟩, stops⟩ := ih
    refine ⟨op.symbol :: before, after, rfl, ⟨rest, ?_⟩, fun f refused => ?_⟩
    · simp [expression_cons, op.classify_symbol, ended]
    · simp [expression_cons, op.classify_symbol, stops f refused]
  | left op _ ih =>
    obtain ⟨before, after, rfl, ⟨rest, ended⟩, stops⟩ := ih
    refine ⟨op.symbol :: before, after, rfl, ⟨rest, ?_⟩, fun f refused => ?_⟩
    · simp [expression_cons, op.classify_symbol, ended]
    · simp [expression_cons, op.classify_symbol, stops f refused]
  | @right op ts us l t left _ ih =>
    obtain ⟨before, after, rfl, ⟨rest, ended⟩, stops⟩ := ih
    refine ⟨op.symbol :: (ts ++ before), after, by simp, ⟨rest, ?_⟩, fun f refused => ?_⟩
    · simp [expression_cons, op.classify_symbol, left.expression_eq, ended]
    · simp [expression_cons, op.classify_symbol, left.expression_eq, stops f refused]

/-- Where reading an expression stops if there is none. -/
theorem expression_stops {ts rest : List String} {f : Failure}
    (h : expression ts = (.error f, rest)) :
    (rest = [] ∧ Unfinished ts) ∨
      ∃ before t, ts = before ++ t :: rest ∧ Unfinished before ∧ Refused t f := by
  rcases reachesOperand_of_expression h with rfl | ⟨t, reached, refused⟩
  · exact .inl ⟨(totalWeight_of_ended h).1, expression_ended_iff.mp ⟨rest, h⟩⟩
  · obtain ⟨before, after, split, unfinished, stops⟩ := reached.stops
    have read := stops f refused
    rw [h] at read
    cases read
    exact .inr ⟨before, t, split, unfinished, refused⟩

/-- The first `k` tokens all have a weight, and weigh what an expression does. -/
structure Closes (ts : List String) (k : Nat) : Prop where
  bound : k ≤ ts.length
  weight : TotalWeight (ts.take k) (-1)

theorem expression_of_closes {ts : List String} {k : Nat} (h : Closes ts k) :
    ∃ e rest, expression ts = (.ok e, rest) := by
  rcases read : expression ts with ⟨f | e, rest⟩
  · -- The first `k` tokens would be unfinished, and weigh more.
    have unfinished : Unfinished (ts.take k) := by
      rcases expression_stops read with ⟨_, unfinished⟩ | ⟨before, t, rfl, unfinished, refused⟩
      · exact unfinished.of_prefix (List.take_prefix k ts)
      · by_cases short : k ≤ before.length
        · rw [List.take_append_of_le_length short]
          exact unfinished.of_prefix (List.take_prefix k before)
        · have reached : t ∈ (before ++ t :: rest).take k := by
            rw [List.take_append, List.take_cons (by omega)]
            simp
          exact absurd (h.weight.tokens t reached) refused.not_exprToken
    exact absurd h.weight unfinished.not_totalWeight
  · exact ⟨e, rest, rfl⟩

theorem DerivesExpr.closes {used : List String} {e : Expr} (h : DerivesExpr used e)
    (rest : List String) :
    Closes (used ++ rest) used.length ∧ ∀ j, Closes (used ++ rest) j → used.length ≤ j := by
  refine ⟨⟨by simp, by simpa using h.totalWeight⟩, fun j closes => ?_⟩
  refine Nat.le_of_not_lt fun shorter => ?_
  have weight := closes.weight
  rw [List.take_append_of_le_length (Nat.le_of_lt shorter)] at weight
  have proper : (used.take j).length < used.length := by
    rw [List.length_take]
    omega
  exact (h.unfinished_of_prefix (List.take_prefix j used) proper).not_totalWeight weight

theorem Cursor.expression_behind (front ts : List String) :
    Cursor.expression ⟨front ++ ts, front.length⟩ =
      ((PolishCalc.expression ts).1,
        ⟨front ++ ts, front.length + (ts.length - (PolishCalc.expression ts).2.length)⟩) := by
  have bound := expression_length_le ts
  simp only [Cursor.expression, Cursor.rest, Cursor.before, List.drop_left, List.length_append,
    Prod.mk.injEq, Cursor.mk.injEq, true_and]
  omega

theorem Refused.foreign_or_long {t : String} {f : Failure} (h : Refused t f) :
    Foreign t ∨ ∃ ds n, Numeral t ds n ∧ digitLimit < ds.length := by
  cases h with
  | long form long => exact .inr ⟨_, _, form, long⟩
  | unknown unknown => exact .inl (classify_eq_other_iff.mp unknown)

/-- Reading an expression from any position is counting operands. There is one if and only if, for
some number of tokens, these all have a weight and together weigh minus one; the least such number of
tokens is read, and what is read depends on them alone. Otherwise the position is behind the first
token that has no weight, or at the end if there is none. -/
theorem expression_counts_operands (front ts : List String) :
    let c : Cursor := ⟨front ++ ts, front.length⟩
    ((∃ e, c.expression.1 = .ok e) ↔ ∃ k, Closes ts k) ∧
    (∀ e, c.expression.1 = .ok e → ∃ k, Closes ts k ∧ (∀ j, Closes ts j → k ≤ j) ∧
      c.expression.2 = ⟨front ++ ts, front.length + k⟩ ∧
      ∀ front' after, Cursor.expression ⟨front' ++ (ts.take k ++ after), front'.length⟩ =
        (.ok e, ⟨front' ++ (ts.take k ++ after), front'.length + k⟩)) ∧
    ∀ f, c.expression.1 = .error f → c.expression.2.tokens = front ++ ts ∧
      ((∃ before t after w, ts = before ++ t :: after ∧ TotalWeight before w ∧
          (Foreign t ∨ ∃ ds n, Numeral t ds n ∧ digitLimit < ds.length) ∧
          c.expression.2.pos = front.length + before.length + 1) ∨
        ∃ w, TotalWeight ts w ∧ c.expression.2.pos = (front ++ ts).length) := by
  intro c
  rcases expr : expression ts with ⟨result, rest⟩
  have read : c.expression =
      (result, ⟨front ++ ts, front.length + (ts.length - rest.length)⟩) := by
    have behind := Cursor.expression_behind front ts
    rw [expr] at behind
    exact behind
  rw [read]
  refine ⟨⟨?_, ?_⟩, ?_, ?_⟩
  · rintro ⟨e, rfl⟩
    obtain ⟨used, rfl, derived⟩ := derivesExpr_of_expression expr
    exact ⟨used.length, (derived.closes rest).1⟩
  · rintro ⟨k, closes⟩
    obtain ⟨e, rest', ok⟩ := expression_of_closes closes
    rw [expr] at ok
    cases ok
    exact ⟨e, rfl⟩
  · rintro e rfl
    obtain ⟨used, rfl, derived⟩ := derivesExpr_of_expression expr
    obtain ⟨closes, least⟩ := derived.closes rest
    have consumed : (used ++ rest).length - rest.length = used.length := by
      rw [List.length_append]
      omega
    refine ⟨used.length, closes, least, by rw [consumed], fun front' after => ?_⟩
    rw [List.take_left, Cursor.expression_behind, derived.expression_eq after]
    simp
  · rintro f rfl
    refine ⟨rfl, ?_⟩
    rcases expression_stops expr with
      ⟨rfl, unfinished⟩ | ⟨before, t, rfl, unfinished, refused⟩
    · obtain ⟨w, _, weight⟩ := unfinished.exists_totalWeight
      exact .inr ⟨w, weight, by simp⟩
    · obtain ⟨w, _, weight⟩ := unfinished.exists_totalWeight
      refine .inl ⟨before, t, rest, w, rfl, weight, refused.foreign_or_long, ?_⟩
      simp only [List.length_append, List.length_cons]
      omega

/-- An expression with more tokens behind it, read from behind a sign, and a bracket that stands in
the place of an operand. -/
theorem closed_expression_read_in_full :
    let ts := ["-", "*", "2", "x", "%", "-07", "9"]
    let c : Cursor := ⟨"#" :: ts, 1⟩
    let d : Cursor := ⟨["#", "+", "2", ")", "3"], 1⟩
    Closes ts 6 ∧ (∃ e k, c.expression.1 = .ok e ∧ Closes ts k ∧ k ≤ 6 ∧
        c.expression.2.pos = 1 + k) ∧
      d.expression.1 = .error (.fault (.notAnExpression ")")) ∧
      ((∃ before t after w, ["+", "2", ")", "3"] = before ++ t :: after ∧ TotalWeight before w ∧
          (Foreign t ∨ ∃ ds n, Numeral t ds n ∧ digitLimit < ds.length) ∧
          d.expression.2.pos = 1 + before.length + 1) ∨
        ∃ w, TotalWeight ["+", "2", ")", "3"] w ∧ d.expression.2.pos = 5) := by
  intro ts c d
  have x : Identifier "x" := isIdentifier_iff.mp (by decide)
  have digits : ∀ c ∈ ['0', '7'], '0' ≤ c ∧ c ≤ '9' := by
    intro c hc
    simp only [List.mem_cons, List.not_mem_nil, or_false] at hc
    rcases hc with rfl | rfl <;> decide
  have seven : Numeral "-07" ['0', '7'] (-7) := .negative ['0', '7'] (by simp) digits
  have two : DerivesExpr ["2"] (.constant 2) := .numeral (decimal_numeral 2) (by decide)
  have closes : Closes ts 6 :=
    ⟨by decide, .cons (.binary .sub) (.cons (.binary .mul)
      (.cons (.numeral (decimal_numeral 2) (by decide)) (.cons (.identifier x)
        (.cons (.unary .root) (.cons (.numeral seven (by decide)) .nil)))))⟩
  obtain ⟨reads, consumes, _⟩ := expression_counts_operands ["#"] ts
  obtain ⟨e, ok⟩ := reads.mpr ⟨6, closes⟩
  obtain ⟨k, closes', least, position, _⟩ := consumes e ok
  have bracket : Refused ")" (.fault (.notAnExpression ")")) := .unknown (by decide)
  have sum : classify "+" = .binary .add := BinaryOp.add.classify_symbol
  have failed : d.expression.1 = .error (.fault (.notAnExpression ")")) := by
    have left := two.expression_eq [")", "3"]
    have behind := Cursor.expression_behind ["#"] ["+", "2", ")", "3"]
    rw [show d.expression = _ from behind]
    simp only [List.singleton_append] at left
    simp [expression_cons "+", sum, left, bracket.expression_eq]
  obtain ⟨_, _, stops⟩ := expression_counts_operands ["#"] ["+", "2", ")", "3"]
  exact ⟨closes, ⟨e, k, ok, closes', least 6 closes, congrArg Cursor.pos position⟩, failed,
    (stops _ failed).2⟩

end PolishCalc
