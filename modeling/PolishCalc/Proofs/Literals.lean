import Mathlib.Data.Nat.Digits.Lemmas
import PolishCalc.Proofs.Decompiler
import PolishCalc.Proofs.TreeJson

namespace PolishCalc

/-- The numerals of an integer that are short enough to be read. -/
def Literal (t : String) (n : Int) : Prop :=
  ∃ ds, Numeral t ds n ∧ ds.length ≤ digitLimit

theorem Literal.read_eq {t : String} {n : Int} (h : Literal t n) : readNumeral t = .ok n := by
  obtain ⟨ds, form, short⟩ := h
  exact (readNumeral_eq_ok_iff form).mpr ⟨short, rfl⟩

theorem Literal.writable_eq {t : String} {n : Int} (h : Literal t n) : writable n = true := by
  obtain ⟨ds, form, short⟩ := h
  exact form.writable_of_short short

theorem writable_of_literals {ts : List String} {ns : List Int} (h : List.Forall₂ Literal ts ns) :
    ∀ n ∈ ns, writable n = true := by
  induction h with
  | nil => simp
  | cons literal _ ih => exact List.forall_mem_cons.mpr ⟨literal.writable_eq, ih⟩

theorem literal_decimal {n : Int} (h : writable n = true) : Literal (decimal n) n := by
  refine ⟨_, decimal_numeral n, ?_⟩
  rw [← (decimal_numeral n).digitCount_eq]
  exact writable_iff_digitCount.mp h

theorem writeInteger_of_writable {n : Int} (h : writable n = true) :
    writeInteger n = .ok (decimal n) := by
  rw [writeInteger, if_pos h]

/-- All places where an integer is shown write it in the same way, and where it cannot be written they
meet the digit limit. -/
structure ShownAlike (n : Int) : Prop where
  displayed : (Expr.constant n).display = writeInteger n
  printed : printed n = ((writeInteger n).mapError Failure.limit).map ("=== " ++ ·)
  pushed : Program.compile [.print (.constant n)] =
    (writeInteger n).map fun s => ["PUSH " ++ s, "PRINT"]
  listed : ∀ x, Table.listing [(x, n)] =
    (writeInteger n).map fun s => Table.heading ++ [x ++ " :   " ++ s]
  told : ∀ c : Complaint, c.value = some (.integer n) →
    c.message = (writeInteger n).map fun s => c.heading ++ ": " ++ s

theorem shownAlike (n : Int) : ShownAlike n where
  displayed := rfl
  printed := by
    rw [PolishCalc.printed, writeInteger]
    cases writable n <;> rfl
  pushed := by
    have same : Program.writable [.print (.constant n)] = writable n := by
      simp [Program.writable, Action.expr, Expr.writable]
    rw [Program.compile, same, writeInteger]
    cases writable n <;> rfl
  listed x := by
    have same : Table.writable [(x, n)] = writable n := by simp [Table.writable]
    rw [Table.listing, same, writeInteger]
    cases writable n <;> rfl
  told c named := by
    have same : c.writable = writable n := by
      rw [Complaint.writable, named, Option.all_some, Datum.writable]
    have text : c.text = c.heading ++ ": " ++ decimal n := by
      simp only [Complaint.text, named, Datum.shown]
    rw [Complaint.message, same, text, writeInteger]
    cases writable n <;> rfl

/-- Leading zeros count where an integer is read; where it is written there are none. -/
theorem writeInteger_eq_error_iff {n : Int} {l : DigitLimit} :
    writeInteger n = .error l ↔
      digitLimit < (Nat.digits 10 n.natAbs).length ∧ l = .writing := by
  have long : digitLimit < (Nat.digits 10 n.natAbs).length ↔ writable n = false := by
    rw [← Bool.not_eq_true, writable_iff, Nat.pow_eq, Nat.lt_digits_length_iff (by decide),
      Nat.not_lt]
  rw [long, writeInteger]
  cases writable n with
  | true => simp
  | false => simp [eq_comm]

/-- The constants of an expression from left to right. -/
def Expr.constants : Expr → List Int
  | .constant n => [n]
  | .variable _ => []
  | .unary _ e => e.constants
  | .binary _ l r => l.constants ++ r.constants

def Program.constants (p : Program) : List Int :=
  p.flatMap fun a => a.expr.constants

/-- The constants of an expression stand in its tokens. -/
theorem DerivesExpr.literals {ts : List String} {e : Expr} (h : DerivesExpr ts e) :
    ∃ us, us.Sublist ts ∧ List.Forall₂ Literal us e.constants := by
  induction h with
  | @numeral t ds n form short => exact ⟨[t], .refl _, .cons ⟨ds, form, short⟩ .nil⟩
  | identifier form => exact ⟨[], List.nil_sublist _, .nil⟩
  | unary op _ ih =>
    obtain ⟨us, sub, read⟩ := ih
    exact ⟨us, sub.cons _, read⟩
  | binary op _ _ ihl ihr =>
    obtain ⟨us, sub, read⟩ := ihl
    obtain ⟨us', sub', read'⟩ := ihr
    exact ⟨us ++ us', (sub.append sub').cons _, List.rel_append read read'⟩

theorem DerivesAction.literals {Target : String → Prop} {ts : List String} {a : Action}
    (h : DerivesAction Target ts a) :
    ∃ us, us.Sublist ts ∧ List.Forall₂ Literal us a.expr.constants := by
  cases h with
  | assign _ value =>
    obtain ⟨us, sub, read⟩ := value.literals
    exact ⟨us, (sub.cons _).cons _, read⟩
  | print value =>
    obtain ⟨us, sub, read⟩ := value.literals
    exact ⟨us, sub.cons _, read⟩

theorem DerivesProgram.literals {Target : String → Prop} {ts : List String} {p : Program}
    (h : DerivesProgram Target ts p) :
    ∃ us, us.Sublist ts ∧ List.Forall₂ Literal us p.constants := by
  induction h with
  | nil => exact ⟨[], List.nil_sublist _, .nil⟩
  | cons first _ ih =>
    obtain ⟨us, sub, read⟩ := first.literals
    obtain ⟨us', sub', read'⟩ := ih
    exact ⟨us ++ us', sub.append sub', List.rel_append read read'⟩

def Instruction.pushed? : Instruction → Option Int
  | .push n => some n
  | _ => none

theorem Instruction.pushed?_eq_some {i : Instruction} {n : Int} (h : i.pushed? = some n) :
    i = .push n := by
  cases i <;> simp_all [pushed?]

theorem Instruction.pushed?_rename (f : String → String) (i : Instruction) :
    (i.rename f).pushed? = i.pushed? := by
  cases i <;> rfl

theorem Expr.pushed_code (e : Expr) : e.code.filterMap Instruction.pushed? = e.constants := by
  induction e with
  | constant n => rfl
  | «variable» x => rfl
  | unary op e ih => simp [code, constants, ih, Instruction.pushed?]
  | binary op l r ihl ihr => simp [code, constants, ihl, ihr, Instruction.pushed?]

theorem Action.pushed_code (a : Action) :
    a.code.filterMap Instruction.pushed? = a.expr.constants := by
  cases a with
  | assign x e => simp [code, expr, e.pushed_code, Instruction.pushed?]
  | print e => simp [code, expr, e.pushed_code, Instruction.pushed?]

theorem Program.pushed_code (p : Program) :
    p.code.filterMap Instruction.pushed? = p.constants := by
  induction p with
  | nil => rfl
  | cons a p ih =>
    rw [Program.code_cons, List.filterMap_append, a.pushed_code, ih]
    rfl

/-- Whether the first word of a line is the mnemonic for pushing. -/
def isPushLine (l : String) : Bool :=
  (words l).head? = some "PUSH"

theorem isPushLine_operand {m : String} (hm : IsWord m) (x : String) :
    isPushLine (m ++ " " ++ x) = decide (m = "PUSH") := by
  simp [isPushLine, words_append_space, words_of_isWord hm]

theorem Instruction.isPushLine_text (i : Instruction) :
    isPushLine i.text = i.pushed?.isSome := by
  cases i with
  | push n =>
    rw [text, (text_operand _).1, isPushLine_operand (by decide)]
    rfl
  | load x =>
    rw [text, (text_operand x).2.1, isPushLine_operand (by decide)]
    rfl
  | store x =>
    rw [text, (text_operand x).2.2, isPushLine_operand (by decide)]
    rfl
  | unary op => cases op <;> decide
  | binary op => cases op <;> decide
  | print => decide

theorem pushLines_text (is : List Instruction) :
    (is.map Instruction.text).filter isPushLine =
      (is.filterMap Instruction.pushed?).map fun n => (Instruction.push n).text := by
  induction is with
  | nil => rfl
  | cons i is ih =>
    rw [List.map_cons, List.filter_cons, i.isPushLine_text, List.filterMap_cons, ih]
    cases pushed : i.pushed? with
    | none => rfl
    | some n =>
      rw [Instruction.pushed?_eq_some pushed]
      rfl

/-- The line of a constant that can be written is read back by itself. -/
theorem assemble_pushLine {n : Int} (h : writable n = true) :
    assemble [(Instruction.push n).text] = ⟨.ok [.push n], []⟩ := by
  have wellFormed : ∀ i ∈ [Instruction.push n], i.WellFormed IsWord := by
    intro i hi
    cases List.mem_singleton.mp hi
    exact h
  exact assembleFrom_text wellFormed 1

theorem pushed_of_assembled {p : Program} {is : List Instruction} (wellFormed : p.WellFormed)
    (assembled : (assemble (p.code.map Instruction.text)).result = .ok is) :
    is.filterMap Instruction.pushed? = p.constants := by
  rw [assemble_code_leading wellFormed] at assembled
  -- The assembler may cut names short, but it gives every instruction its own place.
  cases refused : p.targets.findSome? (nameFault? "STORE") with
  | some f => simp [refused] at assembled
  | none =>
    simp only [refused, Option.elim_none, Except.ok.injEq] at assembled
    rw [← assembled, List.filterMap_map, ← p.pushed_code]
    exact List.filterMap_congr fun i _ => i.pushed?_rename leadingWord

/-- A literal that is accepted can be written again and read back from that, wherever it is shown; only
an integer with more digits than the limit cannot be written. So every program that is accepted can
be displayed, compiled and turned into a value, and its constants are what the assembler makes of
the lines that push them. -/
theorem literals_survive_rewriting :
    (∀ n, ShownAlike n) ∧
    (∀ t n, Literal t n → readNumeral t = .ok n ∧
      ∃ s, writeInteger n = .ok s ∧ Literal s n ∧ readNumeral s = .ok n) ∧
    (∀ n l, writeInteger n = .error l ↔
      digitLimit < (Nat.digits 10 n.natAbs).length ∧ l = .writing) ∧
    ∀ ts p, parse ts = .ok p →
      (∃ us, us.Sublist ts ∧ List.Forall₂ Literal us p.constants) ∧
      p.display = .ok (p.map Action.text) ∧
      p.tree.json.program? = some p ∧ p.tree.json.writable = true ∧
      ∃ ls, p.compile = .ok ls ∧ Generator.empty.program p = ⟨⟨ls⟩, none⟩ ∧
        List.Forall₂ (fun l n => ∃ s, writeInteger n = .ok s ∧ l = "PUSH " ++ s ∧
          assemble [l] = ⟨.ok [.push n], []⟩) (ls.filter isPushLine) p.constants ∧
        ∀ is, (assemble ls).result = .ok is → is.filterMap Instruction.pushed? = p.constants := by
  refine ⟨shownAlike, ?_, fun n l => writeInteger_eq_error_iff, ?_⟩
  · intro t n literal
    have written := literal_decimal literal.writable_eq
    exact ⟨literal.read_eq, _, writeInteger_of_writable literal.writable_eq, written,
      written.read_eq⟩
  · intro ts p parsed
    have wellFormed := parse_wellFormed parsed
    obtain ⟨us, sub, read⟩ := (parse_eq_ok_iff.mp parsed).literals
    refine ⟨⟨us, sub, read⟩, wellFormed.display_eq,
      p.program?_of_agrees (Tree.json_agrees p.tree),
      p.json_writable.trans wellFormed.writable_eq, _, wellFormed.compile_eq,
      Generator.program_eq wellFormed.writable_eq .empty, ?_,
      fun is => pushed_of_assembled wellFormed⟩
    rw [pushLines_text, p.pushed_code, List.forall₂_map_left_iff, List.forall₂_same]
    intro n hn
    have short := writable_of_literals read n hn
    exact ⟨_, writeInteger_of_writable short, rfl, assemble_pushLine short⟩

/-- As many zeros as can be read, in a program whose target the assembler cuts short. -/
theorem zeros_up_to_limit_rewritten :
    let t := String.ofList ('-' :: List.replicate digitLimit '0')
    let ts := [":=", "x y", t, "#", "_", "-007"]
    let p : Program := [.assign "x y" (.constant 0), .print (.unary .negate (.constant (-7)))]
    let is : List Instruction := [.push 0, .store "x", .push (-7), .unary .negate, .print]
    Literal t 0 ∧ readNumeral t = .ok 0 ∧
      (∃ s, writeInteger 0 = .ok s ∧ Literal s 0 ∧ readNumeral s = .ok 0) ∧
      parse ts = .ok p ∧ ∃ ls, p.compile = .ok ls ∧
        List.Forall₂ (fun l n => ∃ s, writeInteger n = .ok s ∧ l = "PUSH " ++ s ∧
          assemble [l] = ⟨.ok [.push n], []⟩) (ls.filter isPushLine) [0, -7] ∧
        (assemble ls).result = .ok is ∧ is.filterMap Instruction.pushed? = [0, -7] := by
  intro t ts p is
  have zeros : ∀ c ∈ List.replicate digitLimit '0', '0' ≤ c ∧ c ≤ '9' := by
    intro c hc
    rw [List.eq_of_mem_replicate hc]
    decide
  have form := Numeral.negative (List.replicate digitLimit '0') (by decide) zeros
  have zero : -(Nat.ofDigitChars 10 (List.replicate digitLimit '0') 0 : Int) = 0 := by
    decide +kernel
  rw [zero] at form
  have literal : Literal t 0 := ⟨_, form, by simp⟩
  have seven : Numeral "-007" ['0', '0', '7'] (-7) := .negative _ (by simp) (by simp)
  have derived : DerivesProgram NoNumeral ts p :=
    .cons (.assign (by decide) (.numeral form (by simp)))
      (.cons (.print (.unary .negate (.numeral seven (by decide)))) .nil)
  have parsed := parse_eq_ok_iff.mpr derived
  obtain ⟨_, rewritten, _, accepted⟩ := literals_survive_rewriting
  obtain ⟨read, written⟩ := rewritten t 0 literal
  obtain ⟨_, _, _, _, ls, compiled, _, pushed, back⟩ := accepted ts p parsed
  have assembled : (assemble ls).result = .ok is := by
    rw [(parse_wellFormed parsed).compile_eq] at compiled
    rw [← Except.ok.inj compiled]
    decide +kernel
  exact ⟨literal, read, written, parsed, ls, compiled, pushed, assembled, back is assembled⟩

end PolishCalc
