import PolishCalc.Proofs.Concatenation

namespace PolishCalc

/-- The instruction of a line that was written for one. A name is all that stands behind the
mnemonic, blanks included. -/
def Instruction.ofText? (s : String) : Option Instruction :=
  match s.toList with
  | 'P' :: 'U' :: 'S' :: 'H' :: ' ' :: cs => some (.push (numeralValue (String.ofList cs)))
  | 'L' :: 'O' :: 'A' :: 'D' :: ' ' :: cs => some (.load (String.ofList cs))
  | 'S' :: 'T' :: 'O' :: 'R' :: 'E' :: ' ' :: cs => some (.store (String.ofList cs))
  | _ => plainInstruction? s

theorem Instruction.ofText?_text (i : Instruction) : ofText? i.text = some i := by
  cases i with
  | push n => simp [text, ofText?, (decimal_numeral n).value_eq]
  | load x => simp [text, ofText?]
  | store x => simp [text, ofText?]
  | unary op => cases op <;> decide
  | binary op => cases op <;> decide
  | print => decide

theorem mapM_ofText?_text (is : List Instruction) :
    (is.map Instruction.text).mapM Instruction.ofText? = some is := by
  induction is with
  | nil => rfl
  | cons i is ih => simp [Instruction.ofText?_text, ih]

/-- The program whose code the instructions are, found by carrying them out on expressions in the
place of values. The expressions on the stack are those that no action has used yet. -/
def rebuild : List Expr → List Instruction → Option Program
  | es, .push n :: is => rebuild (.constant n :: es) is
  | es, .load x :: is => rebuild (.variable x :: es) is
  | e :: es, .unary op :: is => rebuild (.unary op e :: es) is
  | r :: l :: es, .binary op :: is => rebuild (.binary op l r :: es) is
  | [e], .store x :: is => (rebuild [] is).map (.assign x e :: ·)
  | [e], .print :: is => (rebuild [] is).map (.print e :: ·)
  | [], [] => some []
  | _, _ => none

theorem rebuild_expr (e : Expr) (es : List Expr) (is : List Instruction) :
    rebuild es (e.code ++ is) = rebuild (e :: es) is := by
  induction e generalizing es is with
  | constant n => simp [Expr.code, rebuild]
  | «variable» x => simp [Expr.code, rebuild]
  | unary op e ih => simp [Expr.code, ih, rebuild]
  | binary op l r ihl ihr => simp [Expr.code, ihl, ihr, rebuild]

theorem rebuild_action (a : Action) (is : List Instruction) :
    rebuild [] (a.code ++ is) = (rebuild [] is).map (a :: ·) := by
  cases a with
  | assign x e => simp [Action.code, rebuild_expr, rebuild]
  | print e => simp [Action.code, rebuild_expr, rebuild]

theorem Program.code_cons (a : Action) (p : Program) :
    Program.code (a :: p) = a.code ++ p.code :=
  rfl

theorem rebuild_code (p : Program) : rebuild [] p.code = some p := by
  induction p with
  | nil => simp [Program.code, rebuild]
  | cons a p ih =>
    rw [Program.code_cons, rebuild_action, ih]
    rfl

/-- The program that assembly text was written for. -/
def decompile (ls : List String) : Option Program :=
  (ls.mapM Instruction.ofText?).bind (rebuild [])

theorem decompile_code (p : Program) : decompile (p.code.map Instruction.text) = some p := by
  rw [decompile, mapM_ofText?_text]
  exact rebuild_code p

theorem DerivesExpr.code_length {ts : List String} {e : Expr} (h : DerivesExpr ts e) :
    e.code.length = ts.length := by
  induction h with
  | numeral => rfl
  | identifier => rfl
  | unary op _ ih => simp [Expr.code, ih]
  | binary op _ _ ihl ihr => simp [Expr.code, ihl, ihr, Nat.add_assoc]

/-- A target takes no line of its own. -/
theorem DerivesProgram.code_length {Target : String → Prop} {ts : List String} {p : Program}
    (h : DerivesProgram Target ts p) : p.code.length + p.targets.length = ts.length := by
  induction h with
  | nil => rfl
  | @cons ts us a p first _ ih =>
    rw [Program.code_cons, Program.targets_cons]
    simp only [List.length_append, ← ih]
    cases first with
    | assign _ value =>
      simp only [Action.code, Action.target?, Option.toList, List.length_append, List.length_cons,
        List.length_nil, value.code_length]
      omega
    | print value =>
      simp only [Action.code, Action.target?, Option.toList, List.length_append, List.length_cons,
        List.length_nil, value.code_length]
      omega

/-- Assembly text loses nothing of a program, whatever its names look like. Programs that have the
same lines are the same, for the decompiler gives a program back from its lines; and every token has
a line, except that an assignment sign and its target have one between them. -/
theorem assembly_text_loses_nothing :
    (∀ ts us p q, parse ts = .ok p → parse us = .ok q → p.compile = q.compile → p = q) ∧
    ∀ ts p, parse ts = .ok p → ∃ ls, p.compile = .ok ls ∧ decompile ls = some p ∧
      Generator.empty.program p = ⟨⟨ls⟩, none⟩ ∧ ls.length + p.targets.length = ts.length := by
  constructor
  · intro ts us p q parsed parsed' same
    rw [(parse_wellFormed parsed).compile_eq, (parse_wellFormed parsed').compile_eq] at same
    have back := decompile_code p
    rw [Except.ok.inj same, decompile_code] at back
    exact (Option.some.inj back).symm
  · intro ts p parsed
    have wellFormed := parse_wellFormed parsed
    refine ⟨_, wellFormed.compile_eq, decompile_code p, ?_, ?_⟩
    · exact Generator.program_eq wellFormed.writable_eq .empty
    · rw [List.length_map]
      exact (parse_eq_ok_iff.mp parsed).code_length

/-- A name with a blank in it, and a numeral in a spelling that the lines do not keep. -/
theorem blank_name_not_lost :
    let p : Program := [.assign "x y" (.binary .sub (.constant 7) (.variable "x y"))]
    let ts := [":=", "x y", "-", "007", "x y"]
    let ls := ["PUSH 7", "LOAD x y", "SUB", "STORE x y"]
    parse ts = .ok p ∧ p.compile = .ok ls ∧ decompile ls = some p ∧
      ls.length + p.targets.length = ts.length ∧
      ∀ us q, parse us = .ok q → q.compile = .ok ls → q = p := by
  intro p ts ls
  have seven : DerivesExpr ["007"] (.constant 7) :=
    .numeral (.plain ['0', '0', '7'] (by simp) (by simp)) (by decide)
  have name : DerivesExpr ["x y"] (.variable "x y") := .identifier (by decide)
  have parsed : parse ts = .ok p :=
    parse_eq_ok_iff.mpr (.cons (.assign (by decide) (.binary .sub seven name)) .nil)
  obtain ⟨same, lines⟩ := assembly_text_loses_nothing
  obtain ⟨_, compiled, back, _, length⟩ := lines ts p parsed
  have written : p.compile = .ok ls := by
    rw [(parse_wellFormed parsed).compile_eq]
    exact congrArg Except.ok (by decide)
  cases compiled.symm.trans written
  refine ⟨parsed, written, back, length, fun us q parsed' compiled' => ?_⟩
  exact same us ts q p parsed' parsed (compiled'.trans written.symm)

end PolishCalc
