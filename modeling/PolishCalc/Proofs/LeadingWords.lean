import PolishCalc.Proofs.BackEnds
import PolishCalc.Proofs.Renaming

namespace PolishCalc

/-- The first word of a name, which is all that assembly text keeps of it. -/
def leadingWord (x : String) : String :=
  (words x).headD ""

/-- Names whose first word is an operand again. -/
def LeadsWithName (x : String) : Prop :=
  ∃ w ws, words x = w :: ws ∧ NoNumeral w

/-- What the assembler says of a name that stands as the operand of a mnemonic. -/
def nameFault? (mnemonic x : String) : Option Fault :=
  match words x with
  | [] => some (.missingOperand mnemonic)
  | w :: _ => if isNumeral w then some (.operandNotName mnemonic w) else none

theorem nameFault?_eq_none_iff {m x : String} : nameFault? m x = none ↔ LeadsWithName x := by
  unfold nameFault? LeadsWithName
  cases words x with
  | nil => simp
  | cons w ws => simp [NoNumeral, ← isNumeral_eq_false_iff]

instance (x : String) : Decidable (LeadsWithName x) :=
  decidable_of_iff _ (nameFault?_eq_none_iff (m := "STORE"))

/-- The complaint about a name is of an illegal value: of the numeral, or of the mnemonic if there
is no word at all. -/
theorem nameFault?_complaint {m x : String} {f : Fault} (h : nameFault? m x = some f) :
    f.complaint.kind = .illegalValue ∧ f.complaint.value = some (.text ((words x).headD m)) := by
  unfold nameFault? at h
  cases hw : words x with
  | nil =>
    simp only [hw, Option.some.injEq] at h
    subst h
    exact ⟨rfl, rfl⟩
  | cons w ws =>
    simp only [hw] at h
    split at h
    next =>
      cases Option.some.inj h
      exact ⟨rfl, rfl⟩
    next => simp at h

theorem readLine_name {m : String} (hm : m ∈ ["LOAD", "STORE"]) (x : String) :
    readLine (m ++ " " ++ x) = (nameFault? m x).elim
      (.instruction (if m = "LOAD" then .load (leadingWord x) else .store (leadingWord x)))
      (fun f => .malformed (.fault f)) := by
  have hne : m ≠ "PUSH" := by
    rintro rfl
    simp at hm
  rw [readLine_operand (List.mem_cons_of_mem _ hm)]
  unfold nameFault? leadingWord
  cases words x with
  | nil => rfl
  | cons w ws =>
    by_cases hw : isNumeral w = true
    · simp [hne, nameLine, hw]
    · by_cases hl : m = "LOAD" <;> simp [hne, nameLine, hw, hl]

def Instruction.nameFault? : Instruction → Option Fault
  | .load x => PolishCalc.nameFault? "LOAD" x
  | .store x => PolishCalc.nameFault? "STORE" x
  | _ => none

/-- Whatever its name looks like, the line of an instruction is read as the instruction with the
first word of that name, or is refused for it. -/
theorem Instruction.readLine_text_leading {Name : String → Prop} {i : Instruction}
    (h : i.WellFormed Name) :
    readLine i.text = i.nameFault?.elim (.instruction (i.rename leadingWord))
      (fun f => .malformed (.fault f)) := by
  cases i with
  | load x =>
    rw [text, (text_operand x).2.1, readLine_name (by decide)]
    rfl
  | store x =>
    rw [text, (text_operand x).2.2, readLine_name (by decide)]
    rfl
  | push n => exact readLine_text (i := .push n) h
  | unary op => exact readLine_text (i := .unary op) trivial
  | binary op => exact readLine_text (i := .binary op) trivial
  | print => exact readLine_text (i := .print) trivial

theorem assembleFrom_text_leading {Name : String → Prop} {is : List Instruction}
    (h : ∀ i ∈ is, i.WellFormed Name) (n : Nat) :
    assembleFrom n (is.map Instruction.text) =
      ⟨(is.findSome? Instruction.nameFault?).elim (.ok (is.map (Instruction.rename leadingWord)))
        (fun f => .error (.fault f)), []⟩ := by
  induction is generalizing n with
  | nil => rfl
  | cons i is ih =>
    have hi := i.readLine_text_leading (h i (by simp))
    have his := ih (fun j hj => h j (by simp [hj])) (n + 1)
    simp only [List.map_cons, assembleFrom, hi, his, List.findSome?_cons]
    cases i.nameFault? with
    | some f => rfl
    | none => cases is.findSome? Instruction.nameFault? <;> rfl

theorem isBlank_of_letter {c : Char} (h : ('A' ≤ c ∧ c ≤ 'Z') ∨ ('a' ≤ c ∧ c ≤ 'z')) :
    isBlank c = false := by
  have bounds : (65 ≤ c.toNat ∧ c.toNat ≤ 90) ∨ (97 ≤ c.toNat ∧ c.toNat ≤ 122) := h
  simp [isBlank]
  omega

/-- What is left of an identifier is an identifier. -/
theorem Identifier.leadsWithName {x : String} (h : Identifier x) : LeadsWithName x := by
  obtain ⟨c, cs, hx, hc, _⟩ := h
  have unblank := (splitWord_words cs).1
  have hwords : words x =
      String.ofList (c :: (splitWord cs).1) :: (splitWord cs).2.map String.ofList := by
    simp [words, wordsOf, hx, splitWord, isBlank_of_letter hc, closeWord]
  have first : Identifier (String.ofList (c :: (splitWord cs).1)) := by
    refine ⟨c, (splitWord cs).1, String.toList_ofList, hc, ?_⟩
    intro hn
    exact absurd (unblank '\n' hn) (by decide)
  exact ⟨_, _, hwords, first.noNumeral⟩

theorem Expr.findSome?_code {e : Expr} (h : e.WellFormed) :
    e.code.findSome? Instruction.nameFault? = none := by
  induction e with
  | constant n => rfl
  | «variable» x =>
    have form : Identifier x := h
    simp [code, Instruction.nameFault?, nameFault?_eq_none_iff.mpr form.leadsWithName]
  | unary op e ih => simp [code, List.findSome?_append, ih h, Instruction.nameFault?]
  | binary op l r ihl ihr =>
    simp [code, List.findSome?_append, ihl h.1, ihr h.2, Instruction.nameFault?]

theorem Action.findSome?_code {a : Action} (h : a.WellFormed) :
    a.code.findSome? Instruction.nameFault? = a.target?.bind (nameFault? "STORE") := by
  cases a with
  | assign x e =>
    rw [code, List.findSome?_append, e.findSome?_code h.2]
    cases hx : nameFault? "STORE" x <;> simp [Instruction.nameFault?, target?, hx]
  | print e =>
    have he : e.WellFormed := h
    rw [code, List.findSome?_append, e.findSome?_code he]
    rfl

/-- Only the targets of a program can be refused, in the order of its assignments. -/
theorem Program.findSome?_code {p : Program} (h : p.WellFormed) :
    p.code.findSome? Instruction.nameFault? = p.targets.findSome? (nameFault? "STORE") := by
  induction p with
  | nil => rfl
  | cons a p ih =>
    have hp := ih (fun b hb => h b (by simp [hb]))
    have hcode : Program.code (a :: p) = a.code ++ Program.code p := rfl
    rw [hcode, targets_cons, List.findSome?_append, List.findSome?_append, hp,
      a.findSome?_code (h a (by simp))]
    cases a.target? <;> simp

theorem assemble_code_leading {p : Program} (wellFormed : p.WellFormed) :
    assemble (p.code.map Instruction.text) =
      ⟨(p.targets.findSome? (nameFault? "STORE")).elim
        (.ok (p.code.map (Instruction.rename leadingWord))) (fun f => .error (.fault f)), []⟩ := by
  have any : p.Names fun _ => True := fun _ _ => ⟨fun _ _ => trivial, fun _ _ => trivial⟩
  rw [assemble, assembleFrom_text_leading (p.code_wellFormed wellFormed any) 1,
    p.findSome?_code wellFormed]

theorem findSome?_nameFault?_eq_none_iff {xs : List String} :
    xs.findSome? (nameFault? "STORE") = none ↔ ∀ x ∈ xs, LeadsWithName x := by
  simp [List.findSome?_eq_none_iff, nameFault?_eq_none_iff]

/-- The code of a completed program under the first words of its names. -/
theorem execute_code_leading {p : Program} {s : Session} (h : Session.empty.run p = ⟨s, none⟩)
    (apart : KeepsApart leadingWord p.targets) (m : Machine) :
    m.execute (p.code.map (Instruction.rename leadingWord)) =
      ⟨⟨[], s.symbols.rename leadingWord, s.output, false⟩, none⟩ := by
  have alike := Session.execute_rename (s := .empty) apart (List.nil_subset _)
    (names_of_completed h fun x hx => hx)
  rw [show Session.empty.execute p = ⟨s, none⟩ from h] at alike
  have renamed : Session.empty.execute (p.rename leadingWord) = ⟨s.rename leadingWord, none⟩ :=
    alike.done
  rw [← Program.code_rename]
  exact execute_code_of_done (s := .empty) renamed m

/-- Programs with any names. Their assembly text is accepted if and only if the first word of every
target is a name again. What is read is the code of the program with the first word of every name
in its place, and on the machine it does what the program does if no two targets have the same
first word. Otherwise the first target that has no such word is to blame. -/
theorem assembled_by_leading_words {ts : List String} {p : Program} (parsed : parse ts = .ok p) :
    ∃ ls, p.compile = .ok ls ∧
      ((∃ is, (assemble ls).result = .ok is) ↔ ∀ x ∈ p.targets, LeadsWithName x) ∧
      ((∀ x ∈ p.targets, LeadsWithName x) →
        assemble ls = ⟨.ok (p.code.map (Instruction.rename leadingWord)), []⟩ ∧
        ∀ s, Session.empty.run p = ⟨s, none⟩ → KeepsApart leadingWord p.targets →
          Machine.fresh.execute (p.code.map (Instruction.rename leadingWord)) =
            ⟨⟨[], s.symbols.rename leadingWord, s.output, false⟩, none⟩) ∧
      (¬ (∀ x ∈ p.targets, LeadsWithName x) →
        ∃ before x after f, p.targets = before ++ x :: after ∧
          (∀ y ∈ before, LeadsWithName y) ∧ ¬ LeadsWithName x ∧
          assemble ls = ⟨.error (.fault f), []⟩ ∧ f.complaint.kind = .illegalValue ∧
          f.complaint.value = some (.text ((words x).headD "STORE"))) := by
  have wellFormed := parse_wellFormed parsed
  have assembled := assemble_code_leading wellFormed
  rw [← findSome?_nameFault?_eq_none_iff]
  refine ⟨_, wellFormed.compile_eq, ?_⟩
  cases found : p.targets.findSome? (nameFault? "STORE") with
  | none =>
    rw [found] at assembled
    refine ⟨by simp [assembled], fun _ => ⟨assembled, ?_⟩, fun h => absurd rfl h⟩
    intro s completed apart
    exact execute_code_leading completed apart Machine.fresh
  | some f =>
    rw [found] at assembled
    obtain ⟨before, x, after, htargets, hx, hbefore⟩ := List.findSome?_eq_some_iff.mp found
    have first : ¬ LeadsWithName x := by
      rw [← nameFault?_eq_none_iff (m := "STORE"), hx]
      simp
    refine ⟨by simp [assembled], by simp, fun _ => ⟨before, x, after, f, htargets, ?_⟩⟩
    refine ⟨?_, first, assembled, nameFault?_complaint hx⟩
    intro y hy
    exact nameFault?_eq_none_iff.mp (hbefore y hy)

/-- Two names with blanks in them are cut, and of two that cannot be, the first is named. -/
theorem blank_names_cut_or_refused :
    let p : Program := [.assign "x y" (.constant 2),
      .assign "+\nz" (.unary .negate (.variable "x y")), .print (.variable "x y")]
    let q : Program := [.assign "a b" (.constant 1), .assign "7 b" (.constant 2),
      .assign "" (.constant 3)]
    parse [":=", "x y", "2", ":=", "+\nz", "_", "x y", "#", "x y"] = .ok p ∧
      (∃ ls is, p.compile = .ok ls ∧ assemble ls = ⟨.ok is, []⟩ ∧
        is = [.push 2, .store "x", .load "x", .unary .negate, .store "+", .load "x", .print] ∧
        Machine.fresh.execute is = ⟨⟨[], [("x", 2), ("+", -2)], ["=== 2"], false⟩, none⟩) ∧
      parse [":=", "a b", "1", ":=", "7 b", "2", ":=", "", "3"] = .ok q ∧
      ∃ ls f, q.compile = .ok ls ∧ assemble ls = ⟨.error (.fault f), []⟩ ∧
        f.complaint.kind = .illegalValue ∧ f.complaint.value = some (.text "7") := by
  intro p q
  have parsed : parse p.tokens = .ok p := parse_tokens (by decide +kernel)
  have parsed' : parse q.tokens = .ok q := parse_tokens (by decide +kernel)
  obtain ⟨ls, compiled, _, accepted, _⟩ := assembled_by_leading_words parsed
  obtain ⟨ls', compiled', _, _, refused⟩ := assembled_by_leading_words parsed'
  obtain ⟨assembled, executed⟩ := accepted (by decide)
  refine ⟨parsed, ⟨ls, _, compiled, assembled, by decide, ?_⟩, parsed', ls', ?_⟩
  · have state : (Session.empty.run p).state = ⟨[("x y", 2), ("+\nz", -2)], ["=== 2"]⟩ := by
      decide +kernel
    have failure : (Session.empty.run p).failure = none := by decide +kernel
    have completed : Session.empty.run p = ⟨⟨[("x y", 2), ("+\nz", -2)], ["=== 2"]⟩, none⟩ := by
      rw [← state, ← failure]
    rw [executed _ completed (by decide)]
    rfl
  · obtain ⟨before, x, after, f, targets, leads, stops, assembled', kind, value⟩ :=
      refused (by decide)
    refine ⟨f, compiled', assembled', kind, ?_⟩
    have htargets : ["a b", "7 b", ""] = before ++ x :: after := targets
    rcases before with _ | ⟨y, _ | ⟨z, before⟩⟩
    · simp only [List.nil_append, List.cons.injEq] at htargets
      rw [← htargets.1] at stops
      exact absurd (by decide) stops
    · simp only [List.cons_append, List.nil_append, List.cons.injEq] at htargets
      rw [value, ← htargets.2.1]
      rfl
    · simp only [List.cons_append, List.cons.injEq] at htargets
      have second := leads z (by simp)
      rw [← htargets.2.1] at second
      exact absurd second (by decide)

end PolishCalc
