import PolishCalc.Proofs.Reassembly
import PolishCalc.Proofs.Requests

namespace PolishCalc

theorem plainInstruction?_wellFormed {Name : String → Prop} {m : String} {i : Instruction}
    (h : plainInstruction? m = some i) : i.WellFormed Name := by
  unfold plainInstruction? at h
  repeat' split at h
  all_goals simp only [Option.some.injEq, reduceCtorEq] at h
  all_goals
    subst h
    trivial

theorem pushLine_wellFormed {Name : String → Prop} {y : String} {i : Instruction}
    (h : pushLine y = .instruction i) : i.WellFormed Name := by
  unfold pushLine at h
  split at h
  next hn =>
    obtain ⟨ds, n, form⟩ := isNumeral_iff.mp hn
    split at h
    next m hm =>
      cases h
      obtain ⟨short, rfl⟩ := (readNumeral_eq_ok_iff form).mp hm
      exact form.writable_of_short short
    next => simp at h
  next => simp at h

theorem nameLine_eq_instruction {m y : String} {make : String → Instruction} {i : Instruction}
    (h : nameLine m y make = .instruction i) : isNumeral y = false ∧ i = make y := by
  unfold nameLine at h
  split at h
  next => simp at h
  next hn =>
    cases h
    exact ⟨by simpa using hn, rfl⟩

theorem decodeLine_wellFormed {m : String} {ws : List String} {i : Instruction}
    (operands : ∀ w ∈ ws, IsWord w) (h : decodeLine m ws = .instruction i) :
    i.WellFormed IsWord := by
  unfold decodeLine at h
  split at h
  next j hj =>
    cases h
    exact plainInstruction?_wellFormed hj
  next =>
    split at h
    next =>
      cases ws with
      | nil => simp at h
      | cons y ws =>
        have hy : IsWord y := operands y (by simp)
        simp only at h
        split at h
        next => exact pushLine_wellFormed h
        next =>
          split at h
          next =>
            obtain ⟨hn, rfl⟩ := nameLine_eq_instruction h
            exact ⟨hy, hn⟩
          next =>
            obtain ⟨hn, rfl⟩ := nameLine_eq_instruction h
            exact ⟨hy, hn⟩
    next => simp at h

/-- What the assembler reads has constants that can be written and names that are words. -/
theorem readLine_wellFormed {s : String} {i : Instruction} (h : readLine s = .instruction i) :
    i.WellFormed IsWord := by
  unfold readLine at h
  split at h
  next => simp at h
  next w ws hwords =>
    split at h
    next => simp at h
    next =>
      refine decodeLine_wellFormed (fun v hv => ?_) h
      exact isWord_of_mem_words (s := s) (by simp [hwords, hv])

theorem assembleFrom_wellFormed {n : Nat} {ls : List String} {is : List Instruction}
    (h : (assembleFrom n ls).result = .ok is) : ∀ i ∈ is, i.WellFormed IsWord := by
  induction ls generalizing n is with
  | nil =>
    cases h
    simp
  | cons s ls ih =>
    simp only [assembleFrom] at h
    cases hs : readLine s with
    | ending =>
      simp only [hs, Except.ok.injEq] at h
      simp [← h]
    | blank =>
      simp only [hs] at h
      exact ih h
    | unknown m =>
      simp only [hs, Assembled.warn] at h
      exact ih h
    | malformed f => simp [hs] at h
    | instruction i =>
      simp only [hs, Assembled.cons] at h
      cases hr : (assembleFrom (n + 1) ls).result with
      | error f => simp [hr, Except.map] at h
      | ok js =>
        simp only [hr, Except.map, Except.ok.injEq] at h
        subst h
        intro j hj
        rcases List.mem_cons.mp hj with rfl | hj
        · exact readLine_wellFormed hs
        · exact ih hr j hj

/-- Instructions that were read from assembly text are read again from their lines, one by one and
as one text. -/
theorem assemble_written {source : AssemblySource} {is : List Instruction}
    (assembled : (assemble source.toLines).result = .ok is) {written : AssemblySource}
    (same : written = .lines (is.map Instruction.text) ∨
      written = .text (joinLines (is.map Instruction.text))) :
    assemble written.toLines = ⟨.ok is, []⟩ := by
  have readable := assembleFrom_wellFormed assembled
  have lines := assembleFrom_text readable 1
  rcases same with rfl | rfl
  · exact lines
  · rw [toLines_joinLines_text readable]
    exact lines

namespace Service

theorem executeSource_instructions {source : AssemblySource} {is : List Instruction}
    (assembled : (assemble source.toLines).result = .ok is) :
    (executeSource source).instructions = is.map Instruction.text := by
  simp only [executeSource, assembled, Instruction.text_order]

/-- An execution can be written if its table can be. -/
theorem Execution.json_writable (e : Execution) :
    e.json.writable = ((depthJson e.stackDepth).writable && e.symbols.writable) := by
  simp [Execution.json, Json.writable, Json.membersWritable, texts_writable, tableJson_writable]

/-- Instructions that are sent back, as lines or as one text, get the answer of the text that they
were read from without its warnings. -/
theorem respond_written {source : AssemblySource} {is : List Instruction} {r : Request} {data : Json}
    (assembled : (assemble source.toLines).result = .ok is)
    (writable : (executeSource source).json.writable = true) (posts : r.Posts "/execute" data)
    (sent : data.member? "assembly" = some (.texts (is.map Instruction.text)) ∨
      data.member? "assembly" = some (.text (joinLines (is.map Instruction.text)))) :
    respond r = .ok ⟨(executeSource source).status,
      some ({ executeSource source with warnings := [] } : Execution).json⟩ := by
  obtain ⟨written, same, carried⟩ : ∃ written : AssemblySource,
      (written = .lines (is.map Instruction.text) ∨
        written = .text (joinLines (is.map Instruction.text))) ∧
      data.member? "assembly" = some written.json := by
    rcases sent with sent | sent
    · exact ⟨_, .inl rfl, sent⟩
    · exact ⟨_, .inr rfl, sent⟩
  have execution : executeSource written = { executeSource source with warnings := [] } := by
    simp only [executeSource, assembled, assemble_written assembled same, List.map_nil]
  -- Warnings are texts: leaving them out does not change whether an answer can be written.
  have writable' : (executeSource written).json.writable = true := by
    rw [Execution.json_writable, execution]
    rw [Execution.json_writable] at writable
    exact writable
  rw [respond_execute_of_writable posts carried writable', execution]
  rfl

end Service

/-- Instructions that were read from any assembly text. Their own text is read back without a
warning, as a list of lines and joined to one text; and a client that sends the instructions of an
answer back gets all of that answer again, except that there are no warnings. -/
theorem disassembly_read_back {source : AssemblySource} {is : List Instruction}
    (assembled : (assemble source.toLines).result = .ok is) :
    assemble (AssemblySource.lines (is.map Instruction.text)).toLines = ⟨.ok is, []⟩ ∧
      assemble (AssemblySource.text (joinLines (is.map Instruction.text))).toLines = ⟨.ok is, []⟩ ∧
      ∀ r data, r.Posts "/execute" data → data.member? "assembly" = some source.json →
        ∀ status answer, Service.respond r = .ok ⟨status, some answer⟩ →
          answer.member? "instructions" = some (.texts (is.map Instruction.text)) ∧
          ∀ r' data', r'.Posts "/execute" data' →
            (data'.member? "assembly" = answer.member? "instructions" ∨
              data'.member? "assembly" = some (.text (joinLines (is.map Instruction.text)))) →
            ∃ answer', Service.respond r' = .ok ⟨status, some answer'⟩ ∧
              (∀ name ∈ ["instructions", "output", "symbol_table", "stack_depth", "errors"],
                answer'.member? name = answer.member? name) ∧
              answer'.member? "warnings" = some (.texts []) := by
  refine ⟨assemble_written assembled (.inl rfl), assemble_written assembled (.inr rfl), ?_⟩
  intro r data posts carried status answer responded
  rw [Service.respond_execute posts carried, Service.executeProgram] at responded
  simp only [Except.ok.injEq] at responded
  split at responded
  next writable =>
    cases responded
    have listed : (Service.executeSource source).json.member? "instructions" =
        some (.texts (is.map Instruction.text)) := by
      rw [← Service.executeSource_instructions assembled]
      rfl
    refine ⟨listed, ?_⟩
    intro r' data' posts' sentBack
    rw [listed] at sentBack
    refine ⟨_, Service.respond_written assembled writable posts' sentBack, ?_, rfl⟩
    intro name known
    simp only [List.mem_cons, List.not_mem_nil, or_false] at known
    rcases known with rfl | rfl | rfl | rfl | rfl <;> rfl
  next => cases responded

/-- A name that would end the text if it stood alone, and a line that the instructions leave out. -/
theorem dot_name_read_back :
    let source := AssemblySource.text "PUSH -07 x\nX\nSTORE .\n.\nY"
    let is : List Instruction := [.push (-7), .store "."]
    let r := Request.posting "/execute"
      "\x7b\"assembly\":\"PUSH -07 x\\nX\\nSTORE .\\n.\\nY\"\x7d"
    let r' := Request.posting "/execute" "\x7b\"assembly\":[\"PUSH -7\",\"STORE .\"]\x7d"
    (assemble source.toLines).result = .ok is ∧
      assemble (AssemblySource.text "PUSH -7\nSTORE .").toLines = ⟨.ok is, []⟩ ∧
      ∃ answer answer', Service.respond r = .ok ⟨200, some answer⟩ ∧
        answer.member? "warnings" = some (.texts ["Illegal assembly instr X"]) ∧
        Service.respond r' = .ok ⟨200, some answer'⟩ ∧
        answer'.member? "symbol_table" = answer.member? "symbol_table" ∧
        answer'.member? "warnings" = some (.texts []) := by
  intro source is r r'
  have read : (assemble source.toLines).result.toOption = some is := by decide +kernel
  have assembled : (assemble source.toLines).result = .ok is := by
    cases result : (assemble source.toLines).result with
    | error f => simp [result, Except.toOption] at read
    | ok is' => simpa [result, Except.toOption] using read
  have posts : r.Posts "/execute" (.object [("assembly", source.json)]) :=
    Request.posts_posting (by decide +kernel)
  have posts' : r'.Posts "/execute" (.object [("assembly", .texts ["PUSH -7", "STORE ."])]) :=
    Request.posts_posting (by decide +kernel)
  have carried : (Json.object [("assembly", source.json)]).member? "assembly" =
      some source.json := rfl
  have writable : (Service.executeSource source).json.writable = true := by decide +kernel
  have status : (Service.executeSource source).status = 200 := by decide +kernel
  have warned : (Service.executeSource source).warnings = ["Illegal assembly instr X"] := by
    decide +kernel
  have responded : Service.respond r = .ok ⟨200, some (Service.executeSource source).json⟩ := by
    rw [Service.respond_execute_of_writable posts carried writable, status]
  obtain ⟨_, joined, answers⟩ := disassembly_read_back assembled
  obtain ⟨listed, again⟩ := answers r _ posts carried _ _ responded
  obtain ⟨answer', responded', same, unwarned⟩ := again r' _ posts' (.inl listed.symm)
  refine ⟨assembled, joined, _, answer', responded, ?_, responded', same _ (by decide), unwarned⟩
  rw [← warned]
  rfl

end PolishCalc
