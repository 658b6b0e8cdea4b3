import PolishCalc.Proofs.Reached
import PolishCalc.Proofs.RunAnswers
import PolishCalc.Proofs.Stops

namespace PolishCalc

/-- The ways in which a run can meet the digit limit: a numeral that is too long to be read, a huge
value to be printed, a huge negative value under a root, or a huge value that is still stored when
the interpreter ends. -/
inductive Run.MeetsLimit (ts : List String) : Prop
  | numeral {t : String} {ds : List Char} {n : Int} (reached : Reaches ts .operand t)
      (form : Numeral t ds n) (long : digitLimit < ds.length)
  | printed {before after : Program} {e : Expr} {s : Session} {v : Int}
      (parsed : parse ts = .ok (before ++ .print e :: after))
      (done : Session.empty.execute before = ⟨s, none⟩) (value : e.evaluate s.symbols = .ok v)
      (huge : Huge v)
  | root {before after : Program} {a : Action} {s : Session} {v : Int}
      (parsed : parse ts = .ok (before ++ a :: after))
      (done : Session.empty.execute before = ⟨s, none⟩)
      (stops : a.expr.StopsBy s.symbols (.negativeRoot v)) (huge : Huge v)
  | stored {p : Program} {s : Session} {failure : Option Failure} {x : String} {v : Int}
      (parsed : parse ts = .ok p) (interpreted : Session.empty.execute p = ⟨s, failure⟩)
      (ended : failure = none ∨ ∃ f, failure = some (.fault f)) (entry : (x, v) ∈ s.symbols)
      (huge : Huge v)

theorem Table.exists_huge_iff {t : Table} : (∃ x v, (x, v) ∈ t ∧ Huge v) ↔ t.writable = false := by
  simp [writable, huge_iff, List.all_eq_false]

theorem Program.WellFormed.action_writable {p : Program} (h : p.WellFormed) {a : Action}
    (ha : a ∈ p) : a.expr.writable = true :=
  List.all_eq_true.mp h.writable_eq a ha

/-- The interpreter meets the digit limit only where it prints or takes a root. -/
theorem Run.MeetsLimit.of_interrupted {ts : List String} {p : Program} {s : Session}
    {l : DigitLimit} (parsed : parse ts = .ok p)
    (interpreted : Session.empty.execute p = ⟨s, some (.limit l)⟩) : Run.MeetsLimit ts := by
  obtain ⟨before, a, after, rfl, done, failed⟩ := Session.execute_eq_failed_iff.mp interpreted
  have writable := (parse_wellFormed parsed).action_writable (a := a) (by simp)
  obtain ⟨⟨v, stops, huge⟩ | ⟨e, v, rfl, value, huge⟩, _⟩ :=
    (Session.act_eq_limit_iff writable).mp failed
  · exact .root parsed done stops huge
  · exact .printed parsed done value huge

theorem Run.MeetsLimit.of_stored {ts : List String} {p : Program} {s : Session}
    {failure : Option Failure} (parsed : parse ts = .ok p)
    (interpreted : Session.empty.execute p = ⟨s, failure⟩)
    (ended : failure = none ∨ ∃ f, failure = some (.fault f))
    (unwritable : s.symbols.writable = false) : Run.MeetsLimit ts := by
  obtain ⟨x, v, entry, huge⟩ := Table.exists_huge_iff.mpr unwritable
  exact .stored parsed interpreted ended entry huge

theorem execute_eq_limit_of_huge {ts : List String} {before after : Program} {a : Action}
    {s : Session} (parsed : parse ts = .ok (before ++ a :: after))
    (done : Session.empty.execute before = ⟨s, none⟩)
    (met : (∃ v, a.expr.StopsBy s.symbols (.negativeRoot v) ∧ Huge v) ∨
      ∃ e v, a = .print e ∧ e.evaluate s.symbols = .ok v ∧ Huge v) :
    Session.empty.execute (before ++ a :: after) = ⟨s, some (.limit .writing)⟩ := by
  have writable := (parse_wellFormed parsed).action_writable (a := a) (by simp)
  have failed := (Session.act_eq_limit_iff writable).mpr ⟨met, rfl⟩
  exact Session.execute_eq_failed_iff.mpr ⟨before, a, after, rfl, done, failed⟩

/-- What meeting the digit limit comes to: the parser or the interpreter fails for it, or the table
that the interpreter leaves cannot be written. -/
theorem Run.MeetsLimit.outcome {ts : List String} (h : Run.MeetsLimit ts) :
    (∃ l, parse ts = .error (.limit l)) ∨
      ∃ p s failure, parse ts = .ok p ∧ Session.empty.execute p = ⟨s, failure⟩ ∧
        ((∃ l, failure = some (.limit l)) ∨ s.symbols.writable = false) := by
  cases h with
  | numeral reached form long =>
    exact .inl ⟨_, parse_eq_limit_iff.mpr ⟨_, _, _, reached, form, long, rfl⟩⟩
  | @printed before after e s v parsed done value huge =>
    have failed := execute_eq_limit_of_huge parsed done (.inr ⟨e, v, rfl, value, huge⟩)
    exact .inr ⟨_, s, _, parsed, failed, .inl ⟨_, rfl⟩⟩
  | @root before after a s v parsed done stops huge =>
    have failed := execute_eq_limit_of_huge parsed done (.inl ⟨v, stops, huge⟩)
    exact .inr ⟨_, s, _, parsed, failed, .inl ⟨_, rfl⟩⟩
  | @stored p s failure x v parsed interpreted _ entry huge =>
    exact .inr ⟨p, s, failure, parsed, interpreted,
      .inr (Table.exists_huge_iff.mp ⟨x, v, entry, huge⟩)⟩

theorem Run.MeetsLimit.of_runTokens_error {ts : List String} {l : DigitLimit}
    (tokens : ∀ t ∈ ts, IsWord t) (run : runTokens ts = .error l) : Run.MeetsLimit ts := by
  have ending := runTokens_wordEnding tokens
  rw [run] at ending
  cases ending with
  | unparsedLimit parsed =>
    obtain ⟨t, ds, n, reached, form, long, _⟩ := parse_eq_limit_iff.mp parsed
    exact .numeral reached form long
  | interruptedLimit parsed interpreted => exact .of_interrupted parsed interpreted

/-- A run that is not cut short by the digit limit meets it only in the table to be answered. -/
theorem Run.meetsLimit_iff_of_runTokens_ok {ts : List String} {r : Run}
    (tokens : ∀ t ∈ ts, IsWord t) (run : runTokens ts = .ok r) :
    Run.MeetsLimit ts ↔ r.symbols.writable = false := by
  have ending := runTokens_wordEnding tokens
  rw [run] at ending
  constructor
  · intro met
    rcases met.outcome with ⟨l, limited⟩ | ⟨p, s, failure, parsed', interpreted', limited⟩
    · cases ending <;> simp_all
    · cases ending with
      | unparsed parsed => simp [parsed] at parsed'
      | interrupted parsed interpreted =>
        cases parsed.symm.trans parsed'
        cases interpreted.symm.trans interpreted'
        simpa [Run.interrupted] using limited
      | complete parsed interpreted =>
        cases parsed.symm.trans parsed'
        cases interpreted.symm.trans interpreted'
        simpa [Run.completed] using limited
  · intro stored
    cases ending with
    | unparsed => simp [Run.start, Table.writable] at stored
    | interrupted parsed interpreted => exact .of_stored parsed interpreted (.inr ⟨_, rfl⟩) stored
    | complete parsed interpreted => exact .of_stored parsed interpreted (.inl rfl) stored

namespace Service

theorem runProgram_broken_or_answered {ts : List String} (tokens : ∀ t ∈ ts, IsWord t) :
    (Run.MeetsLimit ts ∧ ∃ l, runProgram ts = brokenRun ts l) ∨
      (¬ Run.MeetsLimit ts ∧ ∃ document, runProgram ts = answer 200 document) := by
  cases run : runTokens ts with
  | error l => exact .inl ⟨.of_runTokens_error tokens run, l, runProgram_of_error run⟩
  | ok r =>
    rw [Run.meetsLimit_iff_of_runTokens_ok tokens run, runProgram_of_ok tokens run]
    cases r.symbols.writable with
    | false => exact .inl ⟨rfl, .writing, rfl⟩
    | true => exact .inr ⟨by decide, _, rfl⟩

/-- The answer to a run that the digit limit ended, in full: nothing but the tokens and a message. -/
theorem brokenRun_eq (ts : List String) (l : DigitLimit) :
    brokenRun ts l = ⟨500, some (.object [
      ("tokens", .texts ts), ("ast", .object []), ("display", .texts []), ("output", .texts []),
      ("symbol_table", .object []), ("assembly", .texts []), ("warnings", .texts []),
      ("machine_output", .texts []), ("stack_depth", .null), ("machine_symbol_table", .object []),
      ("phases", .texts []), ("errors", .texts ["Unexpected error: " ++ l.message])])⟩ := rfl

end Service

/-- Tokens that are words, posted to be run. The answer has status 500 if and only if the run meets
the digit limit; it then holds nothing but the tokens and one error. In all other cases it has
status 200. -/
theorem run_broken_iff_meets_limit {ts : List String} {r : Request} {data : Json}
    (tokens : ∀ t ∈ ts, IsWord t) (posts : r.Posts "/run" data)
    (carried : data.member? "tokens" = some (.texts ts)) :
    ∃ response, Service.respond r = .ok response ∧
      (response.status = 500 ↔ Run.MeetsLimit ts) ∧
      (response.status = 500 → ∃ message, response.document = some (.object [
        ("tokens", .texts ts), ("ast", .object []), ("display", .texts []), ("output", .texts []),
        ("symbol_table", .object []), ("assembly", .texts []), ("warnings", .texts []),
        ("machine_output", .texts []), ("stack_depth", .null),
        ("machine_symbol_table", .object []), ("phases", .texts []),
        ("errors", .texts ["Unexpected error: " ++ message])])) ∧
      (response.status ≠ 500 → response.status = 200) := by
  refine ⟨_, Service.respond_run_tokens posts carried, ?_⟩
  rcases Service.runProgram_broken_or_answered tokens with
    ⟨met, l, answered⟩ | ⟨unmet, document, answered⟩
  · rw [answered, Service.brokenRun_eq]
    exact ⟨by simp [met], fun _ => ⟨l.message, rfl⟩, fun h => absurd rfl h⟩
  · rw [answered, Service.answer]
    exact ⟨by simp [unmet], by simp, fun _ => rfl⟩

/-- A name raised to its fourth power four times: nothing fails, and a huge value is stored. -/
theorem fourth_powers_meet_limit :
    let power := [":=", "a", "*", "a", "*", "a", "*", "a", "a"]
    let powerText := ",\":=\",\"a\",\"*\",\"a\",\"*\",\"a\",\"*\",\"a\",\"a\""
    let ts := [":=", "a", "99999999999999999999"] ++ power ++ power ++ power ++ power
    let r := Request.posting "/run" ("\x7b\"tokens\":[\":=\",\"a\",\"99999999999999999999\"" ++
      powerText ++ powerText ++ powerText ++ powerText ++ "]\x7d")
    ∃ response document message, Service.respond r = .ok response ∧ response.status = 500 ∧
      response.document = some document ∧ document.member? "tokens" = some (.texts ts) ∧
      document.member? "errors" = some (.texts ["Unexpected error: " ++ message]) := by
  intro power powerText ts r
  let a : Action := .assign "a" (.binary .mul (.variable "a")
    (.binary .mul (.variable "a") (.binary .mul (.variable "a") (.variable "a"))))
  let p : Program := [.assign "a" (.constant 99999999999999999999), a, a, a, a]
  have tokens : ∀ t ∈ ts, IsWord t := by decide +kernel
  have parsed : parse p.tokens = .ok p := parse_tokens (by decide +kernel)
  have listed : p.tokens = ts := by decide +kernel
  have posts : r.Posts "/run" (.object [("tokens", .texts ts)]) :=
    Request.posts_posting (by decide +kernel)
  have failure : (Session.empty.execute p).failure = none := by decide +kernel
  have unwritable : (Session.empty.execute p).state.symbols.writable = false := by decide +kernel
  rw [listed] at parsed
  have met : Run.MeetsLimit ts := .of_stored parsed rfl (.inl failure) unwritable
  obtain ⟨response, responded, broken, alone, _⟩ := run_broken_iff_meets_limit tokens posts rfl
  obtain ⟨message, document⟩ := alone (broken.mpr met)
  exact ⟨response, _, message, responded, broken.mpr met, document, rfl, rfl⟩

/-- A numeral that is too long to be read, but stands where a name has to stand. The parser comes to
it and finds nothing wrong before it, and the run is still answered with status 200. -/
theorem long_target_answered :
    let x := String.ofList (List.replicate (digitLimit + 1) '1')
    let ts := [":=", x, "5"]
    (∀ t ∈ ts, IsWord t) ∧ Reaches ts .target x ∧
      (∃ ds n, Numeral x ds n ∧ digitLimit < ds.length) ∧
      (Service.run (some (.object [("tokens", .texts ts)]))).status = 200 := by
  intro x ts
  have ones : ∀ c ∈ List.replicate (digitLimit + 1) '1', '0' ≤ c ∧ c ≤ '9' := by
    intro c hc
    rw [List.eq_of_mem_replicate hc]
    decide
  have form : Numeral x (List.replicate (digitLimit + 1) '1') _ := .plain _ (by simp) ones
  have hx : isNumeral x = true := isNumeral_iff.mpr ⟨_, _, form⟩
  have tokens : ∀ t ∈ ts, IsWord t := by
    simp only [ts, List.mem_cons, List.not_mem_nil, or_false, forall_eq_or_imp, forall_eq]
    exact ⟨by decide, form.isWord, by decide⟩
  have parsed := parse_numeral_target hx (.numeral (.plain ['5'] (by simp) (by simp)) (by decide))
  have unmet : ¬ Run.MeetsLimit ts := by
    intro met
    rcases met.outcome with ⟨l, limited⟩ | ⟨p, _, _, accepted, _⟩
    · simp [ts, parsed] at limited
    · simp [ts, parsed] at accepted
  refine ⟨tokens, .target, ⟨_, _, form, by simp⟩, ?_⟩
  have posted : Service.run (some (.object [("tokens", .texts ts)])) = Service.runProgram ts := rfl
  rcases Service.runProgram_broken_or_answered tokens with ⟨met, _⟩ | ⟨_, document, answered⟩
  · exact absurd met unmet
  · rw [posted, answered, Service.answer]

end PolishCalc
