import PolishCalc.Proofs.RunAnswers
import PolishCalc.Proofs.RunShape

namespace PolishCalc

namespace Json

mutual

/-- Equality up to the order of members. -/
def agrees : Json → Json → Bool
  | .null, .null => true
  | .bool a, .bool b => a = b
  | .integer a, .integer b => a = b
  | .real a, .real b => a = b
  | .text a, .text b => a = b
  | .list is, .list js => itemsAgree is js
  | .object ms, .object ns => ms.length = ns.length && membersAgree ms ns
  | _, _ => false

def itemsAgree : List Json → List Json → Bool
  | [], [] => true
  | i :: is, j :: js => i.agrees j && itemsAgree is js
  | _, _ => false

def membersAgree : List (String × Json) → List (String × Json) → Bool
  | [], _ => true
  | (name, i) :: ms, ns => (ns.lookup name).any i.agrees && membersAgree ms ns

end

inductive Part
  | text (s : String)
  | integer (n : Int)
  | tree (t : Tree)
  | trees (ts : List Tree)

/-- The node of which these are the parts, by name. -/
def node? (part : String → Option Part) : Option Tree :=
  match part "type" with
  | some (.text "Node") => some .bare
  | some (.text "Program") =>
    match part "actions" with
    | some (.trees ts) => some (.program ts)
    | _ => none
  | some (.text "Assign") =>
    match part "name", part "expr" with
    | some (.text x), some (.tree e) => some (.assign x e)
    | _, _ => none
  | some (.text "Print") =>
    match part "expr" with
    | some (.tree e) => some (.print e)
    | _ => none
  | some (.text "Constant") =>
    match part "value" with
    | some (.integer n) => some (.constant n)
    | _ => none
  | some (.text "Variable") =>
    match part "name" with
    | some (.text x) => some (.variable x)
    | _ => none
  | some (.text "UnaryOp") =>
    match part "op", part "operand" with
    | some (.text op), some (.tree e) => some (.unary op e)
    | _, _ => none
  | some (.text "BinaryOp") =>
    match part "op", part "left", part "right" with
    | some (.text op), some (.tree l), some (.tree r) => some (.binary op l r)
    | _, _, _ => none
  | _ => none

mutual

def part? : Json → Option Part
  | .null => some (.tree .missing)
  | .integer n => some (.integer n)
  | .text s => some (.text s)
  | .list items => (trees? items).map .trees
  | .object members => (node? fun name => ((parts members).lookup name).join).map .tree
  | _ => none

def trees? : List Json → Option (List Tree)
  | [] => some []
  | j :: js =>
    match j.part?, trees? js with
    | some (.tree t), some ts => some (t :: ts)
    | _, _ => none

def parts : List (String × Json) → List (String × Option Part)
  | [] => []
  | (name, j) :: ms => (name, j.part?) :: parts ms

end

/-- The tree that a value shows. Members are found by their names, in any order. -/
def tree? (j : Json) : Option Tree :=
  match j.part? with
  | some (.tree t) => some t
  | _ => none

end Json

namespace Tree

def expr? : Tree → Option Expr
  | .constant n => some (.constant n)
  | .variable x => some (.variable x)
  | .unary op e => do return .unary (← UnaryOp.ofSymbol? op) (← e.expr?)
  | .binary op l r => do return .binary (← BinaryOp.ofSymbol? op) (← l.expr?) (← r.expr?)
  | _ => none

def action? : Tree → Option Action
  | .assign x e => e.expr?.map (.assign x)
  | .print e => e.expr?.map .print
  | _ => none

/-- The program with this tree. -/
def program? : Tree → Option Program
  | .program actions => actions.mapM action?
  | _ => none

end Tree

namespace Json

theorem agrees_text {s : String} {j : Json} (h : (Json.text s).agrees j = true) : j = .text s := by
  cases j <;> simp_all [agrees]

theorem agrees_integer {n : Int} {j : Json} (h : (Json.integer n).agrees j = true) :
    j = .integer n := by
  cases j <;> simp_all [agrees]

theorem agrees_list {is : List Json} {j : Json} (h : (Json.list is).agrees j = true) :
    ∃ js, j = .list js ∧ itemsAgree is js = true := by
  cases j <;> simp_all [agrees]

theorem agrees_object {ms : List (String × Json)} {j : Json} (h : (object ms).agrees j = true) :
    ∃ ns, j = .object ns ∧ membersAgree ms ns = true := by
  cases j <;> simp_all [agrees]

def partAt (ns : List (String × Json)) (name : String) : Option Part :=
  (ns.lookup name).bind part?

theorem lookup_parts (ns : List (String × Json)) (name : String) :
    ((parts ns).lookup name).join = partAt ns name := by
  unfold partAt
  induction ns with
  | nil => rfl
  | cons m ns ih =>
    obtain ⟨k, j⟩ := m
    simp only [parts, List.lookup_cons]
    cases name == k
    · exact ih
    · rfl

theorem part?_object (ns : List (String × Json)) :
    (object ns).part? = (node? (partAt ns)).map .tree := by
  simp only [part?, lookup_parts]

theorem partAt_of_agree {ms ns : List (String × Json)} (agree : membersAgree ms ns = true)
    {name : String} {i : Json} (member : (name, i) ∈ ms) {v : Part}
    (read : ∀ j, i.agrees j = true → j.part? = some v) : partAt ns name = some v := by
  induction ms with
  | nil => simp at member
  | cons m ms ih =>
    obtain ⟨k, i'⟩ := m
    simp only [membersAgree, Bool.and_eq_true] at agree
    rcases List.mem_cons.mp member with same | later
    · cases same
      obtain ⟨j, found, agrees⟩ := (Option.any_eq_true _ _).mp agree.1
      rw [partAt, found]
      exact read j agrees
    · exact ih agree.2 later

theorem partAt_text {ms ns : List (String × Json)} (agree : membersAgree ms ns = true)
    {name s : String} (member : (name, Json.text s) ∈ ms) : partAt ns name = some (.text s) :=
  partAt_of_agree agree member fun _ h => by rw [agrees_text h, part?]

theorem partAt_integer {ms ns : List (String × Json)} (agree : membersAgree ms ns = true)
    {name : String} {n : Int} (member : (name, Json.integer n) ∈ ms) :
    partAt ns name = some (.integer n) :=
  partAt_of_agree agree member fun _ h => by rw [agrees_integer h, part?]

end Json

mutual

/-- Whatever agrees with the value of a tree shows that tree. -/
theorem Tree.part?_of_agrees : (t : Tree) → {j : Json} → t.json.agrees j = true →
    j.part? = some (.tree t)
  | .missing, j, h => by cases j <;> simp_all [json, Json.agrees, Json.part?]
  | .bare, j, h => by
    obtain ⟨ns, rfl, agree⟩ := Json.agrees_object h
    have type : Json.partAt ns "type" = some (.text "Node") :=
      Json.partAt_text agree (by simp)
    simp only [Json.part?_object, Json.node?, type, Option.map_some]
  | .program ts, j, h => by
    obtain ⟨ns, rfl, agree⟩ := Json.agrees_object h
    have type : Json.partAt ns "type" = some (.text "Program") :=
      Json.partAt_text agree (by simp)
    have list : ∀ j, (Json.list (jsonAll ts)).agrees j = true → j.part? = some (.trees ts) := by
      intro j h
      obtain ⟨js, rfl, items⟩ := Json.agrees_list h
      rw [Json.part?, trees?_of_agree ts items, Option.map_some]
    have actions : Json.partAt ns "actions" = some (.trees ts) :=
      Json.partAt_of_agree agree (by simp) list
    simp only [Json.part?_object, Json.node?, type, actions, Option.map_some]
  | .assign x e, j, h => by
    obtain ⟨ns, rfl, agree⟩ := Json.agrees_object h
    have type : Json.partAt ns "type" = some (.text "Assign") :=
      Json.partAt_text agree (by simp)
    have name : Json.partAt ns "name" = some (.text x) :=
      Json.partAt_text agree (by simp)
    have expr : Json.partAt ns "expr" = some (.tree e) :=
      Json.partAt_of_agree agree (by simp) fun _ => e.part?_of_agrees
    simp only [Json.part?_object, Json.node?, type, name, expr, Option.map_some]
  | .print e, j, h => by
    obtain ⟨ns, rfl, agree⟩ := Json.agrees_object h
    have type : Json.partAt ns "type" = some (.text "Print") :=
      Json.partAt_text agree (by simp)
    have expr : Json.partAt ns "expr" = some (.tree e) :=
      Json.partAt_of_agree agree (by simp) fun _ => e.part?_of_agrees
    simp only [Json.part?_object, Json.node?, type, expr, Option.map_some]
  | .constant n, j, h => by
    obtain ⟨ns, rfl, agree⟩ := Json.agrees_object h
    have type : Json.partAt ns "type" = some (.text "Constant") :=
      Json.partAt_text agree (by simp)
    have value : Json.partAt ns "value" = some (.integer n) :=
      Json.partAt_integer agree (by simp)
    simp only [Json.part?_object, Json.node?, type, value, Option.map_some]
  | .variable x, j, h => by
    obtain ⟨ns, rfl, agree⟩ := Json.agrees_object h
    have type : Json.partAt ns "type" = some (.text "Variable") :=
      Json.partAt_text agree (by simp)
    have name : Json.partAt ns "name" = some (.text x) :=
      Json.partAt_text agree (by simp)
    simp only [Json.part?_object, Json.node?, type, name, Option.map_some]
  | .unary op e, j, h => by
    obtain ⟨ns, rfl, agree⟩ := Json.agrees_object h
    have type : Json.partAt ns "type" = some (.text "UnaryOp") :=
      Json.partAt_text agree (by simp)
    have symbol : Json.partAt ns "op" = some (.text op) :=
      Json.partAt_text agree (by simp)
    have operand : Json.partAt ns "operand" = some (.tree e) :=
      Json.partAt_of_agree agree (by simp) fun _ => e.part?_of_agrees
    simp only [Json.part?_object, Json.node?, type, symbol, operand, Option.map_some]
  | .binary op l r, j, h => by
    obtain ⟨ns, rfl, agree⟩ := Json.agrees_object h
    have type : Json.partAt ns "type" = some (.text "BinaryOp") :=
      Json.partAt_text agree (by simp)
    have symbol : Json.partAt ns "op" = some (.text op) :=
      Json.partAt_text agree (by simp)
    have left : Json.partAt ns "left" = some (.tree l) :=
      Json.partAt_of_agree agree (by simp) fun _ => l.part?_of_agrees
    have right : Json.partAt ns "right" = some (.tree r) :=
      Json.partAt_of_agree agree (by simp) fun _ => r.part?_of_agrees
    simp only [Json.part?_object, Json.node?, type, symbol, left, right, Option.map_some]

theorem Tree.trees?_of_agree : (ts : List Tree) → {js : List Json} →
    Json.itemsAgree (jsonAll ts) js = true → Json.trees? js = some ts
  | [], js, h => by cases js <;> simp_all [jsonAll, Json.itemsAgree, Json.trees?]
  | t :: ts, [], h => by simp [jsonAll, Json.itemsAgree] at h
  | t :: ts, j :: js, h => by
    simp only [jsonAll, Json.itemsAgree, Bool.and_eq_true] at h
    simp only [Json.trees?, t.part?_of_agrees h.1, trees?_of_agree ts h.2]

end

mutual

theorem Tree.json_agrees : (t : Tree) → t.json.agrees t.json = true
  | .missing => rfl
  | .bare => by simp [json, Json.agrees, Json.membersAgree]
  | .program ts => by
    simp [json, Json.agrees, Json.membersAgree, List.lookup_cons, jsonAll_agree ts]
  | .assign x e => by simp [json, Json.agrees, Json.membersAgree, List.lookup_cons, e.json_agrees]
  | .print e => by simp [json, Json.agrees, Json.membersAgree, List.lookup_cons, e.json_agrees]
  | .constant n => by simp [json, Json.agrees, Json.membersAgree, List.lookup_cons]
  | .variable x => by simp [json, Json.agrees, Json.membersAgree, List.lookup_cons]
  | .unary op e => by simp [json, Json.agrees, Json.membersAgree, List.lookup_cons, e.json_agrees]
  | .binary op l r => by
    simp [json, Json.agrees, Json.membersAgree, List.lookup_cons, l.json_agrees, r.json_agrees]

theorem Tree.jsonAll_agree : (ts : List Tree) → Json.itemsAgree (jsonAll ts) (jsonAll ts) = true
  | [] => rfl
  | t :: ts => by simp [jsonAll, Json.itemsAgree, t.json_agrees, jsonAll_agree ts]

end

theorem Tree.tree?_of_agrees {t : Tree} {j : Json} (h : t.json.agrees j = true) :
    j.tree? = some t := by
  rw [Json.tree?, t.part?_of_agrees h]

theorem Tree.json_agrees_iff {t u : Tree} : t.json.agrees u.json = true ↔ t = u := by
  constructor
  · intro h
    have shown := tree?_of_agrees h
    rw [tree?_of_agrees u.json_agrees, Option.some.injEq] at shown
    exact shown.symm
  · rintro rfl
    exact t.json_agrees

theorem Expr.expr?_tree (e : Expr) : e.tree.expr? = some e := by
  induction e with
  | constant n => rfl
  | «variable» x => rfl
  | unary op e ih =>
    have symbol : UnaryOp.ofSymbol? op.symbol = some op := by cases op <;> decide
    simp [tree, Tree.expr?, symbol, ih]
  | binary op l r ihl ihr =>
    have symbol : BinaryOp.ofSymbol? op.symbol = some op := by cases op <;> decide
    simp [tree, Tree.expr?, symbol, ihl, ihr]

theorem Action.action?_tree (a : Action) : a.tree.action? = some a := by
  cases a <;> simp [tree, Tree.action?, Expr.expr?_tree]

theorem Program.program?_tree (p : Program) : p.tree.program? = some p := by
  rw [tree, Tree.program?]
  induction p with
  | nil => rfl
  | cons a p ih => simp [Action.action?_tree, ih]

def Json.program? (j : Json) : Option Program :=
  j.tree?.bind Tree.program?

theorem Program.program?_of_agrees {p : Program} {j : Json} (h : p.tree.json.agrees j = true) :
    j.program? = some p := by
  rw [Json.program?, Tree.tree?_of_agrees h, Option.bind_some, p.program?_tree]

theorem Run.Ending.kept {ts : List String} {r : Run} (h : Run.Ending ts (.ok r)) :
    r.tokens = ts ∧ ((∃ f, parse ts = .error f) ∧ r.program = none ∨
      ∃ p, parse ts = .ok p ∧ r.program = some p ∧ r.display = p.map Action.text ∧
        (.compile ∈ r.phases → r.assembly = p.code.map Instruction.text)) := by
  cases h with
  | unparsed parsed => exact ⟨rfl, .inl ⟨⟨_, parsed⟩, rfl⟩⟩
  | interrupted parsed => exact ⟨rfl, .inr ⟨_, parsed, rfl, rfl, by simp⟩⟩
  | unassembled parsed => exact ⟨rfl, .inr ⟨_, parsed, rfl, rfl, fun _ => rfl⟩⟩
  | halted parsed => exact ⟨rfl, .inr ⟨_, parsed, rfl, rfl, fun _ => rfl⟩⟩
  | complete parsed => exact ⟨rfl, .inr ⟨_, parsed, rfl, rfl, fun _ => rfl⟩⟩

namespace Service

/-- The tokens that a value asks to run, or the words of its text. -/
def asked? (data : Json) : Option (List String) :=
  match data.member? "tokens" with
  | some (.list items) => some (items.map Json.token)
  | some _ => none
  | none =>
    match data.member? "code" with
    | some (.text s) => some (words s)
    | _ => none

theorem run_of_status {data : Option Json} (ok : (run data).status = 200) :
    ∃ ts, asked? (data.getD .null) = some ts ∧ run data = runProgram ts := by
  rcases tokens : (data.getD .null).member? "tokens" with _ | v
  · rcases code : (data.getD .null).member? "code" with _ | v
    · simp only [run, tokens, code] at ok
      cases ok
    · cases v with
      | text s =>
        exact ⟨words s, by simp only [asked?, tokens, code], by simp only [run, tokens, code]⟩
      | _ =>
        simp only [run, tokens, code] at ok
        cases ok
  · cases v with
    | list items =>
      exact ⟨items.map Json.token, by simp only [asked?, tokens], by simp only [run, tokens]⟩
    | _ =>
      simp only [run, tokens] at ok
      cases ok

theorem runProgram_of_status {ts : List String} (ok : (runProgram ts).status = 200) :
    ∃ r, runTokens ts = .ok r ∧
      runProgram ts = answer 200 (runJson r (r.errors.map Fault.report)) := by
  unfold runProgram at ok ⊢
  split at ok
  next => cases ok
  next r run =>
    dsimp only at ok
    split at ok
    next writable => exact ⟨r, run, by simp only [writable, if_true]⟩
    next => cases ok

theorem respond_of_status {r : Request} {d : Destination} {response : Response}
    (sent : r.destination = .ok d) (path : d.path = "/run".toList)
    (responded : respond r = .ok response) (ok : response.status = 200)
    (verb : r.verb ≠ "OPTIONS") : response = run r.data := by
  have route : Route.ofPath? "/run".toList = some .run := by decide
  simp only [respond, sent, bind, Except.bind] at responded
  split at responded
  next => cases responded; cases ok
  next =>
    simp only [respondTo, path, route, Except.ok.injEq] at responded
    split at responded
    next => rw [← responded, Route.answer, if_neg verb]
    next => rw [← responded] at ok; cases ok

/-- What an answer shows of the program that its tokens are parsed to. -/
structure ShowsTree (ts : List String) (answer : Json) : Prop where
  empty_iff : answer.member? "ast" = some (.object []) ↔
    (∃ f, parse ts = .error f) ∨ parse ts = .ok []
  rebuilt : answer.member? "ast" ≠ some (.object []) →
    ∃ ast t p lines phases, answer.member? "ast" = some ast ∧
      ast.member? "type" = some (.text "Program") ∧ ast.tree? = some t ∧
      t.program? = some p ∧ parse ts = .ok p ∧
      answer.member? "display" = some (.texts lines) ∧ t.display = .ok (.block (lines.map .line)) ∧
      answer.member? "phases" = some (.texts phases) ∧
      ("compile" ∈ phases → ∃ ls, answer.member? "assembly" = some (.texts ls) ∧
        t.compile = .ok ls)

theorem compile_mem_of_name {ps : List Phase} (h : "compile" ∈ ps.map Phase.name) :
    .compile ∈ ps := by
  obtain ⟨phase, mem, name⟩ := List.mem_map.mp h
  cases phase with
  | compile => exact mem
  | parse => exact absurd name (by decide)
  | interpret => exact absurd name (by decide)
  | execute => exact absurd name (by decide)

theorem runJson_showsTree {ts : List String} {r : Run} (errors : List String)
    (ending : Run.Ending ts (.ok r)) : ShowsTree ts (runJson r errors) := by
  have ast : (runJson r errors).member? "ast" = some (programJson r.program) := rfl
  obtain ⟨_, ⟨⟨f, unparsed⟩, none⟩ | ⟨p, parsed, program, display, assembly⟩⟩ := ending.kept
  · rw [none] at ast
    exact ⟨⟨fun _ => .inl ⟨f, unparsed⟩, fun _ => ast⟩, fun shown => absurd ast shown⟩
  rw [program] at ast
  cases p with
  | nil => exact ⟨⟨fun _ => .inr parsed, fun _ => ast⟩, fun shown => absurd ast shown⟩
  | cons a p =>
    have handled := (parse_wellFormed parsed).handled
    refine ⟨?_, fun _ => ?_⟩
    · rw [ast, parsed]
      simp [programJson, Program.tree, Tree.json]
    · have shown := Tree.tree?_of_agrees (Tree.json_agrees (Program.tree (a :: p)))
      refine ⟨_, _, _, r.display, r.phases.map Phase.name, ast, rfl, shown,
        Program.program?_tree _, parsed, rfl, ?_, rfl, ?_⟩
      · rw [handled.displayed, display, List.map_map]
        rfl
      · intro reached
        exact ⟨r.assembly, rfl, by rw [handled.compiled, assembly (compile_mem_of_name reached)]⟩

end Service

/-- A tree can be rebuilt from its value, so no two trees have values that agree; a program that was
parsed can be rebuilt from anything that agrees with its value. In the answer to a run the value is
empty if there is nothing to show; otherwise the program that is rebuilt from it is the one that is
displayed and compiled in the same answer. -/
theorem tree_value_faithful :
    (∀ t u : Tree, t.json.tree? = some t ∧ (t.json.agrees u.json = true ↔ t = u)) ∧
    (∀ ts p, parse ts = .ok p → p.tree.json.writable = true ∧
      ∀ j, p.tree.json.agrees j = true → j.program? = some p) ∧
    ∀ (r : Request) (d : Destination) (response : Response), r.destination = .ok d →
      d.path = "/run".toList → Service.respond r = .ok response → response.status = 200 →
      r.verb ≠ "OPTIONS" →
      ∃ answer ts, response.document = some answer ∧
        Service.asked? (r.data.getD .null) = some ts ∧
        answer.member? "tokens" = some (.texts ts) ∧ Service.ShowsTree ts answer := by
  refine ⟨fun t u => ⟨Tree.tree?_of_agrees t.json_agrees, Tree.json_agrees_iff⟩, ?_, ?_⟩
  · intro ts p parsed
    refine ⟨?_, fun j agrees => Program.program?_of_agrees agrees⟩
    rw [p.json_writable]
    exact (parse_wellFormed parsed).writable_eq
  · intro r d response sent path responded ok verb
    have answered := Service.respond_of_status sent path responded ok verb
    rw [answered] at ok
    obtain ⟨ts, asked, ran⟩ := Service.run_of_status ok
    rw [ran] at ok
    obtain ⟨kept, run, document⟩ := Service.runProgram_of_status ok
    have ending := runTokens_ending ts
    rw [run] at ending
    refine ⟨_, ts, by rw [answered, ran, document]; rfl, asked, ?_,
      Service.runJson_showsTree _ ending⟩
    rw [← ending.kept.1]
    rfl

/-- A run through all phases, with its program rebuilt from the answer. -/
theorem completed_run_shows_tree :
    let p : Program := [.assign "x" (.unary .negate (.constant 3)), .print (.variable "x")]
    let r := Request.posting "/run" "\x7b\"code\":\":= x _ 3 # x\"\x7d"
    ∃ answer, Service.respond r = .ok ⟨200, some answer⟩ ∧
      (∃ ast, answer.member? "ast" = some ast ∧ ast.program? = some p) ∧
      Service.ShowsTree p.tokens answer := by
  intro p r
  have hwords : words ":= x _ 3 # x" = p.tokens := by decide +kernel
  have tokens : ∀ t ∈ words ":= x _ 3 # x", IsWord t := fun t ht => isWord_of_mem_words ht
  have parsed : parse p.tokens = .ok p := parse_tokens (by decide +kernel)
  have state : (Session.empty.execute p).state = ⟨[("x", -3)], ["=== -3"]⟩ := by decide +kernel
  have failure : (Session.empty.execute p).failure = none := by decide +kernel
  have interpreted : Session.empty.execute p = ⟨⟨[("x", -3)], ["=== -3"]⟩, none⟩ := by
    rw [← state, ← failure]
  rw [hwords] at tokens
  obtain ⟨log, answered⟩ :=
    Service.runProgram_of_done tokens parsed interpreted (by decide +kernel)
  have posts : r.Posts "/run" (.object [("code", .text ":= x _ 3 # x")]) :=
    Request.posts_posting (by decide +kernel)
  have responded := Service.respond_run_code posts rfl rfl
  rw [hwords, answered] at responded
  obtain ⟨_, rebuilt, shown⟩ := tree_value_faithful
  have sent : r.destination = .ok ⟨[], "/run".toList⟩ := posts.destination_eq rfl
  have verb : r.verb ≠ "OPTIONS" := by rw [posts.verb]; decide
  obtain ⟨answer, ts, document, asked, _, shows⟩ := shown r _ _ sent rfl responded rfl verb
  cases document
  have asked' : Service.asked? (r.data.getD .null) = some (words ":= x _ 3 # x") := by
    rw [posts.data]
    rfl
  rw [asked, hwords, Option.some.injEq] at asked'
  subst asked'
  exact ⟨_, responded, ⟨_, rfl, (rebuilt _ p parsed).2 _ (Tree.json_agrees _)⟩, shows⟩

end PolishCalc
