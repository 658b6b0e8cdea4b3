import PolishCalc.Service

namespace PolishCalc

namespace Json

mutual

/-- Equality of values, as a test. -/
def same : Json → Json → Bool
  | .null, .null => true
  | .bool a, .bool b => a = b
  | .integer a, .integer b => a = b
  | .real a, .real b => a = b
  | .text a, .text b => a = b
  | .list is, .list js => sameItems is js
  | .object ms, .object ns => sameMembers ms ns
  | _, _ => false

def sameItems : List Json → List Json → Bool
  | [], [] => true
  | i :: is, j :: js => i.same j && sameItems is js
  | _, _ => false

def sameMembers : List (String × Json) → List (String × Json) → Bool
  | [], [] => true
  | (k, i) :: ms, (l, j) :: ns => k = l && i.same j && sameMembers ms ns
  | _, _ => false

end

mutual

theorem same_iff : (i j : Json) → (i.same j = true ↔ i = j)
  | .null, j => by cases j <;> simp [same]
  | .bool a, j => by cases j <;> simp [same]
  | .integer a, j => by cases j <;> simp [same]
  | .real a, j => by cases j <;> simp [same]
  | .text a, j => by cases j <;> simp [same]
  | .list is, j => by cases j <;> simp [same, sameItems_iff is]
  | .object ms, j => by cases j <;> simp [same, sameMembers_iff ms]

theorem sameItems_iff : (is js : List Json) → (sameItems is js = true ↔ is = js)
  | [], js => by cases js <;> simp [sameItems]
  | i :: is, js => by cases js <;> simp [sameItems, same_iff i, sameItems_iff is]

theorem sameMembers_iff : (ms ns : List (String × Json)) → (sameMembers ms ns = true ↔ ms = ns)
  | [], ns => by cases ns <;> simp [sameMembers]
  | (k, i) :: ms, ns => by
    cases ns <;> simp [sameMembers, same_iff i, sameMembers_iff ms, Prod.ext_iff]

end

instance : DecidableEq Json := fun i j => decidable_of_iff _ (same_iff i j)

end Json

/-- A request that posts a value to a path: any spelling of the method, any content type that stands
for JSON and any encoding of the value will do. -/
structure Request.Posts (r : Request) (path : String) (data : Json) : Prop where
  verb : r.verb = "POST"
  target : r.target = path
  header : ∀ c ∈ (r.contentType.getD "").toList, c ≠ '\r' ∧ c ≠ '\n'
  data : r.data = some data

theorem Request.Posts.destination_eq {r : Request} {path : String} {data : Json} {d : Destination}
    (posts : r.Posts path data) (sent : PolishCalc.destination path = .ok d) :
    r.destination = .ok d := by
  have header : ((r.contentType.getD "").toList.any fun c => c = '\r' || c = '\n') = false := by
    rw [List.any_eq_false]
    intro c hc
    simpa using posts.header c hc
  unfold Request.destination
  rw [posts.target, sent]
  simp only [header]
  rfl

/-- The usual request that posts a document. -/
def Request.posting (path document : String) : Request :=
  ⟨"POST", path, some "application/json", some document.toByteArray.data.toList⟩

theorem Request.posts_posting {path document : String} {data : Json}
    (read : Json.ofBytes? document.toByteArray.data.toList = some data) :
    (Request.posting path document).Posts path data := by
  have verb : inCapitals "POST" = "POST" := by decide
  have unbroken : "application/json".toList.all (fun c => c != '\r' && c != '\n') = true := by
    decide
  have json : isJsonType "application/json" = true := by decide
  refine ⟨verb, rfl, ?_, ?_⟩
  · intro c hc
    simpa using List.all_eq_true.mp unbroken c hc
  · simp [Request.data, posting, json, read]

/-- Assembly text as it is posted. -/
def AssemblySource.json : AssemblySource → Json
  | .text s => .text s
  | .lines ls => .texts ls

namespace Service

/-- What is posted to one of the two paths for programs gets to the route of that name. -/
theorem respond_of_posts {r : Request} {path : String} {data : Json} (route : Route)
    (posts : r.Posts path data)
    (known : (path, route) ∈ [("/run", Route.run), ("/execute", Route.execute)]) :
    respond r = .ok (route.answer r) := by
  have paths : ∀ q ∈ [("/run", Route.run), ("/execute", Route.execute)],
      destination q.1 = .ok ⟨[], q.1.toList⟩ ∧ Route.ofPath? q.1.toList = some q.2 ∧
        q.2.takes "POST" = true := by
    intro q hq
    simp only [List.mem_cons, List.not_mem_nil, or_false] at hq
    rcases hq with rfl | rfl
    · exact ⟨rfl, by decide, by decide⟩
    · exact ⟨rfl, by decide, by decide⟩
  obtain ⟨sent, reached, taken⟩ := paths _ known
  have made : r.destination = .ok ⟨[], path.toList⟩ := posts.destination_eq sent
  have labels : Url.checkLabels [] = .ok () := rfl
  simp only [respond, made, bind, Except.bind, List.takeWhile_nil, labels, respondTo, reached,
    posts.verb, taken, if_true]

theorem texts?_map_text (ls : List String) : texts? (ls.map .text) = some ls := by
  induction ls with
  | nil => rfl
  | cons l ls ih => simp [texts?, ih]

theorem respond_execute {r : Request} {data : Json} {source : AssemblySource}
    (posts : r.Posts "/execute" data) (carried : data.member? "assembly" = some source.json) :
    respond r = .ok (executeProgram source) := by
  rw [respond_of_posts .execute posts (by simp), Route.answer, posts.verb,
    if_neg (by decide)]
  simp only [execute, posts.data, Option.getD_some, carried]
  cases source with
  | text s => rfl
  | lines ls => simp only [AssemblySource.json, Json.texts, texts?_map_text]

theorem respond_execute_of_writable {r : Request} {data : Json} {source : AssemblySource}
    (posts : r.Posts "/execute" data) (carried : data.member? "assembly" = some source.json)
    (writable : (executeSource source).json.writable = true) :
    respond r = .ok ⟨(executeSource source).status, some (executeSource source).json⟩ := by
  rw [respond_execute posts carried, executeProgram]
  simp only [writable, if_true, answer]

theorem respond_run_tokens {r : Request} {data : Json} {ts : List String}
    (posts : r.Posts "/run" data) (carried : data.member? "tokens" = some (.texts ts)) :
    respond r = .ok (runProgram ts) := by
  have tokens : (ts.map Json.text).map Json.token = ts := by
    rw [List.map_map]
    exact List.map_id'' (fun _ => rfl) ts
  rw [respond_of_posts .run posts (by simp), Route.answer, posts.verb,
    if_neg (by decide)]
  simp only [run, posts.data, Option.getD_some, carried, Json.texts, tokens]

theorem respond_run_code {r : Request} {data : Json} {text : String} (posts : r.Posts "/run" data)
    (tokenless : data.member? "tokens" = none) (carried : data.member? "code" = some (.text text)) :
    respond r = .ok (runProgram (words text)) := by
  rw [respond_of_posts .run posts (by simp), Route.answer, posts.verb,
    if_neg (by decide)]
  simp only [run, posts.data, Option.getD_some, tokenless, carried]

theorem texts_writable (ss : List String) : (Json.texts ss).writable = true := by
  rw [Json.texts, Json.writable]
  induction ss with
  | nil => rfl
  | cons s ss ih => simpa [Json.allWritable, Json.writable] using ih

/-- Only the values of a table can keep it from being written. -/
theorem tableJson_writable (t : Table) : (tableJson t).writable = t.writable := by
  rw [tableJson, Json.writable, Table.writable]
  induction t with
  | nil => rfl
  | cons q t ih => simp [Json.membersWritable, Json.writable, ih]

end Service

end PolishCalc
