import PolishCalc.Proofs.TokenWalk

namespace PolishCalc

namespace Cursor

/-- What can be asked of a reader of tokens from outside. -/
inductive Call
  | hasMore
  | advance
  | action
  | expression
  | parse
  deriving DecidableEq, Repr

inductive Reply
  | more (b : Bool)
  | token (t : String)
  | action (a : Action)
  | expression (e : Expr)
  | program (p : Program)
  deriving DecidableEq, Repr

def replied {α : Type} (make : α → Reply) (r : Except Failure α × Cursor) :
    Except Halt Reply × Cursor :=
  ((r.1.map make).mapError .failure, r.2)

def call (c : Cursor) : Call → Except Halt Reply × Cursor
  | .hasMore => (.ok (.more c.hasMore), c)
  | .advance =>
    match c.advance with
    | (some t, c') => (.ok (.token t), c')
    | (none, c') => (.error .overrun, c')
  | .action => replied .action c.action
  | .expression => replied .expression c.expression
  | .parse => replied .program c.parse

/-- The cursor after a history of calls, which goes on after those that fail. -/
def after (c : Cursor) (ks : List Call) : Cursor :=
  ks.foldl (fun c k => (c.call k).2) c

def Inside (c : Cursor) : Prop :=
  c.pos ≤ c.tokens.length

/-- The least number of tokens that a call takes when it succeeds. -/
def Call.least : Call → Nat
  | .hasMore => 0
  | .advance => 1
  | .action => 2
  | .expression => 1
  | .parse => 0

/-- What one call answers and where it leaves the cursor. -/
structure Moves (c : Cursor) (k : Call) (r : Except Halt Reply) (c' : Cursor) : Prop where
  tokens : c'.tokens = c.tokens
  inside : c'.Inside
  forward : c.pos ≤ c'.pos
  overrun_iff : r = .error .overrun ↔ k = .advance ∧ c.pos = c.tokens.length
  stays : r = .error .overrun → c' = c
  succeeded : ∀ a, r = .ok a → c.pos + k.least ≤ c'.pos
  failed : ∀ h, r = .error h → c.pos < c.tokens.length → c.pos + 1 ≤ c'.pos
  parsed : k = .parse → ∀ a, r = .ok a → c'.pos = c.tokens.length

end Cursor

/-- The same calls, with each token taken from the cursor in turn. -/
def Walk.call (depth : Nat) : Cursor.Call → Walk Cursor.Reply
  | .hasMore => do return .more (← hasMore)
  | .advance => do return .token (← next)
  | .action => do return .action (← action depth)
  | .expression => do return .expression (← expression depth)
  | .parse => do return .program (← program depth)

theorem expression_length_of_ok {ts : List String} {e : Expr} (h : (expression ts).1 = .ok e) :
    (expression ts).2.length + 1 ≤ ts.length := by
  have fewer := expression_length_le ts
  cases ts with
  | nil => simp [expression_nil] at h
  | cons t ts => exact Nat.succ_le_succ fewer

theorem DerivesAction.two_le_length {Target : String → Prop} {ts : List String} {a : Action}
    (h : DerivesAction Target ts a) : 2 ≤ ts.length := by
  cases h with
  | assign target value => simp
  | print value =>
    have operand := List.length_pos_iff.mpr value.ne_nil
    simp only [List.length_cons]
    omega

theorem action_length_of_ok {ts : List String} {a : Action} (h : (action ts).1 = .ok a) :
    (action ts).2.length + 2 ≤ ts.length := by
  have read : action ts = (.ok a, (action ts).2) := Prod.ext h rfl
  obtain ⟨used, split, _, derived⟩ := derivesAction_of_action read
  have all := congrArg List.length split
  have taken := derived.two_le_length
  rw [List.length_append] at all
  omega

theorem action_length_le (ts : List String) : (action ts).2.length ≤ ts.length - 1 := by
  cases ts with
  | nil => exact Nat.le_refl 0
  | cons t ts => exact Nat.le_pred_of_lt (action_length_lt t ts)

theorem actions_rest_of_ok {ts : List String} {p : Program} (h : (actions ts).1 = .ok p) :
    (actions ts).2 = [] := by
  rw [(derivesProgram_of_actions (Prod.ext h rfl)).actions_eq]

theorem actions_length_le (ts : List String) : (actions ts).2.length ≤ ts.length - 1 := by
  induction hn : ts.length using Nat.strongRecOn generalizing ts with
  | ind n ih =>
    cases ts with
    | nil => simp [actions_nil]
    | cons t ts =>
      have first := action_length_lt t ts
      rw [hn] at first
      rw [actions_cons]
      rcases read : action (t :: ts) with ⟨f | a, rest⟩
      · rw [read] at first
        exact Nat.le_pred_of_lt first
      · -- The first action has taken a token, and the others end no earlier.
        rw [read] at first
        have others := ih rest.length first rest rfl
        have end_le : (actions rest).2.length ≤ n - 1 := by
          simp only at first
          omega
        dsimp only
        rcases more : actions rest with ⟨_ | p, rest'⟩
        · rwa [more] at end_le
        · rwa [more] at end_le

namespace Cursor

theorem length_rest (c : Cursor) : c.rest.length = c.tokens.length - c.pos :=
  List.length_drop

/-- The cursor has moved by as many tokens as the tokens in front of it are fewer. -/
theorem Inside.le_pos_before {c : Cursor} (h : c.Inside) {rest : List String} {n : Nat}
    (fewer : rest.length + n ≤ c.rest.length) : c.pos + n ≤ (c.before rest).pos := by
  unfold Inside at h
  rw [length_rest] at fewer
  change c.pos + n ≤ c.tokens.length - rest.length
  omega

theorem inside_before (c : Cursor) (rest : List String) : (c.before rest).Inside :=
  Nat.sub_le c.tokens.length rest.length

theorem replied_ok {α : Type} (make : α → Reply) (a : α) (c : Cursor) :
    replied make (.ok a, c) = (.ok (make a), c) :=
  rfl

theorem replied_error {α : Type} (make : α → Reply) (f : Failure) (c : Cursor) :
    replied make (.error f, c) = (.error (.failure f), c) :=
  rfl

theorem Inside.moves_replied {α : Type} {c : Cursor} (h : c.Inside) {k : Call}
    (make : α → Reply) {r : Except Failure α} {rest : List String} (reads : k ≠ .advance)
    (fewer : rest.length ≤ c.rest.length - 1)
    (taken : ∀ a, r = .ok a → rest.length + k.least ≤ c.rest.length)
    (parsed : k = .parse → ∀ a, r = .ok a → rest = []) :
    c.Moves k (replied make (r, c.before rest)).1 (c.before rest) := by
  have forward : c.pos ≤ (c.before rest).pos := h.le_pos_before (n := 0) (by omega)
  cases r with
  | ok a =>
    rw [replied_ok]
    exact {
      tokens := rfl, inside := c.inside_before rest, forward
      overrun_iff := by simp [reads], stays := by simp
      succeeded := fun _ _ => h.le_pos_before (taken a rfl)
      failed := by simp
      parsed := by
        intro whole _ _
        rw [parsed whole a rfl]
        rfl }
  | error f =>
    rw [replied_error]
    exact {
      tokens := rfl, inside := c.inside_before rest, forward
      overrun_iff := by simp [reads], stays := by simp
      succeeded := by simp
      failed := by
        intro _ _ more
        have first : 0 < c.rest.length := by rw [length_rest]; omega
        exact h.le_pos_before (by omega)
      parsed := by simp }

theorem Inside.moves_advance {c : Cursor} (h : c.Inside) :
    c.Moves .advance (c.call .advance).1 (c.call .advance).2 := by
  have left := c.length_rest
  unfold Inside at h
  simp only [call, advance]
  cases hr : c.rest with
  | nil =>
    rw [hr, List.length_nil] at left
    exact {
      tokens := rfl, inside := h, forward := Nat.le_refl _
      overrun_iff := by simp; omega, stays := fun _ => rfl
      succeeded := by simp, failed := by omega, parsed := by simp }
  | cons t rest =>
    rw [hr, List.length_cons] at left
    have more : c.pos + 1 ≤ c.tokens.length := by omega
    exact {
      tokens := rfl, inside := more, forward := Nat.le_succ _
      overrun_iff := by simp; omega, stays := by simp
      succeeded := fun _ _ => Nat.le_refl _, failed := by simp, parsed := by simp }

theorem Inside.moves {c : Cursor} (h : c.Inside) (k : Call) :
    c.Moves k (c.call k).1 (c.call k).2 := by
  cases k with
  | hasMore =>
    exact {
      tokens := rfl, inside := h, forward := Nat.le_refl _
      overrun_iff := by simp [call], stays := fun _ => rfl
      succeeded := fun _ _ => Nat.le_refl _, failed := by simp [call], parsed := by simp }
  | advance => exact h.moves_advance
  | action =>
    exact h.moves_replied .action (by simp) (action_length_le c.rest)
      (fun _ ok => action_length_of_ok ok) (by simp)
  | expression =>
    exact h.moves_replied .expression (by simp) (expression_length_le c.rest)
      (fun _ ok => expression_length_of_ok ok) (by simp)
  | parse =>
    have fewer := actions_length_le c.rest
    exact h.moves_replied .program (by simp) fewer
      (fun _ _ => Nat.le_trans fewer (Nat.sub_le _ 1)) (fun _ _ ok => actions_rest_of_ok ok)

theorem after_append (c : Cursor) (ks ls : List Call) :
    c.after (ks ++ ls) = (c.after ks).after ls :=
  List.foldl_append

theorem Inside.after {c : Cursor} (h : c.Inside) (ks : List Call) :
    (c.after ks).tokens = c.tokens ∧ (c.after ks).Inside ∧ c.pos ≤ (c.after ks).pos := by
  induction ks generalizing c with
  | nil => exact ⟨rfl, h, Nat.le_refl _⟩
  | cons k ks ih =>
    have step := h.moves k
    obtain ⟨tokens, inside, forward⟩ := ih step.inside
    exact ⟨tokens.trans step.tokens, inside, Nat.le_trans step.forward forward⟩

theorem Inside.among_rest {c : Cursor} (h : c.Inside) : among c.tokens c.rest = c := by
  unfold Inside at h
  have pos : c.tokens.length - c.rest.length = c.pos := by rw [length_rest]; omega
  unfold among before start
  rw [pos]

end Cursor

namespace Walk

theorem replied_of_answer {α : Type} {c : Cursor} (make : α → Cursor.Reply) {x : Walk α}
    {r : Except Failure α × List String} (read : x c = answer c.tokens r) :
    (do return make (← x)) c = Cursor.replied make (r.1, c.before r.2) := by
  simp only [bind_apply, read]
  obtain ⟨_ | a, rest⟩ := r <;> rfl

theorem call_eq {c : Cursor} (h : c.Inside) {depth : Nat} (deep : c.tokens.length < depth)
    (k : Cursor.Call) : call depth k c = c.call k := by
  have here : c.rest <:+ c.tokens := List.drop_suffix c.pos c.tokens
  have room : c.rest.length < depth := Nat.lt_of_le_of_lt here.length_le deep
  cases k with
  | hasMore => rfl
  | advance =>
    simp only [call, bind_apply, next, Cursor.call]
    rcases c.advance with ⟨_ | t, c'⟩ <;> rfl
  | action =>
    have read := action_among here (Nat.le_of_lt room)
    rw [h.among_rest] at read
    exact replied_of_answer .action read
  | expression =>
    have read := expression_among here room
    rw [h.among_rest] at read
    exact replied_of_answer .expression read
  | parse =>
    have read := program_among here room
    rw [h.among_rest] at read
    exact replied_of_answer .program read

end Walk

/-- A cursor that has been asked for anything in any order, whether it was answered or not. It is
between the start and the end of its tokens, which are the ones it was made with; the next call
moves it forward or not at all, and as far as that call must; no later call moves it back. Only a
token that is asked for at the end is not there: read token by token, every call is answered in the
same way. -/
theorem cursor_kept_through_calls (ts : List String) (ks : List Cursor.Call) :
    let c := (Cursor.start ts).after ks
    c.tokens = ts ∧ c.pos ≤ ts.length ∧
      (∀ ls, c.pos ≤ ((Cursor.start ts).after (ks ++ ls)).pos) ∧
      ∀ k, c.Moves k (c.call k).1 (c.call k).2 ∧
        ∀ depth, ts.length < depth → Walk.call depth k c = c.call k := by
  intro c
  have start : (Cursor.start ts).Inside := Nat.zero_le ts.length
  obtain ⟨tokens, inside, _⟩ : c.tokens = ts ∧ c.Inside ∧ _ := start.after ks
  refine ⟨tokens, by rwa [Cursor.Inside, tokens] at inside, ?_, fun k => ⟨inside.moves k, ?_⟩⟩
  · intro ls
    rw [Cursor.after_append]
    exact (inside.after ls).2.2
  · intro depth deep
    exact Walk.call_eq inside (by rwa [tokens]) k

/-- The second operand is refused in the middle of an action; the calls after that go on behind it,
up to the end and no further. -/
theorem calls_go_on_behind_refused_operand :
    let ts := ["#", "+", "1", ":=", "x"]
    (Cursor.start ts).call .action = (.error (.failure (.fault (.notAnExpression ":="))), ⟨ts, 4⟩) ∧
      (Cursor.start ts).after [.action] = ⟨ts, 4⟩ ∧
      (Cursor.mk ts 4).call .expression = (.ok (.expression (.variable "x")), ⟨ts, 5⟩) ∧
      (Cursor.start ts).after [.action, .expression] = ⟨ts, 5⟩ ∧
      (Cursor.mk ts 5).call .advance = (.error .overrun, ⟨ts, 5⟩) := by
  intro ts
  have first := ((cursor_kept_through_calls ts []).2.2.2 .action).2 6 (by decide)
  have refused : (Cursor.start ts).call .action =
      (.error (.failure (.fault (.notAnExpression ":="))), ⟨ts, 4⟩) :=
    first.symm.trans rfl
  have moved : (Cursor.start ts).after [.action] = ⟨ts, 4⟩ := congrArg Prod.snd refused
  obtain ⟨_, _, _, calls⟩ := cursor_kept_through_calls ts [.action]
  rw [moved] at calls
  have read : (Cursor.mk ts 4).call .expression =
      (.ok (.expression (.variable "x")), ⟨ts, 5⟩) :=
    ((calls .expression).2 6 (by decide)).symm.trans rfl
  have ended : (Cursor.start ts).after [.action, .expression] = ⟨ts, 5⟩ := by
    change (((Cursor.start ts).after [.action]).call .expression).2 = _
    rw [moved, read]
  obtain ⟨_, _, _, calls⟩ := cursor_kept_through_calls ts [.action, .expression]
  rw [ended] at calls
  have missing : ((Cursor.mk ts 5).call .advance).1 = .error .overrun :=
    (calls .advance).1.overrun_iff.mpr ⟨rfl, rfl⟩
  exact ⟨refused, moved, read, ended, Prod.ext missing ((calls .advance).1.stays missing)⟩

end PolishCalc
