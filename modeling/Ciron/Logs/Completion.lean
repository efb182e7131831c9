import Ciron.Logs.Response
import Ciron.Transition.Budget

/-! # The response comes to its end

The task waits for room in its channel, and the client for lines; the receiver waits for
broadcasts.  They never wait for each other: `response_completes`. -/

namespace Ciron

open Data Transition

namespace LogCall

/-- A step of the task, or of a client that reads on. -/
def ofResponse : CallAction → Bool
  | .send | .receive | .finish | .take => true
  | _ => false

/-- The client has everything, and more can only come from the readers. -/
structure Served (s : LogCall) (r : Response) : Prop where
  responding : s.call = .responding r
  channel : r.channel = []
  unsent : r.unsent = []
  holding : r.holding = none
  follows : ∀ cursor, r.followRx = some cursor → cursor = s.logs.broadcasts.length
  ends : r.followRx = none → r.ended = true

/-- The steps that the task and the client have before them at most. -/
def stepsLeft (s : LogCall) (r : Response) : Nat :=
  3 * (r.followRx.map (Data.behind s.logs.broadcasts)).getD 0 +
    2 * (r.unsent.length + r.holding.toList.length) + r.channel.length + if r.ended then 0 else 1

variable {capacity : Nat} {s : LogCall} {r : Response}

theorem step_respond {a : CallAction} {act : Response → Option Response} {r' : Response}
    (takes : s.step capacity a = s.respond act) (responding : s.call = .responding r)
    (acts : act r = some r') : s.step capacity a = some { s with call := .responding r' } := by
  rw [takes]
  simp only [respond, responding, acts, Option.map_some]

/-- The response goes on by one step, which is one step less to take. -/
def GoesOn (capacity : Nat) (s : LogCall) (r : Response) : Prop :=
  ∃ a r', ofResponse a = true ∧ s.step capacity a = some { s with call := .responding r' } ∧
    r'.gone = r.gone ∧ stepsLeft s r' < stepsLeft s r

theorem GoesOn.of_respond (a : CallAction) {act : Response → Option Response} (r' : Response)
    (own : ofResponse a = true) (takes : s.step capacity a = s.respond act)
    (responding : s.call = .responding r) (acts : act r = some r') (gone : r'.gone = r.gone)
    (fewer : stepsLeft s r' < stepsLeft s r) : GoesOn capacity s r :=
  ⟨a, r', own, step_respond takes responding acts, gone, fewer⟩

/-- The task has a line to send, and there is room in the channel. -/
theorem goesOn_send (responding : s.call = .responding r) (here : r.gone = false) (going : r.ended = false)
    (empty : r.channel = []) (left : r.unsent ++ r.holding.toList ≠ []) : GoesOn capacity s r := by
  have room : responseCapacity ≠ 0 := by decide
  cases unsent : r.unsent with
  | cons entry rest =>
    refine .of_respond .send { r with unsent := rest, channel := Response.entries [entry] } rfl rfl responding
      ?_ rfl ?_
    · simp [Response.sendNext, Response.send, going, unsent, here, empty, room]
    · simp only [stepsLeft, unsent, empty, Response.entries, List.length_cons, List.map_cons, List.map_nil,
        List.length_nil]
      omega
  | nil =>
    cases holding : r.holding with
    | none => simp [unsent, holding] at left
    | some entry =>
      refine .of_respond .send { r with holding := none, channel := Response.entries [entry] } rfl rfl responding
        ?_ rfl ?_
      · simp [Response.sendNext, Response.send, going, unsent, holding, here, empty, room]
      · simp only [stepsLeft, unsent, holding, empty, Response.entries, List.map_cons, List.map_nil,
          List.length_cons, List.length_nil, Option.toList_some, Option.toList_none]
        omega

/-- The receiver goes for a line that has been broadcast. -/
theorem goesOn_receive (responding : s.call = .responding r) (going : r.ended = false) (unsent : r.unsent = [])
    (holding : r.holding = none) {cursor : Nat} (followRx : r.followRx = some cursor)
    (more : cursor < s.logs.broadcasts.length) : GoesOn capacity s r := by
  by_cases near : Data.behind s.logs.broadcasts cursor ≤ capacity
  · let entry := s.logs.broadcasts[cursor]
    have got : recv capacity s.logs.broadcasts cursor = some (.value entry, cursor + 1) := by
      rw [recv, if_neg (Nat.not_lt.mpr near), List.getElem?_eq_getElem more]
      rfl
    refine .of_respond .receive
      { r with followRx := some (cursor + 1), holding := some entry, heard := r.heard ++ [entry] } rfl rfl
      responding ?_ rfl ?_
    · simp [Response.receive, going, unsent, holding, followRx, got]
    · simp only [stepsLeft, unsent, holding, followRx, Option.map_some, Option.getD_some, Data.behind,
        Option.toList_some, Option.toList_none, List.length_nil, List.length_singleton]
      omega
  · have far := Nat.lt_of_not_le near
    have got : recv capacity s.logs.broadcasts cursor =
        some (.lagged (Data.behind s.logs.broadcasts cursor - capacity),
          cursor + (Data.behind s.logs.broadcasts cursor - capacity)) := by
      rw [recv, if_pos far]
    refine .of_respond .receive { r with
        followRx := some (cursor + (Data.behind s.logs.broadcasts cursor - capacity))
        lost := r.lost + (Data.behind s.logs.broadcasts cursor - capacity) } rfl rfl responding ?_ rfl ?_
    · simp [Response.receive, going, unsent, holding, followRx, got]
    · simp only [Data.behind] at far
      simp only [stepsLeft, followRx, Option.map_some, Option.getD_some, Data.behind]
      omega

theorem served_or_goesOn (conveys : r.Conveys) (follows : r.Follows s.logs.broadcasts)
    (responding : s.call = .responding r) (here : r.gone = false) :
    Served s r ∨ GoesOn capacity s r := by
  cases channel : r.channel with
  | cons entry rest =>
    refine .inr (.of_respond .take { r with channel := rest, received := r.received ++ [entry] } rfl rfl
      responding ?_ rfl ?_)
    · simp [Response.take, channel]
    · simp [stepsLeft, channel]
  | nil =>
    -- a task that is through has nothing to send, as the client is still there
    have through : r.ended = true → r.unsent ++ r.holding.toList = [] ∧ r.followRx = none := fun ended => by
      obtain ⟨unsent, once⟩ := (conveys.ended ended).resolve_left (by rw [here]; exact Bool.false_ne_true)
      exact ⟨by rw [unsent, conveys.once once]; rfl, once⟩
    by_cases left : r.unsent ++ r.holding.toList = []
    · obtain ⟨unsent, holding⟩ := List.append_eq_nil_iff.mp left
      have holding : r.holding = none := by simpa using holding
      cases followRx : r.followRx with
      | none =>
        cases ended : r.ended with
        | true => exact .inl ⟨responding, channel, unsent, holding, by simp [followRx], fun _ => ended⟩
        | false =>
          refine .inr (.of_respond .finish { r with ended := true } rfl rfl responding ?_ rfl ?_)
          · simp [Response.finish, ended, unsent, followRx]
          · simp [stepsLeft, ended]
      | some cursor =>
        have going : r.ended = false := Bool.eq_false_of_not_eq_true fun ended => by
          rw [(through ended).2] at followRx
          cases followRx
        have within := (follows.heard cursor followRx).within
        by_cases more : cursor < s.logs.broadcasts.length
        · exact .inr (goesOn_receive responding going unsent holding followRx more)
        · refine .inl ⟨responding, channel, unsent, holding, fun cursor' at' => ?_, by simp [followRx]⟩
          cases followRx.symm.trans at'
          exact Nat.le_antisymm within (Nat.le_of_not_lt more)
    · have going : r.ended = false := Bool.eq_false_of_not_eq_true fun ended => left (through ended).1
      exact .inr (goesOn_send responding here going channel left)

/-- Without the readers, the task and a client that reads on always get to where the client has
    received the whole snapshot and everything that the receiver got, and the receiver has
    passed all that was broadcast; without `follow` the stream ends there. -/
theorem response_completes {name : String} {config : ProgramConfig} {lines : Int32} {follow : Bool}
    {trace : List (LogCall × CallAction)}
    (run : Exec (step capacity) (start name config lines follow) trace s)
    (responds : s.call = .responding r) (here : r.gone = false) :
    ∃ t r', Leads (step capacity) (fun _ a => ofResponse a = true) s t ∧ t.logs = s.logs ∧ Served t r' ∧
      r'.received = Response.entries (r'.recent ++ r'.heard) := by
  let Inv (left : Nat) (t : LogCall) : Prop := ∃ trace r',
    Exec (step capacity) (start name config lines follow) trace t ∧ t.logs = s.logs ∧
    t.call = .responding r' ∧ r'.gone = false ∧ stepsLeft t r' = left
  let Done (t : LogCall) : Prop := t.logs = s.logs ∧ ∃ r', Served t r' ∧
    r'.received = Response.entries (r'.recent ++ r'.heard)
  have more : ∀ left t, Inv left t → Done t ∨
      ∃ a u lower, ofResponse a = true ∧ t.step capacity a = some u ∧ lower < left ∧ Inv lower u := by
    rintro left t ⟨trace, r', run, logs, responds, here, rfl⟩
    obtain ⟨conveys, follows⟩ := (reached_sound run).responding r' responds
    rcases @served_or_goesOn capacity _ _ conveys follows responds here with
      served | ⟨a, next, own, hstep, gone, fewer⟩
    · have all := conveys.all here
      rw [served.channel, served.unsent, served.holding, List.append_nil] at all
      exact .inl ⟨logs, r', served, by simpa [Response.entries] using all⟩
    · exact .inr ⟨a, _, _, own, hstep, fewer, _, next, run.tail hstep, logs, rfl, gone.trans here, rfl⟩
  obtain ⟨t, leads, logs, r', served⟩ := comes_to Inv Done more ⟨trace, r, run, rfl, responds, here, rfl⟩
  exact ⟨t, r', leads, logs, served⟩

/-- From where the response has just begun, with a line for the snapshot and one to follow. -/
theorem response_completes_two : ∃ (trace : List (LogCall × CallAction)) (s : LogCall) (r : Response),
    Exec (step 2) (start "web" { command := "web", logForward := true } 0 true) trace s ∧
    s.call = .responding r ∧ r.gone = false ∧ r.received = [] ∧ s.logs.broadcasts.length = 2 ∧
    ∃ t r', Leads (step 2) (fun _ a => ofResponse a = true) s t ∧ t.logs = s.logs ∧ Served t r' ∧
      r'.received = Response.entries (r'.recent ++ r'.heard) := by
  let line (message : String) : LogLine := { timestampMs := 0, source := .stdout, message }
  obtain ⟨s, r, hs, responds, here, none, two⟩ : ∃ s r, runs (step 2)
      (start "web" { command := "web", logForward := true } 0 true)
      [.append 0 (line "one"), .broadcast 0, .snapshot, .subscribe, .append 0 (line "two"), .broadcast 0] = some s ∧
      s.call = .responding r ∧ r.gone = false ∧ r.received = [] ∧ s.logs.broadcasts.length = 2 :=
    ⟨_, _, rfl, rfl, rfl, rfl, rfl⟩
  obtain ⟨trace, run, _⟩ := exec_of_runs hs
  exact ⟨trace, s, r, run, responds, here, none, two, response_completes run responds here⟩

end LogCall

end Ciron
