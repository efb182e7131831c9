import Ciron.Logs.Response
import Ciron.Transition.Simulation

/-! # A client that keeps up is followed as if the channels had no end

`Logs` has a follower that gets every line broadcast and whose stream goes straight to the
client; `LogCall` has the bounded channels of the code, and the steps of the task and of the
client between them.  `follow_refines`: as long as the receiver keeps up, every run of the second is a
run of the first, with the same lines on the way to the client. -/

namespace Ciron

open Data Transition

namespace Logs

/-- The same logs with another client. -/
def withClient (logs : Logs) (client : Client) : Logs := { logs with client }

theorem append_withClient {s t : Logs} {reader : Nat} {line : LogLine} (h : s.step (.append reader line) = some t)
    (client : Client) : (s.withClient client).step (.append reader line) = some (t.withClient client) := by
  simp only [step, withClient] at h ⊢
  split at h
  · cases h
    rfl
  · cases h

theorem broadcast_withClient {s t : Logs} {reader : Nat} {entry : Entry} (pends : s.pending reader = some entry)
    (h : s.step (.broadcast reader) = some t) (client : Client) :
    (s.withClient client).step (.broadcast reader) = some (t.withClient (deliver entry client)) := by
  simp only [step, pends, withClient] at h ⊢
  cases h
  rfl

theorem snapshot_withClient {s : Logs} {recent : List Entry}
    (found : getRecentLogs s.name s.config s.buffer (requestedLines 0) = .ok recent) :
    (s.withClient .asking).step .snapshot = some (s.withClient (.subscribing recent s.appended.length)) := by
  have every : getRecentLogs s.name s.config s.buffer 0 = .ok recent := found
  simp only [withClient, step, every]

theorem subscribe_withClient {s : Logs} {recent : List Entry} {before : Nat} {u : Unit}
    (subscribed : subscribeLogs s.name s.config = .ok u) :
    (s.withClient (.subscribing recent before)).step .subscribe = some (s.withClient
      (.following { recent, before, missed := s.broadcasts.length, unsent := recent })) := by
  simp only [withClient, step, subscribed]

end Logs

namespace Response

variable {r r' : Response}

/-- The line that a send takes from what is left. -/
inductive Sends (r r' : Response) : Prop
  | recent {entry : Entry} {rest : List Entry} (unsent : r.unsent = entry :: rest) (left : r'.unsent = rest)
      (holding : r'.holding = r.holding)
  | heard {entry : Entry} (unsent : r.unsent = []) (held : r.holding = some entry) (left : r'.unsent = [])
      (holding : r'.holding = none)

theorem send_left {entry : Entry} (h : r.send entry = some r') :
    r'.unsent = r.unsent ∧ r'.holding = r.holding := by
  simp only [send] at h
  split at h
  · cases h
    exact ⟨rfl, rfl⟩
  · split at h
    · cases h
      exact ⟨rfl, rfl⟩
    · cases h

theorem sendNext_sends (h : r.sendNext = some r') : Sends r r' := by
  simp only [sendNext] at h
  split at h
  · cases h
  · split at h
    · rename_i unsent
      obtain ⟨left, holding⟩ := send_left h
      exact .recent unsent left holding
    · rename_i unsent held
      obtain ⟨left, holding⟩ := send_left h
      exact .heard unsent held (left.trans unsent) holding
    · cases h

theorem take_left (h : r.take = some r') : r'.unsent = r.unsent ∧ r'.holding = r.holding := by
  simp only [take] at h
  split at h
  · cases h
    exact ⟨rfl, rfl⟩
  · cases h

theorem finish_once (h : r.finish = some r') : r.followRx = none := by
  simp only [finish] at h
  split at h
  · rename_i once
    exact once
  · cases h

end Response

namespace LogCall

/-- The client that the call is for `Logs`, once the logs have broadcast these lines. -/
inductive Conforms (broadcasts : List Entry) : Call → Client → Prop
  | asking : Conforms broadcasts .asking .asking
  | subscribing {recent : List Entry} {before : Nat} :
      Conforms broadcasts (.subscribing recent) (.subscribing recent before)
  | refused {status : Status} {client : Client} (unserved : ∀ stream, client ≠ .following stream) :
      Conforms broadcasts (.refused status) client
  | responding {r : Response} {stream : Following} {cursor : Nat} (recent : stream.recent = r.recent)
      (missed : stream.missed = r.missed) (unsent : stream.unsent = r.unsent)
      (followRx : r.followRx = some cursor)
      (queue : stream.queue = r.holding.toList ++ broadcasts.drop cursor)
      (streamed : stream.streamed ++ (r.unsent ++ r.holding.toList) = r.recent ++ r.heard) :
      Conforms broadcasts (.responding r) (.following stream)

structure Refines (s : LogCall) (l : Logs) : Prop where
  sound : Sound 0 s
  follow : s.follow = true
  conforms : ∃ client, l = s.logs.withClient client ∧ Conforms s.logs.broadcasts s.call client

variable {capacity : Nat} {s t : LogCall}

theorem step_follow {a : CallAction} (h : s.step capacity a = some t) : t.follow = s.follow := by
  cases step_stepped h <;> rfl

/-- A line is broadcast: it is the last in the queue. -/
theorem Conforms.broadcast {broadcasts : List Entry} {call : Call} {client : Client}
    (h : Conforms broadcasts call client) (entry : Entry)
    (within : ∀ r cursor, call = .responding r → r.followRx = some cursor → cursor ≤ broadcasts.length) :
    Conforms (broadcasts ++ [entry]) call (Logs.deliver entry client) := by
  cases h with
  | asking => exact .asking
  | subscribing => exact .subscribing
  | @refused status client unserved =>
    refine .refused ?_
    cases client with
    | asking | subscribing => exact nofun
    | following stream => exact absurd rfl (unserved stream)
  | responding recent missed unsent followRx queue streamed =>
    refine .responding recent missed unsent followRx ?_ streamed
    rw [queue, List.drop_append_of_le_length (within _ _ rfl followRx), List.append_assoc]

/-- A step between the task and the client that leaves what is still to send. -/
theorem Conforms.passes {broadcasts : List Entry} {r r' : Response} {client : Client}
    (h : Conforms broadcasts (.responding r) client) (same : r.SameReceiver r') (unsent : r'.unsent = r.unsent)
    (holding : r'.holding = r.holding) : Conforms broadcasts (.responding r') client := by
  cases h with
  | responding recent missed unsent' followRx queue streamed =>
    refine .responding (recent.trans same.recent.symm) (missed.trans same.missed.symm)
      (unsent'.trans unsent.symm) (same.followRx.trans followRx) (by rw [holding, queue]) ?_
    rw [unsent, holding, same.recent, same.heard, streamed]

/-- The task sends a line: it is streamed. -/
theorem Conforms.sends {logs : Logs} {r r' : Response} {client : Client}
    (h : Conforms logs.broadcasts (.responding r) client) (same : r.SameReceiver r') (sends : r.Sends r') :
    ∃ client', (logs.withClient client).step .stream = some (logs.withClient client') ∧
      Conforms logs.broadcasts (.responding r') client' := by
  cases h with
  | @responding _ stream cursor recent missed unsent followRx queue streamed =>
    cases sends with
    | @recent entry rest first left holding =>
      refine ⟨.following { stream with unsent := rest, streamed := stream.streamed ++ [entry] }, ?_, ?_⟩
      · simp only [Logs.withClient, Logs.step, unsent, first]
      · refine .responding (recent.trans same.recent.symm) (missed.trans same.missed.symm) left.symm
          (same.followRx.trans followRx) (by rw [holding, queue]) ?_
        rw [left, holding, same.recent, same.heard, ← streamed, first]
        simp
    | @heard entry none held left holding =>
      rw [held, Option.toList_some, List.singleton_append] at queue
      refine ⟨.following { stream with
        queue := logs.broadcasts.drop cursor, streamed := stream.streamed ++ [entry] }, ?_, ?_⟩
      · simp only [Logs.withClient, Logs.step, unsent, none, queue]
      · refine .responding (recent.trans same.recent.symm) (missed.trans same.missed.symm)
          (by rw [left, ← none, unsent]) (same.followRx.trans followRx) (by rw [holding]; rfl) ?_
        rw [left, holding, same.recent, same.heard, ← streamed, none, held]
        simp

/-- The receiver takes the first line of its queue and keeps it for the task. -/
theorem Conforms.receives {broadcasts : List Entry} {r r' : Response} {client : Client}
    (h : Conforms broadcasts (.responding r) client) (receives : r.receive capacity broadcasts = some r')
    (near : ∀ cursor, r.followRx = some cursor → Data.behind broadcasts cursor ≤ capacity) :
    Conforms broadcasts (.responding r') client := by
  cases h with
  | @responding _ stream cursor recent missed unsent followRx queue streamed =>
    obtain ⟨_, none, empty, cursor', followRx', ⟨entry, next, got, rfl⟩ | ⟨lost, next, got, rfl⟩⟩ :=
      Response.receive_cases receives
    · cases followRx.symm.trans followRx'
      obtain ⟨_, found, rfl⟩ := recv_value got
      obtain ⟨bound, rfl⟩ := List.getElem?_eq_some_iff.mp found
      refine .responding recent missed unsent rfl ?_ ?_
      · rw [queue, empty, List.drop_eq_getElem_cons bound]
        rfl
      · rw [empty, Option.toList_none, List.append_nil] at streamed
        simp only [none, List.append_nil] at streamed
        simp [none, streamed]
    · cases followRx.symm.trans followRx'
      exact absurd (recv_lagged got).1 (Nat.not_lt.mpr (near cursor followRx))

/-- Each step of the call is a step of the ideal logs, or none. -/
theorem Refines.step {a : CallAction} {l : Logs} (h : Refines s l) (keepsUp : KeepsUp capacity s a)
    (hstep : s.step capacity a = some t) : ∃ l', Reachable Logs.step l l' ∧ Refines t l' := by
  obtain ⟨client, rfl, conforms⟩ := h.conforms
  have sound := h.sound.step hstep
  have follow := (step_follow hstep).trans h.follow
  cases a with
  | append reader line =>
    obtain ⟨logs, logged, rfl⟩ := Option.map_eq_some_iff.mp hstep
    obtain ⟨_, _, _, _, _, broadcasts⟩ := (Logs.step_stepped logged).append_inv
    exact ⟨_, .single (Logs.append_withClient logged client), sound, follow, client, rfl, broadcasts ▸ conforms⟩
  | broadcast reader =>
    obtain ⟨logs, logged, rfl⟩ := Option.map_eq_some_iff.mp hstep
    obtain ⟨entry, pends⟩ : ∃ entry, s.logs.pending reader = some entry := by
      cases Logs.step_stepped logged with
      | broadcasts pends => exact ⟨_, pends⟩
    obtain ⟨_, _, broadcasts⟩ := (Logs.step_stepped logged).broadcast_inv pends
    refine ⟨_, .single (Logs.broadcast_withClient pends logged client), sound, follow, _, rfl, ?_⟩
    rw [broadcasts]
    exact conforms.broadcast entry fun r cursor call followRx =>
      ((h.sound.responding r call).2.heard cursor followRx).within
  | snapshot =>
    simp only [LogCall.step] at hstep
    split at hstep
    · rename_i asking
      rw [asking] at conforms
      cases conforms
      split at hstep
      · rename_i recent found
        cases hstep
        rw [h.sound.asked] at found
        exact ⟨_, .single (Logs.snapshot_withClient found), sound, follow, _, rfl, .subscribing⟩
      · cases hstep
        exact ⟨_, .refl _, sound, follow, .asking, rfl, .refused (by simp)⟩
    · cases hstep
  | subscribe =>
    simp only [LogCall.step] at hstep
    split at hstep
    · rename_i recent subscribing
      rw [subscribing] at conforms
      cases conforms
      rw [if_pos h.follow] at hstep
      split at hstep
      · rename_i subscribed
        cases hstep
        refine ⟨_, .single (Logs.subscribe_withClient subscribed), sound, follow, _, rfl, ?_⟩
        exact .responding rfl rfl rfl rfl (by simp [Response.spawned]) (by simp [Response.spawned])
      · cases hstep
        exact ⟨_, .refl _, sound, follow, _, rfl, .refused (by simp)⟩
    · cases hstep
  | send =>
    obtain ⟨r, r', responding, acts, rfl⟩ := respond_inv hstep
    rw [responding] at conforms
    obtain ⟨client', streams, conforms'⟩ := conforms.sends
      ((h.sound.responding r responding).1.sendNext acts).2 (Response.sendNext_sends acts)
    exact ⟨_, .single streams, sound, follow, client', rfl, conforms'⟩
  | receive =>
    obtain ⟨r, r', responding, acts, rfl⟩ := respond_inv hstep
    rw [responding] at conforms
    refine ⟨_, .refl _, sound, follow, client, rfl, conforms.receives acts fun cursor followRx => ?_⟩
    simpa [behind, responding, followRx] using keepsUp rfl
  | finish =>
    obtain ⟨r, r', responding, acts, rfl⟩ := respond_inv hstep
    rw [responding] at conforms
    cases conforms with
    | responding _ _ _ followRx => cases followRx.symm.trans (Response.finish_once acts)
  | take =>
    obtain ⟨r, r', responding, acts, rfl⟩ := respond_inv hstep
    rw [responding] at conforms
    obtain ⟨unsent, holding⟩ := Response.take_left acts
    exact ⟨_, .refl _, sound, follow, client, rfl,
      conforms.passes ((h.sound.responding r responding).1.take acts).2 unsent holding⟩
  | hangUp =>
    obtain ⟨r, r', responding, acts, rfl⟩ := respond_inv hstep
    cases acts
    rw [responding] at conforms
    exact ⟨_, .refl _, sound, follow, client, rfl,
      conforms.passes (h.sound.responding r responding).1.hangUp.2 rfl rfl⟩

/-- As long as the receiver keeps up, whatever the call does with its channels, the ideal logs can come to
    the same buffer, the same lines appended and broadcast and, while the client is there, the same
    lines on the way to it. -/
theorem follow_refines {name : String} {config : ProgramConfig} {trace : List (LogCall × CallAction)}
    (run : Exec (step capacity) (start name config 0 true) trace s)
    (keepsUp : ∀ p ∈ trace, KeepsUp capacity p.1 p.2) :
    ∃ l, Reachable Logs.step (Logs.start name config) l ∧ l.buffer = s.logs.buffer ∧
      l.pending = s.logs.pending ∧ l.appended = s.logs.appended ∧ l.broadcasts = s.logs.broadcasts ∧
      ∀ r, s.call = .responding r → ∃ stream, l.client = .following stream ∧ stream.recent = r.recent ∧
        stream.missed = r.missed ∧
        (r.gone = false → Response.entries stream.streamed = r.received ++ r.channel) := by
  have begins : Refines (start name config 0 true) (Logs.start name config) :=
    ⟨start_sound name config 0 true, rfl, .asking, rfl, .asking⟩
  obtain ⟨l, reach, sound, _, client, rfl, conforms⟩ :=
    run.simulates (fun s a t l h cond hstep => h.step cond hstep) keepsUp begins
  refine ⟨_, reach, rfl, rfl, rfl, rfl, fun r responds => ?_⟩
  rw [responds] at conforms
  cases conforms with
  | @responding _ stream cursor recent missed unsent followRx queue streamed =>
    refine ⟨stream, rfl, recent, missed, fun here => ?_⟩
    have all := (sound.responding r responds).1.all here
    rw [← streamed, Response.entries_append stream.streamed] at all
    exact (List.append_cancel_right all).symm

/-- The receiver holds a line while another one is waiting for it. -/
theorem follow_refines_two : ∃ (trace : List (LogCall × CallAction)) (s : LogCall),
    Exec (step 2) (start "web" { command := "web", logForward := true } 0 true) trace s ∧
    s.logs.broadcasts.length = 3 ∧
    ∃ l, Reachable Logs.step (Logs.start "web" { command := "web", logForward := true }) l ∧
      l.buffer = s.logs.buffer ∧ l.pending = s.logs.pending ∧ l.appended = s.logs.appended ∧
      l.broadcasts = s.logs.broadcasts ∧
      ∀ r, s.call = .responding r → ∃ stream, l.client = .following stream ∧ stream.recent = r.recent ∧
        stream.missed = r.missed ∧
        (r.gone = false → Response.entries stream.streamed = r.received ++ r.channel) := by
  let line (message : String) : LogLine := { timestampMs := 0, source := .stdout, message }
  obtain ⟨s, r, hs, three, responds, lost⟩ : ∃ s r, runs (step 2)
      (start "web" { command := "web", logForward := true } 0 true)
      [.append 0 (line "one"), .broadcast 0, .snapshot, .subscribe, .append 0 (line "two"), .broadcast 0,
        .append 0 (line "three"), .broadcast 0, .send, .receive, .take] = some s ∧
      s.logs.broadcasts.length = 3 ∧ s.call = .responding r ∧ r.lost = 0 := ⟨_, _, rfl, rfl, rfl, rfl⟩
  obtain ⟨trace, run, _⟩ := exec_of_runs hs
  have complete : Complete s := fun r' call => by
    cases responds.symm.trans call
    exact lost
  exact ⟨trace, s, run, three, follow_refines run ((complete_iff run).mp complete)⟩

end LogCall

end Ciron
