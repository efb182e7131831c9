import Ciron.Data.Broadcast
import Ciron.Logs.GetLogs

/-! # The response stream of `get_logs`

The whole call: the snapshot, the subscription, and the task that sends the lines on through a
channel of its own.  The client may be slow, or gone; then the task waits, and its receiver may
fall behind the readers by more than the broadcast channel keeps.  A `Lagged` error is passed
over with `continue`, so the client is never told of the lines that it does not get. -/

namespace Ciron

open Data Transition

/-- The size of the channel between the task and the client. -/
def responseCapacity : Nat := 128

/-- The task after the subscription.  `follow_rx` is the cursor of the receiver, if the client
    follows.  `missed` lines had been broadcast at the subscription; the receiver has got
    `heard`, and was told of `lost` more. -/
structure Response where
  recent : List Entry
  missed : Nat
  unsent : List Entry
  followRx : Option Nat
  holding : Option Entry := none
  channel : List LogEntry := []
  received : List LogEntry := []
  heard : List Entry := []
  lost : Nat := 0
  gone : Bool := false
  ended : Bool := false
deriving DecidableEq, Repr

namespace Response

/-- The task as it is spawned. -/
def spawned (recent : List Entry) (missed : Nat) (followRx : Option Nat) : Response :=
  { recent, missed, unsent := recent, followRx }

def entries (lines : List Entry) : List LogEntry := lines.map fun entry => toLogEntry entry.line

/-- `tx.send(..).await`: it waits while the channel is full, and ends the task once the client
    is gone. -/
def send (entry : Entry) (r : Response) : Option Response :=
  if r.gone then some { r with ended := true }
  else if r.channel.length < responseCapacity then
    some { r with channel := r.channel ++ entries [entry] }
  else none

/-- The next send of the task. -/
def sendNext (r : Response) : Option Response :=
  if r.ended then none
  else match r.unsent, r.holding with
    | entry :: rest, _ => { r with unsent := rest }.send entry
    | [], some entry => { r with holding := none }.send entry
    | [], none => none

/-- `follow_rx.recv().await` returns. -/
def receive (capacity : Nat) (broadcasts : List Entry) (r : Response) : Option Response :=
  match r.ended, r.unsent, r.holding, r.followRx with
  | false, [], none, some cursor =>
    match recv capacity broadcasts cursor with
    | some (.value entry, cursor) =>
      some { r with followRx := some cursor, holding := some entry, heard := r.heard ++ [entry] }
    | some (.lagged missed, cursor) => some { r with followRx := some cursor, lost := r.lost + missed }
    | none => none
  | _, _, _, _ => none

/-- The task returns after the recent lines if the client does not follow. -/
def finish (r : Response) : Option Response :=
  match r.ended, r.unsent, r.followRx with
  | false, [], none => some { r with ended := true }
  | _, _, _ => none

def take (r : Response) : Option Response :=
  match r.channel with
  | entry :: rest => some { r with channel := rest, received := r.received ++ [entry] }
  | [] => none

/-- The client drops the stream, and what is in the channel with it. -/
def hangUp (r : Response) : Response := { r with channel := [], gone := true }

end Response

inductive Call where
  | asking
  | subscribing (recent : List Entry)
  | refused (status : Status)
  | responding (response : Response)
deriving DecidableEq, Repr

/-- The logs of a program and one `get_logs` call. -/
structure LogCall where
  logs : Logs
  lines : Int32
  follow : Bool
  call : Call := .asking

inductive CallAction where
  | append (reader : Nat) (line : LogLine)
  | broadcast (reader : Nat)
  | snapshot
  | subscribe
  | send
  | receive
  | finish
  | take
  | hangUp
deriving DecidableEq, Repr

namespace LogCall

/-- A step of the task or of the client. -/
def respond (s : LogCall) (act : Response → Option Response) : Option LogCall :=
  match s.call with
  | .responding response => (act response).map fun response => { s with call := .responding response }
  | _ => none

/-- `capacity` is the number of lines that the broadcast channel keeps. -/
def step (capacity : Nat) (s : LogCall) : CallAction → Option LogCall
  | .append reader line => (s.logs.step (.append reader line)).map fun logs => { s with logs }
  | .broadcast reader => (s.logs.step (.broadcast reader)).map fun logs => { s with logs }
  | .snapshot =>
    match s.call with
    | .asking =>
      match getRecentLogs s.logs.name s.logs.config s.logs.buffer (requestedLines s.lines) with
      | .ok recent => some { s with call := .subscribing recent }
      | .error e => some { s with call := .refused (.notFound e) }
    | _ => none
  | .subscribe =>
    match s.call with
    | .subscribing recent =>
      let response := Response.spawned recent s.logs.broadcasts.length
      if s.follow then
        match subscribeLogs s.logs.name s.logs.config with
        | .ok _ => some { s with call := .responding (response (some s.logs.broadcasts.length)) }
        | .error e => some { s with call := .refused (.notFound e) }
      else some { s with call := .responding (response none) }
    | _ => none
  | .send => s.respond (·.sendNext)
  | .receive => s.respond (·.receive capacity s.logs.broadcasts)
  | .finish => s.respond (·.finish)
  | .take => s.respond (·.take)
  | .hangUp => s.respond fun response => some response.hangUp

def start (name : String) (config : ProgramConfig) (lines : Int32) (follow : Bool) : LogCall :=
  { logs := Logs.start name config, lines, follow }

end LogCall

/-! ## What the client gets -/

namespace Response

/-- Between them the task and the client have all of the recent lines, and then all that the
    receiver got, unless the client is gone. -/
structure Conveys (r : Response) : Prop where
  bounded : r.channel.length ≤ responseCapacity
  order : r.received ++ r.channel <+: entries (r.recent ++ r.heard)
  all : r.gone = false →
    r.received ++ r.channel ++ entries (r.unsent ++ r.holding.toList) = entries (r.recent ++ r.heard)
  ended : r.ended = true → r.gone = true ∨ r.unsent = [] ∧ r.followRx = none
  once : r.followRx = none → r.holding = none

/-- What the receiver got of the lines broadcast. -/
structure Follows (broadcasts : List Entry) (r : Response) : Prop where
  heard : ∀ cursor, r.followRx = some cursor → Heard broadcasts r.missed cursor r.heard r.lost
  nothing : r.followRx = none → r.heard = [] ∧ r.lost = 0

/-- A step of the task or of the client that is none of the receiver. -/
structure SameReceiver (r r' : Response) : Prop where
  recent : r'.recent = r.recent
  missed : r'.missed = r.missed
  followRx : r'.followRx = r.followRx
  heard : r'.heard = r.heard
  lost : r'.lost = r.lost

variable {r r' : Response}

theorem entries_append (first second : List Entry) :
    entries (first ++ second) = entries first ++ entries second :=
  List.map_append

theorem SameReceiver.follows {broadcasts : List Entry} (same : SameReceiver r r') (h : Follows broadcasts r) :
    Follows broadcasts r' := by
  obtain ⟨_, missed, followRx, heard, lost⟩ := same
  constructor <;> rw [followRx, heard, lost]
  · rw [missed]
    exact h.heard
  · exact h.nothing

/-- One line goes from what is left to send into the channel, or the task ends. -/
theorem Conveys.send (entry : Entry) (h : Conveys r) (rest : Response) (same : SameReceiver r rest)
    (channel : rest.channel = r.channel) (received : rest.received = r.received) (gone : rest.gone = r.gone)
    (next : entry :: (rest.unsent ++ rest.holding.toList) = r.unsent ++ r.holding.toList)
    (going : rest.ended = false) (once : rest.followRx = none → rest.holding = none)
    (hstep : rest.send entry = some r') : Conveys r' ∧ SameReceiver r r' := by
  simp only [Response.send] at hstep
  split at hstep
  · rename_i isGone
    cases hstep
    refine ⟨⟨by rw [channel]; exact h.bounded, ?_, fun here => ?_, fun _ => .inl isGone, once⟩,
      ⟨same.recent, same.missed, same.followRx, same.heard, same.lost⟩⟩
    · rw [received, channel, same.recent, same.heard]
      exact h.order
    · rw [isGone] at here
      cases here
  · rename_i here
    split at hstep
    · rename_i room
      cases hstep
      have all := h.all (by rw [← gone]; exact Bool.eq_false_of_not_eq_true here)
      rw [← next] at all
      have moved : rest.received ++ (rest.channel ++ entries [entry]) ++
          entries (rest.unsent ++ rest.holding.toList) = entries (rest.recent ++ rest.heard) := by
        rw [same.recent, same.heard, ← all, received, channel]
        simp [entries]
      refine ⟨⟨?_, ⟨_, moved⟩, fun _ => moved, fun ended => absurd (going.symm.trans ended) Bool.false_ne_true,
        once⟩,
        ⟨same.recent, same.missed, same.followRx, same.heard, same.lost⟩⟩
      simp only [entries, List.length_append, List.length_map, List.length_singleton]
      omega
    · cases hstep

theorem Conveys.sendNext (h : Conveys r) (hstep : r.sendNext = some r') : Conveys r' ∧ SameReceiver r r' := by
  simp only [Response.sendNext] at hstep
  split at hstep
  · cases hstep
  · rename_i going
    have going := Bool.eq_false_of_not_eq_true going
    split at hstep
    · rename_i entry rest unsent
      exact h.send entry { r with unsent := rest } ⟨rfl, rfl, rfl, rfl, rfl⟩ rfl rfl rfl
        (by rw [unsent]; rfl) going h.once hstep
    · rename_i entry unsent holding
      exact h.send entry { r with holding := none } ⟨rfl, rfl, rfl, rfl, rfl⟩ rfl rfl rfl
        (by rw [unsent, holding]; rfl) going (fun _ => rfl) hstep
    · cases hstep

theorem Conveys.finish (h : Conveys r) (hstep : r.finish = some r') : Conveys r' ∧ SameReceiver r r' := by
  simp only [Response.finish] at hstep
  split at hstep
  · rename_i _ unsent followRx
    cases hstep
    exact ⟨⟨h.bounded, h.order, h.all, fun _ => .inr ⟨unsent, followRx⟩, h.once⟩, ⟨rfl, rfl, rfl, rfl, rfl⟩⟩
  · cases hstep

theorem Conveys.take (h : Conveys r) (hstep : r.take = some r') : Conveys r' ∧ SameReceiver r r' := by
  simp only [Response.take] at hstep
  split at hstep
  · rename_i entry rest channel
    cases hstep
    have same : r.received ++ [entry] ++ rest = r.received ++ r.channel := by simp [channel]
    refine ⟨⟨?_, by rw [same]; exact h.order, fun here => by rw [same]; exact h.all here, h.ended, h.once⟩,
      ⟨rfl, rfl, rfl, rfl, rfl⟩⟩
    have bounded := h.bounded
    rw [channel, List.length_cons] at bounded
    exact Nat.le_of_succ_le bounded
  · cases hstep

theorem Conveys.hangUp (h : Conveys r) : Conveys r.hangUp ∧ SameReceiver r r.hangUp := by
  refine ⟨⟨Nat.zero_le _, ?_, nofun, fun _ => .inl rfl, h.once⟩, ⟨rfl, rfl, rfl, rfl, rfl⟩⟩
  exact (List.append_nil r.received).symm ▸ (List.prefix_append _ _).trans h.order

/-- The receiver gets the next line, or is told how many it lost. -/
theorem receive_cases {capacity : Nat} {broadcasts : List Entry}
    (hstep : r.receive capacity broadcasts = some r') :
    r.ended = false ∧ r.unsent = [] ∧ r.holding = none ∧ ∃ cursor, r.followRx = some cursor ∧
      ((∃ entry cursor', recv capacity broadcasts cursor = some (.value entry, cursor') ∧
        r' = { r with followRx := some cursor', holding := some entry, heard := r.heard ++ [entry] }) ∨
      ∃ missed cursor', recv capacity broadcasts cursor = some (.lagged missed, cursor') ∧
        r' = { r with followRx := some cursor', lost := r.lost + missed }) := by
  simp only [Response.receive] at hstep
  split at hstep
  · rename_i cursor going unsent holding followRx
    refine ⟨going, unsent, holding, cursor, followRx, ?_⟩
    split at hstep
    · rename_i got
      exact .inl ⟨_, _, got, (Option.some.inj hstep).symm⟩
    · rename_i got
      exact .inr ⟨_, _, got, (Option.some.inj hstep).symm⟩
    · cases hstep
  · cases hstep

theorem Conveys.receive {capacity : Nat} {broadcasts : List Entry} (h : Conveys r)
    (hstep : r.receive capacity broadcasts = some r') : Conveys r' := by
  obtain ⟨going, unsent, holding, cursor, _, ⟨entry, cursor', _, rfl⟩ | ⟨missed, cursor', _, rfl⟩⟩ :=
    receive_cases hstep <;>
  have going (ended : r.ended = true) : False := by rw [going] at ended; cases ended
  · have more : entries (r.recent ++ (r.heard ++ [entry])) = entries (r.recent ++ r.heard) ++ entries [entry] := by
      rw [← List.append_assoc, entries_append]
    refine ⟨h.bounded, ?_, fun here => ?_, fun ended => (going ended).elim, nofun⟩
    · rw [more]
      exact h.order.trans (List.prefix_append ..)
    · have all := h.all here
      rw [unsent, holding, Option.toList_none, List.append_nil] at all
      rw [more, ← all, unsent]
      simp [entries]
  · exact ⟨h.bounded, h.order, h.all, fun ended => (going ended).elim, nofun⟩

theorem Follows.receive {capacity : Nat} {broadcasts : List Entry} (h : Follows broadcasts r)
    (hstep : r.receive capacity broadcasts = some r') : Follows broadcasts r' := by
  obtain ⟨_, _, _, cursor, followRx, ⟨entry, cursor', got, rfl⟩ | ⟨missed, cursor', got, rfl⟩⟩ :=
    receive_cases hstep
  · refine ⟨fun c at' => ?_, nofun⟩
    cases at'
    exact (h.heard cursor followRx).value got
  · refine ⟨fun c at' => ?_, nofun⟩
    cases at'
    exact (h.heard cursor followRx).lagged got

end Response

section

variable {s t : Logs}

theorem Logs.Stepped.config {a : LogAction} (h : s.Stepped a t) : t.config = s.config := by
  cases h <;> rfl

theorem Logs.Stepped.append_inv {r : Nat} {line : LogLine} (h : s.Stepped (.append r line) t) :
    ∃ entry : Entry, entry.line = line ∧ s.pending r = none ∧
      t.pending = Function.update s.pending r (some entry) ∧ t.appended = s.appended ++ [entry] ∧
      t.broadcasts = s.broadcasts := by
  cases h with
  | appends idle => exact ⟨_, rfl, idle, rfl, rfl, rfl⟩

theorem Logs.Stepped.broadcast_inv {r : Nat} {entry : Entry} (h : s.Stepped (.broadcast r) t)
    (pends : s.pending r = some entry) :
    t.pending = Function.update s.pending r none ∧ t.appended = s.appended ∧
      t.broadcasts = s.broadcasts ++ [entry] := by
  cases h with
  | broadcasts pends' =>
    cases pends.symm.trans pends'
    exact ⟨rfl, rfl, rfl⟩

theorem Logs.Stepped.grows {a : LogAction} (h : s.Stepped a t) :
    (∃ more, t.appended = s.appended ++ more) ∧ ∃ more, t.broadcasts = s.broadcasts ++ more := by
  cases h with
  | appends => exact ⟨⟨_, rfl⟩, [], by simp⟩
  | broadcasts => exact ⟨⟨[], by simp⟩, _, rfl⟩
  | snapshots | subscribes | streams => exact ⟨⟨[], by simp⟩, [], by simp⟩

end

namespace LogCall

variable {capacity : Nat}

/-- One case for each part that takes the step. -/
inductive Stepped (capacity : Nat) (s : LogCall) : CallAction → LogCall → Prop
  | appends {reader : Nat} {line : LogLine} {logs : Logs} (logged : s.logs.step (.append reader line) = some logs) :
      Stepped capacity s (.append reader line) { s with logs }
  | broadcasts {reader : Nat} {logs : Logs} (logged : s.logs.step (.broadcast reader) = some logs) :
      Stepped capacity s (.broadcast reader) { s with logs }
  | refuses {a : CallAction} {status : Status} (other : a ≠ .receive) (before : ∀ r, s.call ≠ .responding r) :
      Stepped capacity s a { s with call := .refused status }
  | snapshots {recent : List Entry} (asking : s.call = .asking)
      (found : getRecentLogs s.logs.name s.logs.config s.logs.buffer (requestedLines s.lines) = .ok recent) :
      Stepped capacity s .snapshot { s with call := .subscribing recent }
  | subscribes {recent : List Entry} {followRx : Option Nat} (subscribing : s.call = .subscribing recent)
      (receiver : followRx = if s.follow then some s.logs.broadcasts.length else none) :
      Stepped capacity s .subscribe { s with
        call := .responding (Response.spawned recent s.logs.broadcasts.length followRx) }
  | receives {response response' : Response} (responding : s.call = .responding response)
      (receives : response.receive capacity s.logs.broadcasts = some response') :
      Stepped capacity s .receive { s with call := .responding response' }
  | conveys {a : CallAction} {response response' : Response} (other : a ≠ .receive)
      (responding : s.call = .responding response)
      (conveys : response.Conveys → response'.Conveys ∧ response.SameReceiver response') :
      Stepped capacity s a { s with call := .responding response' }

theorem respond_inv {s t : LogCall} {act : Response → Option Response} (h : s.respond act = some t) :
    ∃ response response', s.call = .responding response ∧ act response = some response' ∧
      t = { s with call := .responding response' } := by
  simp only [respond] at h
  split at h
  · rename_i response responding
    obtain ⟨response', acts, rfl⟩ := Option.map_eq_some_iff.mp h
    exact ⟨response, response', responding, acts, rfl⟩
  · cases h

theorem step_stepped {s t : LogCall} {a : CallAction} (h : s.step capacity a = some t) :
    Stepped capacity s a t := by
  cases a with
  | append reader line =>
    obtain ⟨logs, logged, rfl⟩ := Option.map_eq_some_iff.mp h
    exact .appends logged
  | broadcast reader =>
    obtain ⟨logs, logged, rfl⟩ := Option.map_eq_some_iff.mp h
    exact .broadcasts logged
  | snapshot =>
    simp only [step] at h
    split at h
    · rename_i asking
      split at h
      · rename_i recent found
        cases h
        exact .snapshots asking found
      · cases h
        exact .refuses nofun fun r responding => by cases asking.symm.trans responding
    · cases h
  | subscribe =>
    simp only [step] at h
    split at h
    · rename_i recent subscribing
      split at h
      · rename_i follow
        split at h
        · cases h
          exact .subscribes subscribing (if_pos follow).symm
        · cases h
          exact .refuses nofun fun r responding => by cases subscribing.symm.trans responding
      · rename_i once
        cases h
        exact .subscribes subscribing (if_neg once).symm
    · cases h
  | send =>
    obtain ⟨response, response', responding, acts, rfl⟩ := respond_inv h
    exact .conveys nofun responding fun conveys => conveys.sendNext acts
  | receive =>
    obtain ⟨response, response', responding, acts, rfl⟩ := respond_inv h
    exact .receives responding acts
  | finish =>
    obtain ⟨response, response', responding, acts, rfl⟩ := respond_inv h
    exact .conveys nofun responding fun conveys => conveys.finish acts
  | take =>
    obtain ⟨response, response', responding, acts, rfl⟩ := respond_inv h
    exact .conveys nofun responding fun conveys => conveys.take acts
  | hangUp =>
    obtain ⟨response, response', responding, acts, rfl⟩ := respond_inv h
    cases acts
    exact .conveys nofun responding fun conveys => conveys.hangUp

/-! ## Every order of steps -/

/-- The most lines that a snapshot can have. -/
def window (lines : Int32) : Nat :=
  if requestedLines lines = 0 then logBufferCapacity else min (requestedLines lines) logBufferCapacity

/-- The snapshot is the end of what was appended. -/
theorem snapshot_latest {logs : Logs} (buffered : logs.Buffered) (name : String) {config : ProgramConfig}
    (forward : config.logForward = true) (lines : Int32) :
    getRecentLogs name config logs.buffer (requestedLines lines) = .ok (logs.appended.rtake (window lines)) := by
  rw [getRecentLogs_rtake forward, window]
  by_cases every : requestedLines lines = 0
  · rw [if_pos every, if_pos every, ← buffered, List.rtake, Nat.sub_self, List.drop_zero]
  · rw [if_neg every, if_neg every, ← rtake_rtake, ← buffered]

/-- A snapshot that is taken finds it. -/
theorem snapshot_found {logs : Logs} (buffered : logs.Buffered) {lines : Int32} {recent : List Entry}
    (found : getRecentLogs logs.name logs.config logs.buffer (requestedLines lines) = .ok recent) :
    recent = logs.appended.rtake (window lines) := by
  have forward : logs.config.logForward = true := by
    by_contra off
    rw [getRecentLogs, if_neg off] at found
    cases found
  rw [snapshot_latest buffered logs.name forward] at found
  exact (Except.ok.inj found).symm

/-- What a call gets that does not follow. -/
theorem getLogs_latest {name : String} {config : ProgramConfig} (forward : config.logForward = true)
    {logs : Logs} (buffered : logs.Buffered) (lines : Int32) :
    getLogs name (some (config, logs.buffer.map (·.line))) lines =
      .ok ((logs.appended.rtake (window lines)).map fun entry => toLogEntry entry.line) := by
  have found := snapshot_latest buffered name forward lines
  rw [getRecentLogs, if_pos forward] at found
  simp only [getLogs, getRecentLogs, forward, if_true, List.length_map, ← List.map_drop,
    Except.ok.inj found, List.map_map]
  rfl

structure Sound (lines : Int32) (s : LogCall) : Prop where
  asked : s.lines = lines
  buffered : s.logs.Buffered
  responding : ∀ r, s.call = .responding r → r.Conveys ∧ r.Follows s.logs.broadcasts

theorem start_sound (name : String) (config : ProgramConfig) (lines : Int32) (follow : Bool) :
    Sound lines (start name config lines follow) :=
  ⟨rfl, Logs.start_buffered name config, nofun⟩

/-- The readers go on beside the call. -/
theorem Sound.logged {lines : Int32} {s : LogCall} (h : Sound lines s) {a : LogAction} {logs : Logs}
    (logged : s.logs.step a = some logs) : Sound lines { s with logs } := by
  obtain ⟨_, more, broadcasts⟩ := (Logs.step_stepped logged).grows
  refine ⟨h.asked, h.buffered.step logged, fun r call => ?_⟩
  obtain ⟨conveys, follows⟩ := h.responding r call
  rw [broadcasts]
  exact ⟨conveys, fun cursor at' => (follows.heard cursor at').send more, follows.nothing⟩

theorem Sound.step {lines : Int32} {s t : LogCall} {a : CallAction} (h : Sound lines s)
    (hstep : s.step capacity a = some t) : Sound lines t := by
  cases step_stepped hstep with
  | appends logged | broadcasts logged => exact h.logged logged
  | refuses | snapshots => exact ⟨h.asked, h.buffered, nofun⟩
  | @subscribes recent followRx subscribing receiver =>
    refine ⟨h.asked, h.buffered, fun r call => ?_⟩
    cases call
    refine ⟨⟨Nat.zero_le _, List.nil_prefix, fun _ => by simp [Response.spawned], nofun, fun _ => rfl⟩,
      fun cursor at' => ?_, fun _ => ⟨rfl, rfl⟩⟩
    -- the receiver starts behind the last line broadcast
    have here : cursor = s.logs.broadcasts.length := by
      simp only [Response.spawned, receiver] at at'
      split at at'
      · exact (Option.some.inj at').symm
      · cases at'
    rw [here]
    exact Heard.subscribe _
  | receives responding receives =>
    obtain ⟨conveys, follows⟩ := h.responding _ responding
    refine ⟨h.asked, h.buffered, fun r call => ?_⟩
    cases call
    exact ⟨conveys.receive receives, follows.receive receives⟩
  | conveys other responding act =>
    obtain ⟨conveys, follows⟩ := h.responding _ responding
    refine ⟨h.asked, h.buffered, fun r call => ?_⟩
    cases call
    obtain ⟨conveys', same⟩ := act conveys
    exact ⟨conveys', same.follows follows⟩

theorem reached_sound {name : String} {config : ProgramConfig} {lines : Int32} {follow : Bool}
    {trace : List (LogCall × CallAction)} {s : LogCall}
    (run : Exec (step capacity) (start name config lines follow) trace s) : Sound lines s :=
  (run.invariant (fun _ _ _ h hstep => h.step hstep) (start_sound name config lines follow)).1

/-! ## Where the call was taken -/

/-- `recent` is the end of the log as it was at the one snapshot of the run. -/
def AtSnapshot (lines : Int32) (trace : List (LogCall × CallAction)) (recent : List Entry) : Prop :=
  ∃ taken, Only trace .snapshot taken ∧ recent = taken.1.logs.appended.rtake (window lines)

/-- `missed` lines had been broadcast at the one subscription of the run. -/
def AtSubscription (trace : List (LogCall × CallAction)) (missed : Nat) : Prop :=
  ∃ joined, Only trace .subscribe joined ∧ missed = joined.1.logs.broadcasts.length

/-- What the call has of its snapshot and its subscription, as far as it has come. -/
def Taken (lines : Int32) (trace : List (LogCall × CallAction)) (s : LogCall) : Prop :=
  match s.call with
  | .asking => ∀ p ∈ trace, p.2 ≠ .snapshot ∧ p.2 ≠ .subscribe
  | .subscribing recent => (∀ p ∈ trace, p.2 ≠ .subscribe) ∧ AtSnapshot lines trace recent
  | .refused _ => True
  | .responding r => AtSnapshot lines trace r.recent ∧ AtSubscription trace r.missed

section

variable {lines : Int32} {trace : List (LogCall × CallAction)} {s t : LogCall} {a : CallAction}

theorem AtSnapshot.tail {recent : List Entry} (h : AtSnapshot lines trace recent) (other : a ≠ .snapshot) :
    AtSnapshot lines ((s, a) :: trace) recent := by
  obtain ⟨taken, only, same⟩ := h
  exact ⟨taken, only.tail other, same⟩

theorem AtSubscription.tail {missed : Nat} (h : AtSubscription trace missed) (other : a ≠ .subscribe) :
    AtSubscription ((s, a) :: trace) missed := by
  obtain ⟨joined, only, same⟩ := h
  exact ⟨joined, only.tail other, same⟩

/-- The call is where it was. -/
theorem Taken.stays (h : Taken lines trace s) (call : t.call = s.call) (snapshot : a ≠ .snapshot)
    (subscribe : a ≠ .subscribe) : Taken lines ((s, a) :: trace) t := by
  unfold Taken at h ⊢
  rw [call]
  cases phase : s.call with
  | asking =>
    rw [phase] at h
    exact List.forall_mem_cons.mpr ⟨⟨snapshot, subscribe⟩, h⟩
  | subscribing recent =>
    rw [phase] at h
    exact ⟨List.forall_mem_cons.mpr ⟨subscribe, h.1⟩, h.2.tail snapshot⟩
  | refused => trivial
  | responding r =>
    rw [phase] at h
    exact ⟨h.1.tail snapshot, h.2.tail subscribe⟩

/-- A call that responds neither takes a snapshot nor subscribes. -/
theorem step_responds {r : Response} (hstep : s.step capacity a = some t) (responding : s.call = .responding r) :
    a ≠ .snapshot ∧ a ≠ .subscribe := by
  constructor <;> rintro rfl <;> simp [step, responding] at hstep

theorem Taken.responds {r r' : Response} (h : Taken lines trace s) (hstep : s.step capacity a = some t)
    (responding : s.call = .responding r) (responding' : t.call = .responding r') (recent : r'.recent = r.recent)
    (missed : r'.missed = r.missed) : Taken lines ((s, a) :: trace) t := by
  obtain ⟨snapshot, subscribe⟩ := step_responds hstep responding
  simp only [Taken, responding] at h
  simp only [Taken, responding', recent, missed]
  exact ⟨h.1.tail snapshot, h.2.tail subscribe⟩

theorem Taken.step (h : Taken lines trace s) (sound : Sound lines s) (hstep : s.step capacity a = some t) :
    Taken lines ((s, a) :: trace) t := by
  cases step_stepped hstep with
  | appends | broadcasts => exact h.stays rfl (by simp) (by simp)
  | refuses => trivial
  | @snapshots recent asking found =>
    simp only [Taken, asking] at h
    refine ⟨List.forall_mem_cons.mpr ⟨by simp, fun p member => (h p member).2⟩, _,
      .first fun p member => (h p member).1, ?_⟩
    exact snapshot_found sound.buffered (sound.asked ▸ found)
  | @subscribes recent followRx subscribing =>
    simp only [Taken, subscribing] at h
    exact ⟨h.2.tail (by simp), _, .first h.1, rfl⟩
  | receives responding receives =>
    obtain ⟨_, _, _, cursor, _, ⟨entry, cursor', _, rfl⟩ | ⟨missed, cursor', _, rfl⟩⟩ :=
      Response.receive_cases receives <;>
    exact h.responds hstep responding rfl rfl rfl
  | conveys other responding act =>
    have same := (act (sound.responding _ responding).1).2
    exact h.responds hstep responding rfl same.recent same.missed

end

theorem run_taken {name : String} {config : ProgramConfig} {lines : Int32} {follow : Bool}
    {trace : List (LogCall × CallAction)} {s : LogCall}
    (run : Exec (step capacity) (start name config lines follow) trace s) : Taken lines trace s := by
  induction run with
  | refl => exact fun p member => absurd member List.not_mem_nil
  | tail earlier last ih => exact ih.step (reached_sound earlier) last

/-- What was logged and broadcast at some time of the run is the beginning of what is now. -/
theorem run_grows {start s : LogCall} {trace : List (LogCall × CallAction)}
    (run : Exec (step capacity) start trace s) : ∀ p ∈ trace,
      p.1.logs.appended <+: s.logs.appended ∧ p.1.logs.broadcasts <+: s.logs.broadcasts := by
  refine run.since (R := fun s t => s.logs.appended <+: t.logs.appended ∧ s.logs.broadcasts <+: t.logs.broadcasts)
    (fun _ => ⟨List.prefix_refl _, List.prefix_refl _⟩) fun r s a t begins hstep => ?_
  cases step_stepped hstep with
  | appends logged | broadcasts logged =>
    obtain ⟨⟨more, appended⟩, more', broadcasts⟩ := (Logs.step_stepped logged).grows
    dsimp only
    rw [appended, broadcasts]
    exact ⟨begins.1.trans (List.prefix_append ..), begins.2.trans (List.prefix_append ..)⟩
  | refuses | snapshots | subscribes | receives | conveys => exact begins

/-- What the client has received, and what is on its way, is the end of the log as it was at the
    snapshot, and then lines broadcast since the subscription, each once and in their order: all of
    them up to the receiver's cursor but as many as the receiver was told that it lost. -/
theorem response_conveys {name : String} {config : ProgramConfig} {lines : Int32} {follow : Bool}
    {trace : List (LogCall × CallAction)} {s : LogCall}
    (run : Exec (step capacity) (start name config lines follow) trace s) {r : Response}
    (responds : s.call = .responding r) :
    (∃ taken, Only trace .snapshot taken ∧ taken.1.logs.appended <+: s.logs.appended ∧
      r.recent = taken.1.logs.appended.rtake (window lines)) ∧
    (∃ joined, Only trace .subscribe joined ∧ joined.1.logs.broadcasts <+: s.logs.broadcasts ∧
      r.missed = joined.1.logs.broadcasts.length) ∧
    r.received ++ r.channel <+: Response.entries (r.recent ++ r.heard) ∧
    (r.gone = false → r.received ++ r.channel ++ Response.entries (r.unsent ++ r.holding.toList) =
      Response.entries (r.recent ++ r.heard)) ∧
    (∀ cursor, r.followRx = some cursor →
      r.heard.Sublist ((s.logs.broadcasts.take cursor).drop r.missed) ∧
      cursor = r.missed + r.heard.length + r.lost ∧ cursor ≤ s.logs.broadcasts.length) ∧
    (r.followRx = none → r.heard = []) ∧
    r.channel.length ≤ responseCapacity := by
  obtain ⟨conveys, follows⟩ := (reached_sound run).responding r responds
  have was := run_taken run
  simp only [Taken, responds] at was
  obtain ⟨⟨taken, snapshot, recent⟩, joined, subscription, missed⟩ := was
  refine ⟨⟨taken, snapshot, (run_grows run taken snapshot.member).1, recent⟩,
    ⟨joined, subscription, (run_grows run joined subscription.member).2, missed⟩, conveys.order, conveys.all,
    fun cursor at' => ?_, fun once => (follows.nothing once).1, conveys.bounded⟩
  have heard := follows.heard cursor at'
  exact ⟨heard.order, heard.counted, heard.within⟩

/-- The first line is in the snapshot; of the two that follow, one is lost to a channel for one. -/
theorem response_conveys_lagged : ∃ (trace : List (LogCall × CallAction)) (s : LogCall) (r : Response),
    Exec (step 1) (start "web" { command := "web", logForward := true } 0 true) trace s ∧
    s.call = .responding r ∧ r.received.map (·.message) = ["one", "three"] ∧
    (∃ taken, Only trace .snapshot taken ∧ taken.1.logs.appended <+: s.logs.appended ∧
      r.recent = taken.1.logs.appended.rtake (window 0)) ∧
    (∃ joined, Only trace .subscribe joined ∧ joined.1.logs.broadcasts <+: s.logs.broadcasts ∧
      r.missed = joined.1.logs.broadcasts.length) ∧
    r.received ++ r.channel <+: Response.entries (r.recent ++ r.heard) ∧
    (r.gone = false → r.received ++ r.channel ++ Response.entries (r.unsent ++ r.holding.toList) =
      Response.entries (r.recent ++ r.heard)) ∧
    (∀ cursor, r.followRx = some cursor →
      r.heard.Sublist ((s.logs.broadcasts.take cursor).drop r.missed) ∧
      cursor = r.missed + r.heard.length + r.lost ∧ cursor ≤ s.logs.broadcasts.length) ∧
    (r.followRx = none → r.heard = []) ∧
    r.channel.length ≤ responseCapacity := by
  let line (message : String) : LogLine := { timestampMs := 0, source := .stdout, message }
  obtain ⟨s, r, hs, responds, messages⟩ : ∃ s r, runs (step 1)
      (start "web" { command := "web", logForward := true } 0 true)
      [.append 0 (line "one"), .broadcast 0, .snapshot, .subscribe, .append 0 (line "two"), .broadcast 0,
        .append 0 (line "three"), .broadcast 0, .send, .receive, .receive, .send, .take, .take] = some s ∧
      s.call = .responding r ∧ r.received.map (·.message) = ["one", "three"] := ⟨_, _, rfl, rfl, rfl⟩
  obtain ⟨trace, run, _⟩ := exec_of_runs hs
  exact ⟨trace, s, r, run, responds, messages, response_conveys run responds⟩

/-- How many lines the receiver is behind. -/
def behind (s : LogCall) : Nat :=
  match s.call with
  | .responding r => (r.followRx.map (Data.behind s.logs.broadcasts)).getD 0
  | _ => 0

/-- So far the receiver was never told that it lost lines. -/
def Complete (s : LogCall) : Prop := ∀ r, s.call = .responding r → r.lost = 0

/-- The receiver does not go for a line when it is further behind than the channel reaches. -/
def KeepsUp (capacity : Nat) (s : LogCall) (a : CallAction) : Prop := a = .receive → s.behind ≤ capacity

theorem complete_step {lines : Int32} {s t : LogCall} {a : CallAction} (sound : Sound lines s) (h : Complete s)
    (hstep : s.step capacity a = some t) : Complete t ↔ KeepsUp capacity s a := by
  cases step_stepped hstep with
  | appends | broadcasts => exact iff_of_true h nofun
  | refuses other => exact iff_of_true nofun fun same => absurd same other
  | snapshots => exact iff_of_true nofun nofun
  | subscribes =>
    refine iff_of_true (fun r call => ?_) nofun
    cases call
    rfl
  | receives responding receives =>
    have none := h _ responding
    obtain ⟨_, _, _, cursor, followRx, ⟨entry, cursor', got, rfl⟩ | ⟨missed, cursor', got, rfl⟩⟩ :=
      Response.receive_cases receives
    · refine iff_of_true (fun r call => ?_) fun _ => ?_
      · cases call
        exact none
      · simpa [behind, responding, followRx] using (recv_value got).1
    · obtain ⟨far, lost, _⟩ := recv_lagged got
      refine iff_of_false (fun complete => ?_) fun near => ?_
      · have : _ + missed = 0 := complete _ rfl
        omega
      · have bound := near rfl
        simp only [behind, responding, followRx, Option.map_some, Option.getD_some] at bound
        omega
  | conveys other responding act =>
    refine iff_of_true (fun r call => ?_) fun same => absurd same other
    cases call
    rw [(act (sound.responding _ responding).1).2.lost]
    exact h _ responding

/-- What is lost stays lost. -/
theorem complete_back {lines : Int32} {s t : LogCall} {a : CallAction} (sound : Sound lines s)
    (hstep : s.step capacity a = some t) (h : Complete t) : Complete s := by
  intro r responds
  cases step_stepped hstep with
  | appends | broadcasts => exact h r responds
  | refuses _ before => exact absurd responds (before r)
  | snapshots before | subscribes before => cases before.symm.trans responds
  | receives responding receives =>
    cases responding.symm.trans responds
    obtain ⟨_, _, _, cursor, followRx, ⟨entry, cursor', got, rfl⟩ | ⟨missed, cursor', got, rfl⟩⟩ :=
      Response.receive_cases receives
    · have kept := h _ rfl
      exact kept
    · have : r.lost + missed = 0 := h _ rfl
      omega
  | conveys other responding act =>
    cases responding.symm.trans responds
    rw [← (act (sound.responding r responds).1).2.lost]
    exact h _ rfl

/-- Nothing is lost in a run exactly if the receiver keeps up all the way. -/
theorem complete_iff {name : String} {config : ProgramConfig} {lines : Int32} {follow : Bool}
    {trace : List (LogCall × CallAction)} {s : LogCall}
    (run : Exec (step capacity) (start name config lines follow) trace s) :
    Complete s ↔ ∀ p ∈ trace, KeepsUp capacity p.1 p.2 :=
  run.last_good_iff (fun _ _ _ (h : Sound lines _) hstep => h.step hstep) (fun _ _ _ => complete_back)
    (fun _ _ _ => complete_step) (start_sound name config lines follow) nofun

/-- The client gets every line from the subscription on, in their order, as far as the receiver is,
    if and only if the receiver never went for a line when it was further behind than the
    channel reaches. -/
theorem nothing_lost_iff {name : String} {config : ProgramConfig} {lines : Int32} {follow : Bool}
    {trace : List (LogCall × CallAction)} {s : LogCall}
    (run : Exec (step capacity) (start name config lines follow) trace s) {r : Response} {cursor : Nat}
    (responds : s.call = .responding r) (follows : r.followRx = some cursor) :
    r.heard = (s.logs.broadcasts.take cursor).drop r.missed ↔ ∀ p ∈ trace, KeepsUp capacity p.1 p.2 := by
  have heard := ((reached_sound run).responding r responds).2.heard cursor follows
  have complete : Complete s ↔ r.lost = 0 :=
    ⟨fun h => h r responds, fun none r' call => by cases responds.symm.trans call; exact none⟩
  rw [heard.all_iff, ← complete, complete_iff run]

/-- With room for two lines nothing is lost in the same order of steps. -/
theorem nothing_lost_iff_two : ∃ (trace : List (LogCall × CallAction)) (s : LogCall) (r : Response),
    Exec (step 2) (start "web" { command := "web", logForward := true } 0 true) trace s ∧
    s.call = .responding r ∧ r.followRx = some 3 ∧ r.heard.length = 2 ∧
    (r.heard = (s.logs.broadcasts.take 3).drop r.missed ↔ ∀ p ∈ trace, KeepsUp 2 p.1 p.2) := by
  let line (message : String) : LogLine := { timestampMs := 0, source := .stdout, message }
  obtain ⟨s, r, hs, responds, follows, two⟩ : ∃ s r, runs (step 2)
      (start "web" { command := "web", logForward := true } 0 true)
      [.append 0 (line "one"), .broadcast 0, .snapshot, .subscribe, .append 0 (line "two"), .broadcast 0,
        .append 0 (line "three"), .broadcast 0, .send, .receive, .send, .receive] = some s ∧
      s.call = .responding r ∧ r.followRx = some 3 ∧ r.heard.length = 2 := ⟨_, _, rfl, rfl, rfl, rfl⟩
  obtain ⟨trace, run, _⟩ := exec_of_runs hs
  exact ⟨trace, s, r, run, responds, follows, two, nothing_lost_iff run responds follows⟩

end LogCall

end Ciron
