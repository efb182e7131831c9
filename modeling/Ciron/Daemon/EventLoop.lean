import Ciron.Daemon.Calls
import Ciron.Process.Attempts

/-! # The drain of the event loop

`while mgr.handle_single_event().await {}`, with nothing else sending in between.  A restart
request can lengthen the queue, by one `Started` event for each program its call spawns; so
it counts for as many turns as there are programs, and one more (`load`). -/

namespace Ciron

namespace Daemon

variable (split : String → Option (List String))

/-- The turns the loop takes and the manager at its end, if it ends with less than `fuel`
    turns and without a panic.  `os n` answers the spawns of call `n`. -/
def drain : Nat → (Nat → String → Option Nat) → Daemon → Option (Nat × Daemon)
  | 0, _, _ => none
  | fuel + 1, os, d =>
    match d.handleSingleEvent split (os 0) with
    | none => none
    | some (false, d) => some (0, d)
    | some (true, d) => (drain fuel (fun n => os (n + 1)) d).map fun (turns, d) => (turns + 1, d)

def isRestartRequest (m : Message) : Bool :=
  match m.event with
  | .restartRequested _ => true
  | _ => false

def restartRequests (events : List Message) : Nat := events.countP isRestartRequest

/-- A bound on the turns that a queue keeps the loop busy. -/
def load (programs : Nat) (events : List Message) : Nat :=
  events.length + restartRequests events * programs

/-! ## What a call sends -/

theorem startProcessSingle_sends (d : Daemon) (name : String) (spawn : Option Nat) :
    ∃ sent, (startProcessSingle split d name spawn).2.events = d.events ++ sent ∧ sent.length ≤ 1 ∧
      ∀ m ∈ sent, isRestartRequest m = false := by
  have outcome := startProcessSingle_outcome split d name spawn
  generalize startProcessSingle split d name spawn = ran at outcome ⊢
  cases outcome with
  | unknown | alreadyRunning | spawnFails => exact ⟨[], by simp, by simp, by simp⟩
  | launches process command pid =>
    simp only [launch, setProcess_events, post_events, note_events, note_closed]
    by_cases closed : d.closed = true
    · exact ⟨[], by simp [closed], by simp, by simp⟩
    · exact ⟨[{ event := .started name }], by simp [closed], by simp, by simp [isRestartRequest]⟩

theorem startUnits_sends (root : String) (os : String → Option Nat) (acc : Option (Except String Unit))
    (d : Daemon) (order : List String) :
    ∃ sent, (startUnits split root os acc d order).2.events = d.events ++ sent ∧
      sent.length ≤ order.length ∧ ∀ m ∈ sent, isRestartRequest m = false := by
  induction order generalizing acc d with
  | nil => exact ⟨[], by simp [startUnits], by simp, by simp⟩
  | cons unit rest ih =>
    obtain ⟨first, hfirst, hone, hstarted⟩ := startProcessSingle_sends split d unit (os unit)
    obtain ⟨later, hlater, hrest, hstartedLater⟩ :=
      ih ((d.startUnit split root unit (os unit)).1.or acc) (d.startUnit split root unit (os unit)).2
    refine ⟨first ++ later, ?_, ?_, fun m member => ?_⟩
    · rw [startUnit_daemon] at hlater
      simp only [startUnits, startUnit_daemon]
      rw [hlater, hfirst, List.append_assoc]
    · simp only [List.length_append, List.length_cons]
      omega
    · exact (List.mem_append.mp member).elim (hstarted m) (hstartedLater m)

theorem keys_congr {processes processes' : ProcessTable} (configs : configOf processes' = configOf processes) :
    processes'.keys = processes.keys := by
  ext name
  rw [Finmap.mem_keys, Finmap.mem_keys, mem_congr configs]

theorem startProcess_sends (d : Daemon) (name : String) (os : String → Option Nat) :
    ∃ result d' sent, d.startProcess split name os = some (result, d') ∧
      configOf d'.processes = configOf d.processes ∧ d'.events = d.events ++ sent ∧
      sent.length ≤ d.processes.keys.card ∧ ∀ m ∈ sent, isRestartRequest m = false := by
  by_cases known : name ∈ d.processes
  · obtain ⟨order, resolved, hnodup, hmem⟩ := resolveStartOrder_known known
    obtain ⟨result, hcall, _⟩ := startProcess_resolved split resolved os
    obtain ⟨sent, hevents, hlength, hstarted⟩ := startUnits_sends split name os none d order
    have hcard : order.length ≤ d.processes.keys.card :=
      length_le_card hnodup fun u member => ((hmem u).mp member).known known
    exact ⟨result, _, sent, hcall, startUnits_configs split name os none d order, hevents,
      hlength.trans hcard, hstarted⟩
  · refine ⟨.error (notFound name), d, [], ?_, rfl, by simp, by simp, by simp⟩
    rw [startProcess, resolveStartOrder_unknown known]

/-! ## The loop -/

/-- A call that takes an event lightens the load. -/
theorem handleSingleEvent_load {d : Daemon} {message : Message} {rest : List Message}
    (queued : d.events = message :: rest) (os : String → Option Nat) :
    ∃ d', d.handleSingleEvent split os = some (true, d') ∧ d'.processes.keys = d.processes.keys ∧
      load d.processes.keys.card d'.events < load d.processes.keys.card d.events := by
  have received : (d.receive message rest).events = rest := rfl
  -- the three arms that start nothing send nothing
  have reports : ∀ event, ∃ d', some (true, (d.receive message rest).onReport event) = some (true, d') ∧
      d'.processes.keys = d.processes.keys ∧
      load d.processes.keys.card d'.events < load d.processes.keys.card (message :: rest) := by
    intro event
    refine ⟨_, rfl, keys_congr (onReport_keeps (d.receive message rest) event).configs, ?_⟩
    rw [onReport_events, received]
    simp only [load, restartRequests, List.length_cons, List.countP_cons, Nat.add_mul]
    omega
  rw [handleSingleEvent, queued]
  dsimp only
  split
  · rename_i name request
    obtain ⟨result, d', sent, hcall, configs, hevents, hlength, hstarted⟩ :=
      startProcess_sends split (d.receive message rest) name os
    refine ⟨d', by rw [hcall]; rfl, keys_congr configs, ?_⟩
    have restarts : isRestartRequest message = true := by rw [isRestartRequest, request]
    have none : sent.countP isRestartRequest = 0 :=
      List.countP_eq_zero.mpr fun m member => by simp [hstarted m member]
    have hlength : sent.length ≤ d.processes.keys.card := hlength
    rw [hevents, received]
    simp only [load, restartRequests, List.length_append, List.length_cons, List.countP_append, none,
      List.countP_cons_of_pos restarts, Nat.add_mul, Nat.one_mul, Nat.add_zero]
    omega
  · exact reports message.event

/-- The drain ends with an empty queue, after at most one turn for each event and one more
    for each program and restart request. -/
theorem drain_ends (d : Daemon) (os : Nat → String → Option Nat) :
    ∃ turns d', turns ≤ d.events.length + restartRequests d.events * d.processes.keys.card ∧
      d'.events = [] ∧ ∀ fuel, turns < fuel → drain split fuel os d = some (turns, d') := by
  show ∃ turns d', turns ≤ load d.processes.keys.card d.events ∧ _
  induction heavy : load d.processes.keys.card d.events using Nat.strong_induction_on generalizing d os with
  | _ weight ih =>
    cases queued : d.events with
    | nil =>
      refine ⟨0, d, Nat.zero_le _, queued, fun fuel more => ?_⟩
      obtain ⟨fuel, rfl⟩ := Nat.exists_eq_add_of_lt more
      rw [drain, handleSingleEvent, queued]
    | cons message rest =>
      obtain ⟨next, hcall, hkeys, lighter⟩ := handleSingleEvent_load split queued (os 0)
      rw [heavy, ← hkeys] at lighter
      obtain ⟨turns, d', hturns, hempty, hdrain⟩ := ih _ lighter next (fun n => os (n + 1)) rfl
      refine ⟨turns + 1, d', by omega, hempty, fun fuel more => ?_⟩
      obtain ⟨fuel, rfl⟩ := Nat.exists_eq_succ_of_ne_zero (Nat.ne_zero_of_lt more)
      simp only [drain, hcall, hdrain fuel (by omega), Option.map_some]

end Daemon

end Ciron
