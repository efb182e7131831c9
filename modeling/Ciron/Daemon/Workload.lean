import Ciron.Data.Counting
import Ciron.Daemon.Boot
import Ciron.Daemon.Delivery
import Ciron.Daemon.EventLoop
import Ciron.Daemon.Orders
import Ciron.Daemon.Phases
import Ciron.Transition.Budget

/-! # The work a stimulus costs

The daemon works by itself: it attempts the units of a call, handles events, takes the result of a
wait, reports it and lets restart sleeps end.  All of this goes back to the calls of the boot, to
requests of clients and to exits of children.  What each thing under way can still lead to is its
cost: a restart sleep costs a `RestartRequested`, that a call, a call one attempt for each program,
and an attempt a child whose wait can fail.  A child's exit costs more only once it happens, so
restarts do not pay for themselves: `work_bounded`. -/

namespace Ciron

open Data Transition

variable {split : String → Option (List String)}

/-- A step that the daemon takes by itself. -/
def Action.works : Action → Bool
  | .startUnit _ | .restartWakes | .handleSingleEvent | .childReaped .. | .monitorSends _ | .timerFires _ => true
  | _ => false

/-- A call for a start, that of a client or of the boot, or the exit of a child. -/
def Action.stimulates : Action → Bool
  | .startProcess _ | .restartProcess .. | .childExits .. => true
  | _ => false

/-! ## What is under way, and its cost -/

section

variable (programs : Nat)

/-- To begin a call and attempt its units.  An attempt can come to a spawn, a `Started` to handle,
    and a wait on the new child that fails, is reported and handled. -/
def requestCost : Nat := 1 + 5 * programs

def sleepCost : Nat := 1 + requestCost programs

def exitedCost : Nat := 1 + sleepCost programs

def ProcessEvent.cost : ProcessEvent → Nat
  | .started _ | .failed .. => 1
  | .exited .. => exitedCost programs
  | .restartRequested _ => requestCost programs

/-- What the handling of the event itself takes: a `RestartRequested` turns into the call. -/
def ProcessEvent.taken : ProcessEvent → Nat
  | .restartRequested _ => requestCost programs
  | _ => 1

/-- The report that the child's monitor may still send, if the child does not exit from now on. -/
def Child.reportCost (c : Child) : Nat :=
  match c.reaped, c.exit with
  | some (.error _), _ => 1
  | none, none => 1
  | some (.status _), _ => exitedCost programs
  | none, some _ => exitedCost programs

def Child.cost (c : Child) : Nat :=
  (if c.reaped = none then 1 else 0) + if c.monitor = .waiting then 1 + c.reportCost programs else 0

def Lock.cost : Lock → Nat
  | .starting _ _ rest => 5 * rest.length
  | .restarting _ => requestCost programs
  | _ => 0

@[simp] theorem Lock.resume_cost (caller : Caller) (root : String) (rest : List String) :
    (Lock.resume caller root rest).cost programs = 5 * rest.length := by
  cases rest <;> cases caller <;> rfl

def Daemon.cost (d : Daemon) : Nat :=
  (d.children.map (Child.cost programs)).sum + (d.events.map (·.event.cost programs)).sum +
    d.timers.length * sleepCost programs

def System.cost (s : System) : Nat := s.toDaemon.cost programs + s.lock.cost programs

end

theorem ProcessEvent.cost_pos (programs : Nat) (event : ProcessEvent) : 1 ≤ event.cost programs := by
  unfold cost exitedCost requestCost
  split <;> omega

theorem ProcessEvent.taken_pos (programs : Nat) (event : ProcessEvent) : 1 ≤ event.taken programs := by
  unfold taken requestCost
  split <;> omega

namespace Daemon

variable (programs : Nat) {d d' : Daemon}

theorem Child.cost_halted (c : Child) (process : ManagedProcess) (late : Bool) (task : Nat) :
    (c.halted process late task).cost programs ≤ c.cost programs := by
  unfold Child.cost Child.reportCost
  rw [Child.halted_reaped, Child.halted_exit, Child.halted_monitor, Child.abort_monitor]
  -- an aborted monitor reports nothing
  split_ifs <;> simp_all

/-! ## What the moves cost -/

theorem cost_eq (d : Daemon) : d.cost programs =
    (d.children.map (Child.cost programs)).sum + (d.events.map (·.event.cost programs)).sum +
      d.timers.length * sleepCost programs := rfl

/-- A message sent costs what it costs to handle, unless the channel refuses it. -/
theorem post_cost (d : Daemon) (event : ProcessEvent) (sender : Option Nat) :
    (d.post { event, sender }).cost programs ≤ d.cost programs + event.cost programs := by
  rw [cost_eq, cost_eq, post_children, post_timers, post_events]
  split
  · omega
  · rw [List.map_append, List.sum_append, List.map_singleton, List.sum_singleton]
    dsimp only
    omega

/-- A child replaced by one that costs less. -/
theorem set_cost {task : Nat} {c : Child} (c' : Child) (child : d.children[task]? = some c) :
    ({ d with children := d.children.set task c' } : Daemon).cost programs + c.cost programs =
      d.cost programs + c'.cost programs := by
  have sums := sum_map_set (Child.cost programs) c' child
  simp only [cost_eq]
  omega

theorem startProcessSingle_cost (split : String → Option (List String)) (d : Daemon) (name : String)
    (spawn : Option Nat) :
    (startProcessSingle split d name spawn).2.cost programs ≤ d.cost programs + 4 := by
  have outcome := startProcessSingle_outcome split d name spawn
  generalize startProcessSingle split d name spawn = ran at outcome ⊢
  cases outcome with
  | unknown | alreadyRunning => exact Nat.le_add_right ..
  | spawnFails => exact Nat.le_add_right ..
  | launches process command pid =>
    -- the new child can be waited for, reported and handled; its `Started` can be handled
    have child : Child.cost programs
        { program := name, command, pid, logForward := process.config.logForward } = 3 := rfl
    rw [cost_eq, cost_eq, launch_children, launch_timers, launch_events, List.map_append, List.sum_append,
      List.map_singleton, List.sum_singleton, child]
    split
    · omega
    · rw [List.map_append, List.sum_append, List.map_singleton, List.sum_singleton, ProcessEvent.cost]
      omega

theorem stopProcess_cost (d : Daemon) (name : String) (late : Bool) :
    (d.stopProcess name late).2.cost programs ≤ d.cost programs := by
  rw [stopProcess]
  split
  · exact Nat.le_refl _
  · rename_i process found
    split
    · exact Nat.le_refl _
    · have children : ((d.halt name process late).children.map (Child.cost programs)).sum ≤
          (d.children.map (Child.cost programs)).sum := by
        refine sum_map_le fun task c' child' => ?_
        rw [halt_children, Option.map_eq_some_iff] at child'
        obtain ⟨c, child, rfl⟩ := child'
        exact ⟨c, child, Child.cost_halted programs c process late task⟩
      dsimp only
      rw [cost_eq, cost_eq, halt_events, halt_timers]
      omega

/-- Handling an event pays for the handling, and for what it leads to. -/
theorem onReport_cost {m : Message} {rest : List Message} (queued : d.events = m :: rest) :
    ((d.receive m rest).onReport m.event).cost programs +
        m.event.taken programs ≤ d.cost programs := by
  have timers := onReport_receive_timers d m rest
  have received : (d.receive m rest).events = rest := rfl
  have before : d.cost programs = (d.children.map (Child.cost programs)).sum +
      (m.event.cost programs + (rest.map (·.event.cost programs)).sum) +
        d.timers.length * sleepCost programs := by
    rw [cost_eq, queued, List.map_cons, List.sum_cons]
  rw [cost_eq, onReport_children, onReport_events, received, timers, before]
  have children : (d.receive m rest).children = d.children := rfl
  rw [children]
  cases event : m.event with
  | started name | restartRequested name =>
    simp only [onReport, ProcessEvent.taken, ProcessEvent.cost]
    omega
  | failed name error =>
    simp only [onReport, onFailed_timers, ProcessEvent.taken, ProcessEvent.cost]
    omega
  | exited name code =>
    simp only [onReport, onExited_timers, ProcessEvent.taken, ProcessEvent.cost, exitedCost]
    split
    · rw [List.length_cons, Nat.add_mul, Nat.one_mul]
      omega
    · omega

/-- No result costs more to report than what may still come. -/
theorem Child.cost_reaped {c : Child} {result : WaitResult} (unreaped : c.reaped = none)
    (dead : ∀ code, result = .status code → c.exit = some code) :
    Child.cost programs { c with reaped := some result } + 1 ≤ c.cost programs := by
  unfold Child.cost Child.reportCost
  cases result with
  | status code =>
    simp only [unreaped, dead code rfl, reduceCtorEq, if_false, if_true]
    omega
  | error message =>
    cases exit : c.exit with
    | none =>
      simp only [unreaped, reduceCtorEq, if_false, if_true]
      omega
    | some code =>
      simp only [unreaped, exitedCost, reduceCtorEq, if_false, if_true]
      split <;> omega

theorem apply_reap_cost {task : Nat} {error : Option String} (h : d.apply split (.reap task error) = some d') :
    d'.cost programs + 1 ≤ d.cost programs := by
  obtain ⟨c, result, child, unreaped, dead, rfl⟩ := apply_reap_inv h
  have settles := Child.cost_reaped programs unreaped dead
  have sums := set_cost programs { c with reaped := some result } child
  omega

theorem apply_send_cost {task : Nat} (h : d.apply split (.send task) = some d') :
    d'.cost programs + 1 ≤ d.cost programs := by
  obtain ⟨c, result, child, waiting, reaped, rfl⟩ := apply_send_inv h
  have sums := set_cost programs { c with monitor := .sent } child
  have posted := post_cost programs { d with children := d.children.set task { c with monitor := .sent } }
    (c.report result) (some task)
  have reports : c.cost programs = 1 + (c.report result).cost programs ∧
      Child.cost programs { c with monitor := .sent } = 0 := by
    unfold Child.cost Child.reportCost
    cases result <;> simp [waiting, reaped, Child.report, ProcessEvent.cost]
  rw [sendReport]
  omega

theorem apply_fire_cost {name : String} (h : d.apply split (.fire name) = some d') :
    d'.cost programs + 1 ≤ d.cost programs := by
  obtain ⟨sleeping, same⟩ := Option.ite_none_right_eq_some.mp h
  cases same
  have posted := post_cost programs { d with timers := d.timers.erase name } (.restartRequested name) none
  have fewer := List.length_erase_of_mem sleeping
  have some := List.length_pos_of_mem sleeping
  have less : d.timers.length = (d.timers.erase name).length + 1 := by omega
  have sleep : ({ d with timers := d.timers.erase name } : Daemon).cost programs + sleepCost programs =
      d.cost programs := by
    rw [cost_eq, cost_eq, less, Nat.add_mul]
    simp only [Nat.one_mul]
    omega
  have request : ProcessEvent.cost programs (.restartRequested name) + 1 = sleepCost programs :=
    Nat.add_comm ..
  rw [fire]
  omega

/-- An exit can raise what the report of it costs. -/
theorem apply_exit_cost {task : Nat} {code : Option Int} (h : d.apply split (.exit task code) = some d') :
    d'.cost programs ≤ d.cost programs + (5 * programs + 2) := by
  obtain ⟨c, child, alive, rfl⟩ := apply_exit_inv h
  have sums := set_cost programs { c with exit := some code } child
  have raised : Child.cost programs { c with exit := some code } ≤ c.cost programs + (5 * programs + 2) := by
    unfold Child.cost Child.reportCost
    cases c.reaped with
    | none =>
      by_cases waiting : c.monitor = .waiting
      · simp only [alive, if_pos waiting, exitedCost, sleepCost, requestCost]
        omega
      · simp only [alive, if_neg waiting]
        omega
    | some result => cases result <;> exact Nat.le_add_right ..
  omega

end Daemon

namespace System

/-! ## Steps and runs -/

/-- A handled event pays for the step and for the call that it may lead to. -/
theorem step_handle_cost {programs : Nat} {s t : System} (count : s.processes.keys.card = programs)
    (h : s.step split .handleSingleEvent = some t) : t.cost programs + 1 ≤ s.cost programs := by
  obtain ⟨c, hcontrol, hmove, lock, _⟩ := step_inv h
  have units (root : String) : (startUnitsOf s.processes root).length ≤ programs :=
    count ▸ startUnitsOf_length root
  unfold System.cost
  rw [lock]
  obtain ⟨caller, hbegin, idle⟩ : ∃ caller, s.beginHandle caller = some c ∧ s.lock.cost programs = 0 := by
    cases control_handleSingleEvent hcontrol with
    | inl request => exact ⟨.request, request.2, by rw [(serving_iff.mp request.1).1]; rfl⟩
    | inr drains => exact ⟨.eventLoop, drains.2, by rw [drains.1]; rfl⟩
  obtain ⟨_, _, _, begun⟩ := beginHandle_inv hbegin
  cases begun with
  | inl starts =>
    obtain ⟨root, sender, rest, queued, hstart⟩ := starts
    have pays := Daemon.onReport_cost programs queued
    have := units root
    rw [← (step_moved h).onHead queued] at pays
    rw [beginStart_lock hstart, Lock.resume_cost]
    simp only [ProcessEvent.taken, requestCost] at pays
    omega
  | inr stays =>
    obtain ⟨rfl, other⟩ := stays
    obtain ⟨m, rest, queued⟩ := Daemon.apply_handle_inv hmove
    have pays := Daemon.onReport_cost programs queued
    rw [← (step_moved h).onHead queued] at pays
    have least := m.event.taken_pos programs
    simp only [only]
    omega

/-- A step of the daemon's own lowers the cost, and a stimulus raises it by no more than a call,
    a wait and an attempt for each program. -/
theorem step_cost {programs : Nat} {s t : System} {a : Action} (count : s.processes.keys.card = programs)
    (h : s.step split a = some t) : t.cost programs + (if a.works = true then 1 else 0) ≤
      s.cost programs + if a.stimulates = true then 5 * programs + 2 else 0 := by
  obtain ⟨c, hcontrol, hmove, lock, _⟩ := step_inv h
  have units (root : String) : (startUnitsOf s.processes root).length ≤ programs :=
    count ▸ startUnitsOf_length root
  unfold System.cost
  rw [lock]
  have stops (name : String) (late : Bool) := Daemon.stopProcess_cost programs s.toDaemon name late
  cases a with
  | startProcess name =>
    obtain ⟨serves, hbegin⟩ := Option.ite_none_right_eq_some.mp hcontrol
    rw [(beginStart_inv hbegin).1] at hmove
    obtain same : s.toDaemon = t.toDaemon := Option.some.inj hmove
    rw [beginStart_lock hbegin, Lock.resume_cost, (serving_iff.mp serves).1, ← same]
    have := units name
    simp only [Action.works, Action.stimulates, Lock.cost, Bool.false_eq_true, if_false, if_true]
    omega
  | restartWakes =>
    obtain ⟨name, held, hbegin⟩ := control_restartWakes hcontrol
    rw [(beginStart_inv hbegin).1] at hmove
    obtain same : s.toDaemon = t.toDaemon := Option.some.inj hmove
    rw [beginStart_lock hbegin, Lock.resume_cost, held, ← same]
    have := units name
    simp only [Action.works, Action.stimulates, Lock.cost, requestCost, Bool.false_eq_true, if_false, if_true]
    omega
  | handleSingleEvent =>
    have handled := step_handle_cost count h
    unfold System.cost at handled
    rw [lock] at handled
    simp only [Action.works, Action.stimulates, Bool.false_eq_true, if_false, if_true]
    omega
  | startUnit spawn =>
    obtain ⟨caller, root, unit, rest, held, rfl⟩ := control_startUnit hcontrol
    have attempts := Daemon.startProcessSingle_cost programs split s.toDaemon unit spawn
    have single := step_single h (show s.moveOf (.startUnit spawn) = .start unit spawn by simp [moveOf, held])
    rw [Lock.resume_cost, held, single]
    simp only [Action.works, Action.stimulates, Lock.cost, List.length_cons, Bool.false_eq_true, if_false, if_true]
    omega
  | restartProcess name late =>
    obtain ⟨serves, hstop⟩ := Option.ite_none_right_eq_some.mp hcontrol
    have stopped := step_stop h (show s.moveOf _ = .stop name late from rfl)
    have := stops name late
    rw [stopped]
    simp only [Action.works, Action.stimulates, Bool.false_eq_true, if_false, if_true]
    split at hstop <;> cases hstop <;>
      simp only [only, (serving_iff.mp serves).1, Lock.cost, requestCost] <;> omega
  | stopNext late =>
    obtain ⟨name, rest, held, rfl⟩ := control_stopNext hcontrol
    have stopped := step_stop h (show s.moveOf (.stopNext late) = .stop name late by simp [moveOf, held])
    have := stops name late
    rw [stopped, held]
    simp only [Action.works, Action.stimulates, Lock.cost, Bool.false_eq_true, if_false]
    omega
  | stopProcess name late =>
    obtain ⟨_, same⟩ := Option.ite_none_right_eq_some.mp hcontrol
    have stopped := step_stop h (show s.moveOf _ = .stop name late from rfl)
    have := stops name late
    cases same
    rw [stopped]
    simp only [Action.works, Action.stimulates, only, Bool.false_eq_true, if_false]
    omega
  | childExits =>
    cases hcontrol
    have := Daemon.apply_exit_cost programs hmove
    simp only [Action.works, Action.stimulates, only, Bool.false_eq_true, if_false, if_true]
    omega
  | childReaped =>
    cases hcontrol
    have := Daemon.apply_reap_cost programs hmove
    simp only [Action.works, Action.stimulates, only, Bool.false_eq_true, if_false, if_true]
    omega
  | monitorSends =>
    cases hcontrol
    have := Daemon.apply_send_cost programs hmove
    simp only [Action.works, Action.stimulates, only, Bool.false_eq_true, if_false, if_true]
    omega
  | timerFires =>
    cases hcontrol
    have := Daemon.apply_fire_cost programs hmove
    simp only [Action.works, Action.stimulates, only, Bool.false_eq_true, if_false, if_true]
    omega
  | loopWakes | loopQueues | loopCancelled | serversStop | mainAborts =>
    obtain ⟨_, same⟩ := Option.ite_none_right_eq_some.mp hcontrol
    cases same
    obtain same : s.toDaemon = t.toDaemon := Option.some.inj hmove
    rw [← same]
    simp only [Action.works, Action.stimulates, only, Bool.false_eq_true, if_false]
    omega
  | loopAcquires | loopReleases | mainAcquires | mainReleases =>
    obtain ⟨_, same⟩ := Option.ite_none_right_eq_some.mp hcontrol
    cases same
    obtain same : s.toDaemon = t.toDaemon := Option.some.inj hmove
    rw [← same]
    simp only [Action.works, Action.stimulates, Lock.cost, Bool.false_eq_true, if_false]
    omega
  | shutdown names =>
    obtain ⟨_, same⟩ := Option.ite_none_right_eq_some.mp hcontrol
    cases same
    have closed : t.toDaemon.cost programs = s.toDaemon.cost programs := by rw [step_shutdown h]; rfl
    rw [closed]
    simp only [Action.works, Action.stimulates, Lock.cost, Bool.false_eq_true, if_false]
    omega

theorem boot_cost (programs : Nat) (program : List (String × ProgramConfig)) :
    (boot program).cost programs = 0 := by
  obtain ⟨children, events, _, timers, _⟩ := Daemon.loadFromConfig_fresh program
  simp only [cost, boot, Daemon.cost_eq, children, events, timers, Lock.cost, List.map_nil, List.sum_nil,
    List.length_nil, Nat.zero_mul, Nat.add_zero]

/-- What is queued or asleep has its cost. -/
theorem le_cost (programs : Nat) (s : System) : s.events.length + s.timers.length ≤ s.cost programs := by
  have queue : s.events.length ≤ (s.events.map (·.event.cost programs)).sum := by
    rw [← List.length_map (f := fun m : Message => m.event.cost programs)]
    refine List.length_le_sum_of_one_le _ fun cost member => ?_
    obtain ⟨m, _, rfl⟩ := List.mem_map.mp member
    exact m.event.cost_pos programs
  have sleeps : s.timers.length ≤ s.timers.length * sleepCost programs :=
    Nat.le_mul_of_pos_right _ (by rw [sleepCost]; omega)
  unfold cost
  rw [Daemon.cost_eq]
  omega

/-- All the work the daemon has done by itself, and all that is queued or asleep, is paid for by the
    calls of the boot, the requests of clients and the exits of children, each of which pays for a
    number of steps that depends on the number of programs alone.  The calls of a boot that is over
    are `called`, those of one under way are steps of the run. -/
theorem work_bounded {config : GlobalConfig} {called : List String} {trace : List (System × Action)}
    {start s : System} (up : ComesUp split config called start) (run : Exec (step split) start trace s) :
    tally (fun _ a => a.works) trace + (s.events.length + s.timers.length) ≤
      (5 * (boot config.program).processes.keys.card + 2) *
        (called.length + tally (fun _ a => a.stimulates) trace) := by
  generalize count : (boot config.program).processes.keys.card = programs
  obtain ⟨first, boots, calls⟩ := up.run
  have paid := (boots.trans run).paid (fun s => s.processes.keys.card = programs) (fun _ _ => True)
    (System.cost programs) (fun _ a => a.works) (fun _ a => a.stimulates) (5 * programs + 2)
    (fun _ _ _ => step_count)
    (fun s a t count _ hstep => step_cost count hstep) (fun _ _ => trivial) count
  have under := le_cost programs s
  have since : tally (fun _ a => a.works) trace ≤ tally (fun _ a => a.works) (trace ++ first) := by
    rw [tally_append]
    exact Nat.le_add_right ..
  have asked : tally (fun _ a => a.stimulates) (trace ++ first) ≤
      called.length + tally (fun _ a => a.stimulates) trace := by
    have booted := (calls.tally_le Action.stimulates fun _ => rfl).trans List.countP_le_length
    rw [tally_append]
    omega
  have price := Nat.mul_le_mul_left (5 * programs + 2) asked
  rw [boot_cost] at paid
  omega

/-- A program that the boot starts exits once and is restarted once: eight steps for the one call and
    the one exit. -/
theorem work_bounded_restarted : ∃ transports d trace s,
    startup oneWord {} none
      { transport := {},
        program := [("web", { command := "web", autostart := true, restart := some "always" })] } ["web"]
      (fun root u => if root = "web" ∧ u = "web" then some 7 else none) = some (.ok (transports, d)) ∧
    Exec (step oneWord) { toDaemon := d } trace s ∧ s.programs = ["web", "web"] ∧
    tally (fun _ a => a.works) trace = 8 ∧ tally (fun _ a => a.stimulates) trace = 1 ∧
    tally (fun _ a => a.works) trace + (s.events.length + s.timers.length) ≤
      (5 * (boot [("web", { command := "web", autostart := true, restart := some "always" })]).processes.keys.card
        + 2) * (["web"].length + tally (fun _ a => a.stimulates) trace) := by
  let config : GlobalConfig :=
    { transport := {}, program := [("web", { command := "web", autostart := true, restart := some "always" })] }
  let os (root u : String) : Option Nat := if root = "web" ∧ u = "web" then some 7 else none
  let actions : List Action := [.handleSingleEvent, .childExits 0 (some 1), .childReaped 0 none, .monitorSends 0,
    .handleSingleEvent, .timerFires "web", .handleSingleEvent, .startUnit (some 8), .handleSingleEvent]
  have comesUp : ∃ transports d, startup oneWord {} none config ["web"] os = some (.ok (transports, d)) ∧
      (runs (step oneWord) { toDaemon := d } actions).map (·.programs) = some ["web", "web"] :=
    ⟨_, _, rfl, by decide⟩
  obtain ⟨transports, d, comesUp, restarted⟩ := comesUp
  obtain ⟨s, ran, programs⟩ := Option.map_eq_some_iff.mp restarted
  obtain ⟨trace, run, labels⟩ := exec_of_runs ran
  have once : autostartPrograms (Daemon.loadFromConfig config.program).processes ["web"] = ["web"] := by decide
  have up : ComesUp oneWord config ["web"] { toDaemon := d } := once ▸ .booted comesUp (by decide) distinct_single
  have bounded := work_bounded up run
  refine ⟨transports, d, trace, s, comesUp, run, programs, ?_, ?_, by simpa only [config] using bounded⟩
  · rw [tally_labels, labels]
    rfl
  · rw [tally_labels, labels]
    rfl

end System

end Ciron
