import Ciron.Daemon.Draining
import Ciron.Daemon.Restarts

/-! # How a restart under way goes on

Each stage of a restart by the policy can come to the next by nothing but the tasks of the daemon:
a monitor reports the exit of its child, the event loop takes the lock and begins a restart sleep
for it, the sleep ends, and the event loop handles the `RestartRequested`.  So in a state where the
manager is free, each stage can come to a spawn of the program. -/

namespace Ciron

open Data Transition

variable {split : String → Option (List String)}

/-- The wait on the child may still come to this exit status, or has come to it. -/
def Child.MayReport (c : Child) (code : Option Int) : Prop :=
  (c.exit = none ∨ c.exit = some code) ∧ (c.reaped = none ∨ c.reaped = some (.status code))

namespace System

/-- The manager is free and serving, and the program, running or not, has a command to run. -/
structure Restartable (split : String → Option (List String)) (s : System) (name : String)
    (config : ProgramConfig) (command : Command) : Prop where
  reached : s.Reached split
  free : s.lock = .free
  serving : s.main = .serving
  known : configOf s.processes name = some config
  built : buildCommand split name config = .ok command

/-- `s` can go on to a spawn of the program without a client asking for a start. -/
def MaySpawn (split : String → Option (List String)) (s : System) (name : String) : Prop :=
  ∃ t spawn, s.Continues split t ∧ t.Spawns split (.startUnit spawn) name

/-- `s` can go on to a spawn of the program, in a call of the event loop, by nothing but monitors,
    restart sleeps and the event loop. -/
def MayRevive (split : String → Option (List String)) (s : System) (name : String) : Prop :=
  ∃ t spawn, s.Proceeds split t ∧ t.Supervises (.startUnit spawn) ∧ t.Spawns split (.startUnit spawn) name

variable {s t : System} {name : String} {config : ProgramConfig} {command : Command}

theorem MaySpawn.first {a : Action} (h : t.MaySpawn split name) (hstep : s.step split a = some t)
    (unasked : a.isRequest = false) : s.MaySpawn split name := by
  obtain ⟨u, spawn, later, spawns⟩ := h
  exact ⟨u, spawn, later.first hstep unasked, spawns⟩

theorem MayRevive.maySpawn (h : s.MayRevive split name) : s.MaySpawn split name := by
  obtain ⟨t, spawn, proceeds, _, spawns⟩ := h
  exact ⟨t, spawn, proceeds.continues, spawns⟩

theorem MayRevive.after (h : t.MayRevive split name) (proceeds : s.Proceeds split t) :
    s.MayRevive split name := by
  obtain ⟨u, spawn, later, supervises, spawns⟩ := h
  exact ⟨u, spawn, proceeds.trans later, supervises, spawns⟩

theorem MayRevive.first {a : Action} (h : t.MayRevive split name) (hstep : s.step split a = some t)
    (supervises : s.Supervises a) : s.MayRevive split name :=
  h.after (.single hstep supervises)

theorem Restartable.opened (h : s.Restartable split name config command) : s.closed = false :=
  h.reached.phases.opened (.inl h.serving)

/-- A child ends, its monitor goes on, or a restart sleep ends. -/
theorem Restartable.step {a : Action} {move : Move} {d : Daemon} (h : s.Restartable split name config command)
    (hcontrol : s.control a = some (s.only move)) (happly : s.toDaemon.apply split move = some d) :
    s.step split a = some { s with toDaemon := d } ∧
      Restartable split { s with toDaemon := d } name config command := by
  have hstep := step_of hcontrol happly
  exact ⟨hstep, h.reached.tail hstep, h.free, h.serving,
    (congrFun (Daemon.apply_moved happly).configs name).trans h.known, h.built⟩

/-- The event loop can take the lock. -/
theorem Restartable.drains (h : s.Restartable split name config command) :
    ∃ t, s.Proceeds split t ∧ t.toDaemon = s.toDaemon ∧ t.lock = .draining ∧ t.main = .serving := by
  obtain ⟨t, proceeds, same, draining, main⟩ :=
    loop_acquires split h.free (by simp [h.serving]) h.reached.loopPhases
  exact ⟨t, proceeds, same, draining, main.trans h.serving⟩

/-! ## Stage by stage -/

theorem Restartable.requested (h : s.Restartable split name config command) (stopped : s.isRunning name = false)
    {m : Message} (queued : m ∈ s.events) (event : m.event = .restartRequested name) :
    s.MayRevive split name := by
  obtain ⟨t, proceeds, same, draining, _⟩ := h.drains
  have known : configOf t.processes name = some config := by rw [same, h.known]
  obtain ⟨u, pid, drains, supervises, spawns, _⟩ := drain_spawns draining (by rwa [same]) event
    (mem_iff_configOf.mpr ⟨config, known⟩) .refl (by rwa [same]) known h.built
  exact ⟨u, some pid, proceeds.trans drains, supervises, spawns⟩

theorem Restartable.sleeps (h : s.Restartable split name config command) (stopped : s.isRunning name = false)
    (sleeping : name ∈ s.timers) : s.MayRevive split name := by
  have happly : s.toDaemon.apply split (.fire name) = some (s.fire name) := by
    rw [Daemon.apply, if_pos sleeping]
  obtain ⟨hstep, restartable⟩ := h.step (a := .timerFires name) rfl happly
  -- the channel is open, so the end of the sleep queues the request
  have queued : { event := .restartRequested name } ∈ (s.fire name).events := by
    simp [Daemon.fire, Daemon.post_events, h.opened]
  have stopped' : (s.fire name).isRunning name = false := by
    rwa [Daemon.isRunning, Daemon.fire, Daemon.post_processes]
  exact (restartable.requested stopped' queued rfl).first hstep trivial

/-- The exit is handled: whatever came before it, the program is stopped then, and sleeps.  The event
    loop goes on to the end of the queue and gives the lock back before the sleep ends. -/
theorem Restartable.exited (h : s.Restartable split name config command) {m : Message} (queued : m ∈ s.events)
    {code : Int} (event : m.event = .exited name code) (restarts : config.shouldRestart code = true) :
    s.MayRevive split name := by
  obtain ⟨t, proceeds, same, draining, serving⟩ := h.drains
  obtain ⟨earlier, rest, queue⟩ := List.append_of_mem (same ▸ queued)
  obtain ⟨u, upTo, drainingU, mainU, front, passed⟩ := drain_upTo split draining queue
  obtain ⟨v, handles, drainingV, mainV, behind, handled⟩ := drain_next split drainingU front
  obtain ⟨w, empties, drainingW, mainW, empty, passed'⟩ := drain_upTo split drainingV
    (behind.trans (List.append_nil rest).symm)
  have configs : configOf u.processes name = some config := by rw [passed.configs, same, h.known]
  have sleeping : name ∈ ((u.receive m rest).onReport m.event).timers := by
    rw [Daemon.onReport_receive_timers, event, Daemon.onReport, Daemon.onExited_timers, configs, Option.any_some,
      if_pos restarts]
    exact List.mem_cons_self ..
  have stopped : ((u.receive m rest).onReport m.event).isRunning name = false := by
    by_contra runs
    obtain ⟨process, found, running⟩ := Daemon.isRunning_iff.mp (Bool.eq_true_of_not_eq_false runs)
    rw [event] at found
    rw [Daemon.onReport_stops (by simp [ProcessEvent.reports]) found] at running
    cases running
  have later := handled.trans passed'
  have released := step_loopReleases split drainingW empty
  have all := (((proceeds.trans upTo).trans handles).trans empties).trans (.single released trivial)
  have known : configOf w.processes name = some config := by
    rw [later.configs, (Daemon.passed_handle u.toDaemon m rest).configs, configs]
  have restartable : Restartable split { w with lock := .free, loop := .sleeping } name config command :=
    ⟨h.reached.proceeds all, rfl, (mainW.trans (mainV.trans mainU)).trans serving, known, h.built⟩
  exact (restartable.sleeps (later.stopped name stopped) (later.timers name sleeping)).after all

/-- The wait on the child has come to a status, which its monitor has still to report. -/
theorem Restartable.reaped (h : s.Restartable split name config command) {task : Nat} {c : Child}
    (child : s.children[task]? = some c) (program : c.program = name) (waiting : c.monitor = .waiting)
    {code : Option Int} (reaped : c.reaped = some (.status code))
    (restarts : config.shouldRestart (code.getD (-1)) = true) : s.MayRevive split name := by
  have happly := Daemon.apply_send split child waiting reaped
  obtain ⟨hstep, restartable⟩ := h.step (a := .monitorSends task) rfl happly
  have queued : { event := c.report (.status code), sender := some task } ∈
      (s.sendReport task c (.status code)).events := by
    simp [Daemon.sendReport, Daemon.post_events, h.opened]
  exact (restartable.exited queued (by rw [← program]; rfl) restarts).first hstep trivial

theorem Restartable.dead (h : s.Restartable split name config command) {task : Nat} {c : Child}
    (child : s.children[task]? = some c) (program : c.program = name) (waiting : c.monitor = .waiting)
    {code : Option Int} (exit : c.exit = some code)
    (reaped : c.reaped = none ∨ c.reaped = some (.status code))
    (restarts : config.shouldRestart (code.getD (-1)) = true) : s.MayRevive split name := by
  cases reaped with
  | inr reaped => exact h.reaped child program waiting reaped restarts
  | inl unreaped =>
    have happly := Daemon.apply_reap split child unreaped exit
    obtain ⟨hstep, restartable⟩ := h.step (a := .childReaped task none) rfl happly
    have child' := getElem?_set_here { c with reaped := some (.status code) } child
    exact (restartable.reaped child' program waiting rfl restarts).first hstep trivial

/-- The monitor of a child of the program is still waiting, and the child may exit. -/
theorem Restartable.waits (h : s.Restartable split name config command) {task : Nat} {c : Child}
    (child : s.children[task]? = some c) (program : c.program = name) (waiting : c.monitor = .waiting)
    {code : Option Int} (reports : c.MayReport code)
    (restarts : config.shouldRestart (code.getD (-1)) = true) : s.MaySpawn split name := by
  obtain ⟨exit, reaped⟩ := reports
  cases exit with
  | inr exit => exact (h.dead child program waiting exit reaped restarts).maySpawn
  | inl alive =>
    have happly : s.toDaemon.apply split (.exit task code) = some { s.toDaemon with
        children := s.children.set task { c with exit := some code } } := by
      simp [Daemon.apply, child, alive]
    obtain ⟨hstep, restartable⟩ := h.step (a := .childExits task code) rfl happly
    have child' := getElem?_set_here { c with exit := some code } child
    exact (restartable.dead child' program waiting rfl reaped restarts).maySpawn.first hstep rfl

end System

end Ciron
