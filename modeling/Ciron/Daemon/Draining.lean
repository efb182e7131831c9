import Mathlib.Data.Fintype.EquivFin
import Ciron.Daemon.Delivery
import Ciron.Daemon.Phases

/-! # What the queue can lead to

The event loop comes to a free lock (`loop_acquires`), and in its drain it can go on through the
whole queue while every spawn fails: the restart sleeps and the stopped programs stay as they are,
and the queue grows shorter (`drain_upTo`).  So a queued `RestartRequested` can come to spawn any
stopped program of its closure that has a command to run (`drain_spawns`).  Nobody but the event
loop has a hand in it. -/

namespace Ciron

open Transition

variable {split : String → Option (List String)}

namespace Daemon

/-! ## Time passing without a spawn -/

/-- On the way from `d` to `d'` nothing was spawned and no restart sleep ended. -/
structure Passed (d d' : Daemon) : Prop where
  configs : configOf d'.processes = configOf d.processes
  closed : d'.closed = d.closed
  children : d'.children = d.children
  timers : ∀ name ∈ d.timers, name ∈ d'.timers
  stopped : ∀ name, d.isRunning name = false → d'.isRunning name = false

theorem Passed.refl (d : Daemon) : Passed d d :=
  ⟨rfl, rfl, rfl, fun _ => id, fun _ => id⟩

theorem Passed.trans {d d' d'' : Daemon} (h1 : Passed d d') (h2 : Passed d' d'') : Passed d d'' where
  configs := h2.configs.trans h1.configs
  closed := h2.closed.trans h1.closed
  children := h2.children.trans h1.children
  timers := fun name sleeps => h2.timers name (h1.timers name sleeps)
  stopped := fun name stopped => h2.stopped name (h1.stopped name stopped)

/-- An attempt to spawn that fails. -/
theorem passed_attempt (split : String → Option (List String)) (d : Daemon) (name : String) :
    Passed d (startProcessSingle split d name none).2 ∧
      (startProcessSingle split d name none).2.events = d.events := by
  have outcome := startProcessSingle_outcome split d name none
  generalize startProcessSingle split d name none = ran at outcome ⊢
  cases outcome with
  | unknown | alreadyRunning => exact ⟨.refl d, rfl⟩
  | spawnFails => exact ⟨⟨rfl, rfl, rfl, fun _ => id, fun _ => id⟩, rfl⟩
  | launches _ _ _ _ _ _ spawned => cases spawned

theorem passed_handle (d : Daemon) (m : Message) (rest : List Message) :
    Passed d ((d.receive m rest).onReport m.event) where
  configs := (onReport_keeps (d.receive m rest) m.event).configs
  closed := onReport_closed ..
  children := onReport_children ..
  timers := fun _ sleeps => mem_onReport_timers sleeps
  stopped := fun _ stopped => (onReport_keeps (d.receive m rest) m.event).stopped stopped

/-- Some pid is free. -/
theorem exists_pidFree (d : Daemon) : ∃ pid, d.pidFree pid = true := by
  obtain ⟨pid, fresh⟩ := Infinite.exists_notMem_finset (d.children.map (·.pid)).toFinset
  refine ⟨pid, List.all_eq_true.mpr fun c member => ?_⟩
  have different : c.pid ≠ pid := by
    rintro rfl
    exact fresh (List.mem_toFinset.mpr (List.mem_map_of_mem member))
  simp [different]

end Daemon

def Action.isRequest : Action → Bool
  | .startProcess _ | .restartProcess .. => true
  | _ => false

/-- A client asks for the program to be started. -/
def Action.requests (name : String) : Action → Bool
  | .startProcess other | .restartProcess other _ => other = name
  | _ => false

namespace System

/-! ## Going on without a request -/

/-- `s` can go on to `t` without a client asking for a start. -/
def Continues (split : String → Option (List String)) (s t : System) : Prop :=
  Leads (step split) (fun _ a => a.isRequest = false) s t

theorem Continues.refl (s : System) : s.Continues split s := Leads.refl s

theorem Continues.trans {s t u : System} (h1 : s.Continues split t) (h2 : t.Continues split u) :
    s.Continues split u :=
  Leads.trans h1 h2

theorem Continues.first {s t u : System} {a : Action} (hstep : s.step split a = some t)
    (unasked : a.isRequest = false) (h : t.Continues split u) : s.Continues split u :=
  Leads.trans ((Leads.refl s).tail unasked hstep) h

theorem Continues.single {s t : System} {a : Action} (hstep : s.step split a = some t)
    (unasked : a.isRequest = false) : s.Continues split t :=
  .first hstep unasked (.refl t)

theorem Reached.continues {s t : System} (reached : s.Reached split) (continues : s.Continues split t) :
    t.Reached split := by
  obtain ⟨program, reach⟩ := reached
  obtain ⟨trace, run, _⟩ := continues
  exact ⟨program, reach.trans run⟩

/-- A step of a monitor, of a restart sleep or of the event loop: no client, no child, no other caller
    of `handle_single_event` and no part of the shutdown has a hand in it. -/
def Supervises (s : System) : Action → Prop
  | .childReaped .. | .monitorSends _ | .timerFires _ | .loopWakes | .loopQueues | .loopAcquires
  | .loopReleases => True
  | .handleSingleEvent => s.lock = .draining
  | .startUnit _ => ∃ root rest, s.lock = .starting .eventLoop root rest
  | _ => False

theorem Supervises.unasked {s : System} {a : Action} (h : s.Supervises a) : a.isRequest = false := by
  cases a with
  | startProcess | restartProcess => exact h.elim
  | _ => rfl

/-- `s` can go on to `t` by nothing but monitors, restart sleeps and the event loop. -/
def Proceeds (split : String → Option (List String)) (s t : System) : Prop :=
  Leads (step split) Supervises s t

theorem Proceeds.refl (s : System) : s.Proceeds split s := Leads.refl s

theorem Proceeds.trans {s t u : System} (h1 : s.Proceeds split t) (h2 : t.Proceeds split u) :
    s.Proceeds split u :=
  Leads.trans h1 h2

theorem Proceeds.first {s t u : System} {a : Action} (hstep : s.step split a = some t)
    (supervises : s.Supervises a) (h : t.Proceeds split u) : s.Proceeds split u :=
  Leads.trans ((Leads.refl s).tail supervises hstep) h

theorem Proceeds.single {s t : System} {a : Action} (hstep : s.step split a = some t)
    (supervises : s.Supervises a) : s.Proceeds split t :=
  .first hstep supervises (.refl t)

theorem Proceeds.continues {s t : System} (h : s.Proceeds split t) : s.Continues split t :=
  Leads.mono h fun _ _ supervises => supervises.unasked

theorem Reached.proceeds {s t : System} (reached : s.Reached split) (h : s.Proceeds split t) :
    t.Reached split :=
  reached.continues h.continues

/-! ## The event loop at work -/

variable {s : System} {root : String}

theorem step_loopAcquires (split : String → Option (List String)) (free : s.lock = .free)
    (awake : s.loop = .woken ∨ s.loop = .queued ∧ s.main ≠ .aborted) :
    s.step split .loopAcquires = some { s with lock := .draining, loop := .holding } :=
  step_of (c := { s.only .idle with lock := .draining, loop := .holding }) (if_pos ⟨free, awake⟩) rfl

/-- The event loop can come to a free lock. -/
theorem loop_acquires (split : String → Option (List String)) (free : s.lock = .free)
    (unaborted : s.main ≠ .aborted) (phases : LoopPhases s.lock s.loop s.main) :
    ∃ t, s.Proceeds split t ∧ t.toDaemon = s.toDaemon ∧ t.lock = .draining ∧ t.main = s.main := by
  cases loop : s.loop with
  | woken => exact ⟨_, .single (step_loopAcquires split free (.inl loop)) trivial, rfl, rfl, rfl⟩
  | queued =>
    exact ⟨_, .single (step_loopAcquires split free (.inr ⟨loop, unaborted⟩)) trivial, rfl, rfl, rfl⟩
  | sleeping =>
    -- past its sleep the loop finds the lock free and takes it without waiting
    have wakes : s.step split .loopWakes = some { s with loop := .woken } :=
      step_of (c := { s.only .idle with loop := .woken }) (if_pos ⟨loop, unaborted⟩) rfl
    have acquires := step_loopAcquires split (s := { s with loop := .woken }) free (.inl rfl)
    exact ⟨_, (Proceeds.single acquires trivial).first wakes trivial, rfl, rfl, rfl⟩
  | holding => exact absurd loop (phases.notHolding (by simp [free]) (by simp [free]))
  | ended => exact absurd (phases.ended loop) unaborted

theorem step_loopReleases (split : String → Option (List String)) (draining : s.lock = .draining)
    (empty : s.events = []) : s.step split .loopReleases = some { s with lock := .free, loop := .sleeping } :=
  step_of (c := { s.only .idle with lock := .free, loop := .sleeping }) (if_pos ⟨draining, empty⟩) rfl

theorem beginStart_total (s : System) (move : Move) (caller : Caller) (root : String) :
    ∃ c, s.beginStart move caller root = some c := by
  unfold beginStart
  by_cases known : root ∈ s.processes
  · obtain ⟨order, resolved, _⟩ := resolveStartOrder_known known
    exact ⟨_, by rw [resolved]⟩
  · exact ⟨_, by rw [resolveStartOrder_unknown known]⟩

/-- The event loop is the one to call `handle_single_event` in its drain. -/
theorem control_drains (draining : s.lock = .draining) :
    s.control .handleSingleEvent = s.beginHandle .eventLoop := by
  have busy : ¬ s.serving = true := fun serves => by
    have free := (serving_iff.mp serves).1
    rw [draining] at free; cases free
  simp only [System.control, if_neg busy, if_pos draining]

/-- The event at the front can be handled; a `RestartRequested` leaves its closure to start. -/
theorem drain_handles (split : String → Option (List String)) (draining : s.lock = .draining) {m : Message}
    {rest : List Message} (queued : s.events = m :: rest) :
    ∃ t root order, s.step split .handleSingleEvent = some t ∧
      t.toDaemon = (s.receive m rest).onReport m.event ∧ t.lock = .resume .eventLoop root order ∧
      t.main = s.main ∧ ∀ wanted, m.event = .restartRequested wanted →
        ∀ u, u ∈ order ↔ wanted ∈ s.processes ∧ InClosure s.processes wanted u := by
  obtain ⟨c, hbegin, resumes⟩ : ∃ c, s.beginHandle .eventLoop = some c ∧ ∃ root order,
      c.lock = .resume .eventLoop root order ∧ ∀ wanted, m.event = .restartRequested wanted →
        ∀ u, u ∈ order ↔ wanted ∈ s.processes ∧ InClosure s.processes wanted u := by
    obtain ⟨event, sender⟩ := m
    rw [beginHandle, queued]
    cases event with
    | restartRequested wanted =>
      obtain ⟨c, hbegin⟩ := beginStart_total s .handle .eventLoop wanted
      obtain ⟨_, _, _, order, lock, closure⟩ := beginStart_inv hbegin
      refine ⟨c, hbegin, wanted, order, lock, fun other same => ?_⟩
      cases same
      exact closure
    | started | exited | failed =>
      exact ⟨_, rfl, "", [], draining, fun wanted same => by cases same⟩
  obtain ⟨root, order, lock, closure⟩ := resumes
  obtain ⟨move, _, main, _⟩ := beginHandle_inv hbegin
  have happly : s.toDaemon.apply split c.move = some ((s.receive m rest).onReport m.event) := by
    simp only [move, Daemon.apply, queued]
  exact ⟨_, root, order, step_of ((control_drains draining).trans hbegin) happly, rfl, lock, main, closure⟩

/-- A call of `start_process` of the event loop can go on with no spawn succeeding. -/
theorem call_fails (split : String → Option (List String)) {before rest : List String}
    (held : s.lock = .resume .eventLoop root (before ++ rest)) :
    ∃ t, s.Proceeds split t ∧ t.lock = .resume .eventLoop root rest ∧ t.main = s.main ∧
      Daemon.Passed s.toDaemon t.toDaemon ∧ t.events = s.events := by
  induction before generalizing s with
  | nil => exact ⟨s, .refl s, held, rfl, .refl _, rfl⟩
  | cons unit before ih =>
    replace held : s.lock = .starting .eventLoop root (unit :: (before ++ rest)) := held
    obtain ⟨passed, events⟩ := Daemon.passed_attempt split s.toDaemon unit
    have hcontrol : s.control (.startUnit none) =
        some { s.only (.start unit none) with lock := .resume .eventLoop root (before ++ rest) } := by
      simp only [control, held]
    have hstep : s.step split (.startUnit none) = some { s with
        toDaemon := (Daemon.startProcessSingle split s.toDaemon unit none).2
        lock := .resume .eventLoop root (before ++ rest) } := step_of hcontrol rfl
    obtain ⟨t, proceeds, lock, main, later, same⟩ := ih (s := { s with
        toDaemon := (Daemon.startProcessSingle split s.toDaemon unit none).2
        lock := .resume .eventLoop root (before ++ rest) }) rfl
    exact ⟨t, proceeds.first hstep ⟨root, _, held⟩, lock, main, passed.trans later, same.trans events⟩

/-- The event at the front can be handled to the end with no spawn succeeding. -/
theorem drain_next (split : String → Option (List String)) (draining : s.lock = .draining) {m : Message}
    {rest : List Message} (queued : s.events = m :: rest) :
    ∃ t, s.Proceeds split t ∧ t.lock = .draining ∧ t.main = s.main ∧ t.events = rest ∧
      Daemon.Passed ((s.receive m rest).onReport m.event) t.toDaemon := by
  obtain ⟨t, root, order, hstep, handled, lock, main, _⟩ := drain_handles split draining queued
  rw [← List.append_nil order] at lock
  obtain ⟨u, proceeds, lock', main', passed, events⟩ := call_fails split lock
  refine ⟨u, proceeds.first hstep draining, lock', main'.trans main, ?_, handled ▸ passed⟩
  rw [events, handled, Daemon.onReport_events]
  rfl

/-- The queue can be handled up to any of its events with no spawn succeeding. -/
theorem drain_upTo (split : String → Option (List String)) (draining : s.lock = .draining)
    {earlier rest : List Message} (queued : s.events = earlier ++ rest) :
    ∃ t, s.Proceeds split t ∧ t.lock = .draining ∧ t.main = s.main ∧ t.events = rest ∧
      Daemon.Passed s.toDaemon t.toDaemon := by
  induction earlier generalizing s with
  | nil => exact ⟨s, .refl s, draining, rfl, queued, .refl _⟩
  | cons first earlier ih =>
    obtain ⟨t, proceeds, draining', main, events, passed⟩ := drain_next split draining queued
    obtain ⟨u, proceeds', draining'', main', events', passed'⟩ := ih draining' events
    have handled := Daemon.passed_handle s.toDaemon first (earlier ++ rest)
    exact ⟨u, proceeds.trans proceeds', draining'', main'.trans main, events',
      (handled.trans passed).trans passed'⟩

/-- A program that a call of the event loop has still to start can be spawned if it is stopped and
    has a command to run. -/
theorem call_spawns {order : List String} (held : s.lock = .resume .eventLoop root order) {unit : String}
    (member : unit ∈ order) (stopped : s.isRunning unit = false) {config : ProgramConfig} {command : Command}
    (known : configOf s.processes unit = some config) (built : buildCommand split unit config = .ok command) :
    ∃ t pid, s.Proceeds split t ∧ t.Supervises (.startUnit (some pid)) ∧
      t.Spawns split (.startUnit (some pid)) unit ∧ t.main = s.main := by
  -- the units before it are attempted first, and fail
  obtain ⟨before, after, rfl⟩ := List.append_of_mem member
  obtain ⟨t, proceeds, lock, main, passed, _⟩ := call_fails split held
  replace lock : t.lock = .starting .eventLoop root (unit :: after) := lock
  -- then the operating system can answer with any free pid
  obtain ⟨pid, free⟩ := Daemon.exists_pidFree t.toDaemon
  rw [← passed.configs] at known
  obtain ⟨process, found, rfl⟩ : ∃ process, t.processes.lookup unit = some process ∧
      process.config = config := by simpa [configOf] using known
  have idle : process.running = false := by
    rw [← Daemon.isRunning_of_found found]
    exact passed.stopped unit stopped
  have launched : (Daemon.startProcessSingle split t.toDaemon unit (some pid)).2 =
      t.launch unit process command pid := by
    simp [Daemon.startProcessSingle, found, idle, built]
  have hcontrol : t.control (.startUnit (some pid)) =
      some { t.only (.start unit (some pid)) with lock := .resume .eventLoop root after } := by
    simp only [control, lock]
  have happly : t.toDaemon.apply split (.start unit (some pid)) =
      some (t.launch unit process command pid) := by
    rw [Daemon.apply, launched]
    simp [free]
  refine ⟨t, pid, proceeds, ⟨root, _, lock⟩, ⟨_, step_of hcontrol happly, ?_⟩, main⟩
  exact (Daemon.launch_latest unit).trans (if_pos rfl)

/-- A queued `RestartRequested` can come to spawn any stopped program of its closure that has a
    command to run. -/
theorem drain_spawns (draining : s.lock = .draining) {m : Message} (queued : m ∈ s.events)
    (event : m.event = .restartRequested root) (rootKnown : root ∈ s.processes) {unit : String}
    (closure : InClosure s.processes root unit) (stopped : s.isRunning unit = false)
    {config : ProgramConfig} {command : Command} (known : configOf s.processes unit = some config)
    (built : buildCommand split unit config = .ok command) :
    ∃ t pid, s.Proceeds split t ∧ t.Supervises (.startUnit (some pid)) ∧
      t.Spawns split (.startUnit (some pid)) unit ∧ t.main = s.main := by
  obtain ⟨earlier, rest, queue⟩ := List.append_of_mem queued
  obtain ⟨t, proceeds, draining', main, front, passed⟩ := drain_upTo split draining queue
  obtain ⟨u, root', order, hstep, handled, lock, main', started⟩ := drain_handles split draining' front
  have member : unit ∈ order := by
    refine (started root event unit).mpr ⟨(Daemon.mem_congr passed.configs root).mpr rootKnown, ?_⟩
    rwa [InClosure.congr passed.configs]
  have later : Daemon.Passed s.toDaemon u.toDaemon := by
    rw [handled]
    exact passed.trans (Daemon.passed_handle t.toDaemon m rest)
  rw [← later.configs] at known
  obtain ⟨v, pid, proceeds', supervises, spawns, main''⟩ :=
    call_spawns lock member (later.stopped unit stopped) known built
  exact ⟨v, pid, proceeds.trans (proceeds'.first hstep draining'), supervises, spawns,
    main''.trans (main'.trans main)⟩

end System

end Ciron
