import Ciron.Daemon.Delivery
import Ciron.Daemon.Draining
import Ciron.Daemon.Phases

/-! # The shutdown tail

`main` takes the lock, closes the channel, stops every program, gives the lock back and aborts
the event loop.  The closed channel takes no new event but still hands out those queued, and
the event loop can come to the lock before the abort; so what was queued at the close decides
whether a program is started after `stop_all`. -/

namespace Ciron

open Transition

variable {split : String → Option (List String)}

/-- A `start_process` of `root` can spawn nothing: the root is unknown, or no program of its
    closure has a command that can be run. -/
def Barren (split : String → Option (List String)) (processes : ProcessTable) (root : String) : Prop :=
  root ∈ processes → ∀ unit, InClosure processes root unit → ∀ config,
    configOf processes unit = some config → ∀ command, buildCommand split unit config ≠ .ok command

theorem Barren.congr {processes processes' : ProcessTable} {root : String}
    (same : configOf processes' = configOf processes) (h : Barren split processes root) :
    Barren split processes' root := by
  unfold Barren at *
  rw [InClosure.congr same, same]
  rwa [mem_iff_configOf, same, ← mem_iff_configOf]

namespace System

/-! ## What the closed channel still asks for -/

/-- Every `RestartRequested` in the queue is one that can spawn nothing. -/
def Drained (split : String → Option (List String)) (s : System) : Prop :=
  ∀ m ∈ s.events, ∀ root, m.event = .restartRequested root → Barren split s.processes root

/-- Once the channel is closed, neither the queue nor a call under way can spawn anything. -/
structure Spent (split : String → Option (List String)) (s : System) : Prop where
  drained : s.Drained split
  pending : ∀ unit ∈ s.lock.pending, ∀ config, configOf s.processes unit = some config →
    ∀ command, buildCommand split unit config ≠ .ok command

/-- A closed channel takes no `RestartRequested`. -/
theorem step_requests {s t : System} {a : Action} (h : s.step split a = some t) (closed : s.closed = true)
    {m : Message} (member : m ∈ t.events) {root : String} (event : m.event = .restartRequested root) :
    m ∈ s.events := by
  cases (step_moved h).traffic.queued member with
  | old queued => exact queued
  | announced _ sent => rw [event] at sent; cases sent
  | requested _ opened => rw [closed] at opened; cases opened
  | reported task c result _ _ _ sent =>
    rw [event] at sent
    cases result <;> cases sent

theorem Spent.step {s t : System} {a : Action} (h : Spent split s) (phases : s.Phases)
    (closed : s.closed = true) (hstep : s.step split a = some t) : Spent split t := by
  refine ⟨fun m member root event => ?_, ?_⟩
  · exact (h.drained m (step_requests hstep closed member event) root event).congr (step_configs hstep)
  · rw [step_configs hstep]
    intro unit pending
    cases step_pending hstep with
    | same kept => exact h.pending unit (kept ▸ pending)
    | attempts _ _ _ queued => exact h.pending unit (queued ▸ List.mem_cons_of_mem _ pending)
    | calls root called _ holder closure =>
      obtain ⟨known, reached⟩ := (closure unit).mp pending
      have notServing : ¬ (s.main = .serving ∨ s.main = .waiting) := fun phase => by
        rw [phases.opened phase] at closed; cases closed
      rcases holder with ⟨_, serving⟩ | held | ⟨_, rfl⟩
      · exact absurd (.inl serving) notServing
      · exact absurd (phases.restarting root held) notServing
      · -- the event loop calls for a request in the queue
        obtain ⟨sender, rest, queued⟩ := called
        exact h.drained _ (queued ▸ List.mem_cons_self ..) root rfl known unit reached

theorem Spent.not_spawns {s : System} {a : Action} {name : String} (h : Spent split s) :
    ¬ s.Spawns split a name := by
  intro spawns
  obtain ⟨pid, process, command, attempt, launches⟩ := spawns.inv
  obtain ⟨t, hstep, _⟩ := spawns
  refine h.pending name (step_start hstep attempt ▸ List.mem_cons_self ..) process.config ?_ command
    launches.built
  simp [configOf, launches.found]

/-- At the close nothing is under way but what is queued. -/
theorem Spent.shutdown {s t : System} {names : List String} (drained : s.Drained split)
    (hstep : s.step split (.shutdown names) = some t) : Spent split t := by
  have closed := step_shutdown hstep
  obtain ⟨c, hcontrol, _, lock, _⟩ := step_inv hstep
  obtain ⟨_, same⟩ := Option.ite_none_right_eq_some.mp hcontrol
  cases same
  refine ⟨?_, by rw [lock]; exact fun _ held => absurd held List.not_mem_nil⟩
  rw [Drained, closed]
  exact drained

/-- `stop_all` has completed. -/
def StopAllDone (s : System) : Prop := s.lock = .stopping [] ∨ s.main = .released ∨ s.main = .aborted

/-! ## What the event loop can still do -/

/-- `stop_all` runs to its end. -/
theorem stops_all (split : String → Option (List String)) {names : List String}
    {s : System} (held : s.lock = .stopping names) :
    ∃ t, s.Continues split t ∧ t.lock = .stopping [] ∧ t.main = s.main ∧ t.loop = s.loop ∧
      t.events = s.events ∧ configOf t.processes = configOf s.processes ∧
      ∀ name, name ∈ names ∨ s.isRunning name = false → t.isRunning name = false := by
  induction names generalizing s with
  | nil => exact ⟨s, .refl s, held, rfl, rfl, rfl, rfl, fun name stopped => by simpa using stopped⟩
  | cons name names ih =>
    have hcontrol : s.control (.stopNext false) = some { s.only (.stop name false) with lock := .stopping names } := by
      simp only [control, held]
    have happly : s.toDaemon.apply split (.stop name false) = some (s.toDaemon.stopProcess name false).2 := rfl
    have moved := Daemon.apply_moved happly
    obtain ⟨t, continues, lock, main, loop, events, configs, stopped⟩ := ih (s := { s with
      toDaemon := (s.toDaemon.stopProcess name false).2
      lock := .stopping names }) rfl
    refine ⟨t, continues.first (step_of hcontrol happly) rfl, lock, main, loop,
      events.trans (Daemon.stopProcess_events ..), configs.trans moved.configs, fun other done => stopped other ?_⟩
    have idle' (idle : s.isRunning other = false) : (s.toDaemon.stopProcess name false).2.isRunning other = false := by
      cases moved.effect with
      | keeps keeps => exact keeps.stopped idle
      | launches _ _ _ _ attempt => cases attempt  -- a stop launches nothing
    rw [List.mem_cons, or_assoc] at done
    rcases done with rfl | later | idle
    · exact .inr (Daemon.stopProcess_stopped ..)
    · exact .inl later
    · exact .inr (idle' idle)

/-- If a queued request could spawn something when `shutdown` closes the channel, then the event
    loop can come to spawn it after `stop_all`. -/
theorem spawns_of_request {s t : System} (reached : s.Reached split) {names : List String}
    (closes : s.step split (.shutdown names) = some t) {m : Message} {root : String} (queued : m ∈ s.events)
    (event : m.event = .restartRequested root) (known : root ∈ s.processes) {unit : String}
    (closure : InClosure s.processes root unit) {config : ProgramConfig} {command : Command}
    (hconfig : configOf s.processes unit = some config) (built : buildCommand split unit config = .ok command) :
    ∃ u pid, t.Continues split u ∧ u.StopAllDone ∧ u.Spawns split (.startUnit (some pid)) unit := by
  have closed := step_shutdown closes
  obtain ⟨listed, lock⟩ : unit ∈ names ∧ t.lock = .stopping names := by
    obtain ⟨c, hcontrol, _, lock, _⟩ := step_inv closes
    obtain ⟨possible, same⟩ := Option.ite_none_right_eq_some.mp hcontrol
    cases same
    refine ⟨?_, lock⟩
    rw [← List.mem_toFinset, possible.2.2, Finmap.mem_keys]
    exact mem_iff_configOf.mpr ⟨config, hconfig⟩
  -- `stop_all` stops every program and leaves the queue alone
  obtain ⟨u, stops, lock, main, _, events, configs, stopped⟩ := stops_all split lock
  have releases : u.step split .mainReleases = some { u with lock := .free, main := .released } :=
    step_of (c := { u.only .idle with lock := .free, main := .released }) (if_pos lock) rfl
  have releases := stops.trans (.single releases rfl)
  -- the event loop comes to the lock and drains the queue
  have phases := ((reached.tail closes).continues releases).loopPhases
  obtain ⟨v, acquires, same, draining, released⟩ := loop_acquires split rfl (by simp) phases
  have events : v.events = s.events := by
    rw [same]
    exact events.trans (by rw [closed])
  have configs : configOf v.processes = configOf s.processes := by
    rw [same]
    exact configs.trans (by rw [closed])
  have idle : v.isRunning unit = false := by
    rw [same]
    exact stopped unit (.inl listed)
  rw [← configs] at hconfig
  rw [← InClosure.congr configs] at closure
  obtain ⟨w, pid, drains, _, spawns, main'⟩ := drain_spawns draining (by rwa [events]) event
    ((Daemon.mem_congr configs root).mpr known) closure idle hconfig built
  exact ⟨w, pid, releases.trans (acquires.trans drains).continues, .inr (.inl (main'.trans released)), spawns⟩

/-- Once `stop_all` has completed no child is ever spawned, if and only if no request is queued
    that could spawn anything when `shutdown` closes the channel. -/
theorem shutdown_final_iff {s t : System} (reached : s.Reached split) {names : List String}
    (closes : s.step split (.shutdown names) = some t) :
    (∀ trace u, Exec (step split) t trace u → ∀ p ∈ trace, p.1.StopAllDone → ∀ name,
      ¬ p.1.Spawns split p.2 name) ↔ s.Drained split := by
  constructor
  · intro final m queued root event known unit closure config hconfig command built
    obtain ⟨u, pid, continues, done, spawns⟩ :=
      spawns_of_request reached closes queued event known closure hconfig built
    obtain ⟨trace, run, _⟩ := continues
    have ⟨v, hstep, _⟩ := spawns
    exact final _ v (run.tail hstep) (u, .startUnit (some pid)) (List.mem_cons_self ..) done unit spawns
  · intro drained trace u run p member _ name
    have preserved : ∀ (s : System) (a : Action) (t : System),
        s.Reached split ∧ s.closed = true ∧ s.Spent split → s.step split a = some t →
        t.Reached split ∧ t.closed = true ∧ t.Spent split := by
      rintro s a t ⟨reached, closed, spent⟩ hstep
      refine ⟨reached.tail hstep, ?_, spent.step reached.phases closed hstep⟩
      by_contra opened
      rw [(step_moved hstep).opened (Bool.eq_false_of_not_eq_true opened)] at closed
      cases closed
    have closed : t.closed = true := by rw [step_shutdown closes]
    have start := And.intro (reached.tail closes) (And.intro closed (Spent.shutdown drained closes))
    exact ((run.invariant preserved start).2 p member).2.2.not_spawns

theorem shutdown_final_iff_requested : ∃ s t : System, s.step oneWord (.shutdown ["web"]) = some t ∧
    s.events.length = 1 ∧
    ((∀ trace u, Exec (step oneWord) t trace u → ∀ p ∈ trace, p.1.StopAllDone → ∀ name,
      ¬ p.1.Spawns oneWord p.2 name) ↔ s.Drained oneWord) := by
  have closing : (ran oneWord [("web", { command := "web", restart := some "always" })]
      [.startProcess "web", .startUnit (some 7), .childExits 0 (some 0), .childReaped 0 none, .monitorSends 0,
        .handleSingleEvent, .handleSingleEvent, .timerFires "web", .serversStop, .mainAcquires]).isSome = true := rfl
  obtain ⟨t, closes⟩ : ∃ t, step oneWord ((ran oneWord _ _).get closing) (.shutdown ["web"]) = some t := ⟨_, rfl⟩
  exact ⟨_, t, closes, rfl, shutdown_final_iff (Reached.ran closing) closes⟩

/-- A `RestartRequested` is queued when the channel is closed: the event loop comes to the lock
    before the abort and starts the program that `stop_all` has stopped. -/
theorem spawns_after_stop_all : ∃ s, ran oneWord [("web", { command := "web", restart := some "always" })]
      [.startProcess "web", .startUnit (some 7), .childExits 0 (some 0), .childReaped 0 none,
        .monitorSends 0, .handleSingleEvent, .handleSingleEvent, .timerFires "web", .serversStop,
        .mainAcquires, .shutdown ["web"], .stopNext false, .mainReleases, .loopWakes, .loopAcquires,
        .handleSingleEvent] = some s ∧
    s.StopAllDone ∧ s.Spawns oneWord (.startUnit (some 8)) "web" :=
  ⟨_, rfl, .inr (.inl rfl), _, rfl, rfl⟩

end System

end Ciron
