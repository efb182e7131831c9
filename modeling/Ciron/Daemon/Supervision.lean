import Ciron.Daemon.Control
import Ciron.Daemon.Delivery

/-! # Supervision

A running program is watched: the monitor of its latest child has still to report, or its
report is queued.  From there the obligation to restart an `always` program moves on, to the
restart sleep, to the queued `RestartRequested` and to the `start_process` call that this
begins, and it ends only with a stop, a `Failed` or a failed attempt to spawn. -/

namespace Ciron

open Data Transition

variable {split : String → Option (List String)}

def Note.isSpawn (name : String) : Note → Bool
  | .spawned other _ => other = name
  | _ => false

namespace Daemon

/-! ## Running programs are watched -/

/-- The wait of child `task` is not over for its monitor, or the report on it is queued. -/
def Watched (d : Daemon) (task : Nat) (c : Child) : Prop :=
  c.monitor = .waiting ∨ ∃ m ∈ d.events, m.sender = some task ∧ m.event.reports c.program = true

def Monitored (d : Daemon) : Prop :=
  d.closed = false → ∀ (name : String) (process : ManagedProcess) (task : Nat) (c : Child),
    d.processes.lookup name = some process → process.running = true →
    d.latest name = some task → d.children[task]? = some c →
    c.monitor ≠ .aborted ∧ d.Watched task c

theorem Watched.ages {d d' : Daemon} {task : Nat} {c c' : Child} (h : d.Watched task c)
    (monitor : c'.monitor = c.monitor) (program : c'.program = c.program)
    (queue : ∀ m ∈ d.events, m.sender = some task → m.event.reports c.program = true → m ∈ d'.events) :
    d'.Watched task c' := by
  cases h with
  | inl waiting => exact .inl (monitor.trans waiting)
  | inr sent =>
    obtain ⟨m, queued, sender, reports⟩ := sent
    exact .inr ⟨m, queue m queued sender reports, sender, by rwa [program]⟩

theorem mem_post_events {d : Daemon} {m x : Message} (queued : x ∈ d.events) : x ∈ (d.post m).events := by
  rw [post_events]
  split
  · exact queued
  · exact List.mem_append_left _ queued

/-- A move that launches nothing keeps running programs watched if it keeps the latest child
    of each program watched that it leaves running. -/
theorem Monitored.keeps {d d' : Daemon} (h : Monitored d) (keeps : Keeps d d')
    (opened : d'.closed = false → d.closed = false)
    (watches : ∀ (name : String) (process : ManagedProcess) (task : Nat) (c c' : Child),
      d.processes.lookup name = some process → d'.processes.lookup name = some process →
      process.running = true → d.children[task]? = some c → c.program = name →
      d'.children[task]? = some c' → c.monitor ≠ .aborted → d.Watched task c →
      d'.closed = false → c'.monitor ≠ .aborted ∧ d'.Watched task c') : Monitored d' := by
  intro hopen name process task c' found' running latest child'
  obtain ⟨old, found, _, same, _⟩ := keeps.records name process found'
  obtain rfl := same running
  rw [keeps.latest] at latest
  obtain ⟨c, child, hprogram⟩ := latest_child latest
  obtain ⟨alive, watched⟩ := h (opened hopen) name process task c found running latest child
  exact watches name process task c c' found found' running child hprogram child' alive watched hopen

theorem Monitored.launch {d : Daemon} {name : String} {process : ManagedProcess} {command : Command}
    {pid : Nat} (h : Monitored d) : Monitored (d.launch name process command pid) := by
  intro opened other record task c found running latest child
  rw [launch_closed] at opened
  rw [launch_latest] at latest
  rw [launch_processes, lookup_insert_eq] at found
  by_cases same : name = other
  · -- the child just launched is waited for
    subst same
    rw [if_pos rfl, Option.some.injEq] at latest
    subst latest
    rw [launch_child_new, Option.some.injEq] at child
    subst child
    exact ⟨nofun, .inl rfl⟩
  · rw [if_neg same] at latest
    rw [if_neg (Ne.symm same)] at found
    obtain ⟨x, hx, _⟩ := latest_child latest
    rw [launch_child_of_lt hx, Option.some.injEq] at child
    subst child
    obtain ⟨alive, watched⟩ := h opened other record task x found running latest hx
    exact ⟨alive, watched.ages rfl rfl fun m queued _ _ => mem_post_events queued⟩

theorem Monitored.halt {d : Daemon} {name : String} {process : ManagedProcess} {late : Bool}
    (h : Monitored d) (recorded : Recorded d) (found : d.processes.lookup name = some process)
    (keeps : Keeps d (d.halt name process late)) : Monitored (d.halt name process late) := by
  refine h.keeps keeps (by simp) ?_
  intro other record task c c' hrecord hrecord' running child hprogram child' alive watched _
  have different : other ≠ name := by
    rintro rfl
    rw [halt_processes, lookup_insert_eq, if_pos rfl] at hrecord'
    cases hrecord'
    cases running
  -- the handle aborted is that of a child of `name`, not of this one
  have elsewhere : process.monitorHandle ≠ some task := by
    intro handle
    obtain ⟨x, hx, hname⟩ := recorded.handle name process task found handle
    rw [child, Option.some.injEq] at hx
    exact different (by rw [← hprogram, hx, hname])
  rw [halt_children, child, Option.map_some, Option.some.injEq] at child'
  have monitor : c'.monitor = c.monitor := by rw [← child', Child.halted_monitor, if_neg elsewhere]
  exact ⟨by rwa [monitor], watched.ages monitor (by rw [← child', Child.halted_program])
    fun m queued _ _ => by rwa [halt_events]⟩

theorem Monitored.handle {d : Daemon} {m : Message} {rest : List Message} (h : Monitored d)
    (queued : d.events = m :: rest)
    (keeps : Keeps d ((d.receive m rest).onReport m.event)) :
    Monitored ((d.receive m rest).onReport m.event) := by
  refine h.keeps keeps (by simp [receive]) ?_
  intro name record task c c' _ hrecord' running child hprogram child' alive watched _
  rw [onReport_children, receive, note_children, child, Option.some.injEq] at child'
  subst child'
  refine ⟨alive, watched.ages rfl rfl fun x hx _ reports => ?_⟩
  rw [onReport_events, receive, note_events]
  rw [queued] at hx
  cases List.mem_cons.mp hx with
  | inl same =>
    subst same
    -- a report of the program would have marked it not running
    have stopped := onReport_stops (by rwa [hprogram] at reports) hrecord'
    rw [running] at stopped; cases stopped
  | inr later => exact later

theorem Monitored.moved {d d' : Daemon} {move : Move} (h : Monitored d) (recorded : Recorded d)
    (moved : Moved split d move d') : Monitored d' := by
  cases moved.effect with
  | launches name process command pid _ _ launched =>
    subst launched
    exact h.launch
  | keeps keeps =>
    cases moved with
    | unchanged | spawnFails => exact h
    | closes => exact fun opened => by cases opened
    | launches => exact h.launch
    | halts found running => exact h.halt recorded found keeps
    | handles queued => exact h.handle queued keeps
    | @exits task c code child alive | @reaps task c error result child unreaped dead =>
      refine h.keeps keeps id ?_
      intro name record other x x' _ _ _ hx _ hx' alive watched _
      cases getElem?_set_cases hx' with
      | inl here =>
        obtain ⟨rfl, rfl⟩ := here
        rw [child, Option.some.injEq] at hx
        subst hx
        exact ⟨alive, watched.ages rfl rfl fun _ queued _ _ => queued⟩
      | inr elsewhere =>
        obtain ⟨_, old⟩ := elsewhere
        rw [hx, Option.some.injEq] at old
        subst old
        exact ⟨alive, watched⟩
    | @sends task c result child waiting reaped =>
      refine h.keeps keeps (by simp [sendReport]) ?_
      intro name record other x x' _ _ _ hx _ hx' alive watched opened
      rw [sendReport, post_children] at hx'
      cases getElem?_set_cases hx' with
      | inl here =>
        obtain ⟨rfl, rfl⟩ := here
        -- the report that ends the wait goes into the queue
        replace opened : d.closed = false := by rw [sendReport, post_closed] at opened; exact opened
        exact ⟨by simp, .inr ⟨{ event := c.report result, sender := some task },
          by simp [sendReport, post_events, opened], rfl, by simp⟩⟩
      | inr elsewhere =>
        obtain ⟨_, old⟩ := elsewhere
        rw [hx, Option.some.injEq] at old
        subst old
        exact ⟨alive, watched.ages rfl rfl fun _ queued _ _ => mem_post_events queued⟩
    | fires sleeping =>
      refine h.keeps keeps (by simp [fire]) ?_
      intro name record other x x' _ _ _ hx _ hx' alive watched _
      rw [fire, post_children, hx, Option.some.injEq] at hx'
      subst hx'
      exact ⟨alive, watched.ages rfl rfl fun _ queued _ _ => mem_post_events queued⟩

theorem loadFromConfig_monitored (program : List (String × ProgramConfig)) :
    Monitored (loadFromConfig program) := by
  obtain ⟨_, _, _, _, _, hrecords⟩ := loadFromConfig_fresh program
  intro _ name process _ _ found running
  rw [(hrecords name process found).1] at running; cases running

/-! ## The obligation to restart -/

/-- Supervision of `name` was ended for a reason: since its latest spawn it was stopped while
    running, a `Failed` of it was handled, or an attempt to spawn it failed. -/
def Released (d : Daemon) (name : String) : Prop :=
  ∃ n ∈ since (Note.isSpawn name) d.history, n = .stopped name ∨ n = .spawnFailed name ∨
    ∃ error sender, n = .handled { event := .failed name error, sender }

/-- Whoever holds the obligation to restart `name` between two calls. -/
def Supervised (d : Daemon) (name : String) : Prop :=
  d.isRunning name = true ∨ name ∈ d.timers ∨
    (∃ m ∈ d.events, m.event = .restartRequested name) ∨ d.Released name

theorem Released.grows {d d' : Daemon} {name : String} {new : List Note} (h : Released d name)
    (history : d'.history = new ++ d.history) (spawns : ∀ n ∈ new, n.isSpawn name = false) :
    Released d' name := by
  obtain ⟨n, recent, reason⟩ := h
  exact ⟨n, by rw [history, since_append spawns]; exact List.mem_append_right _ recent, reason⟩

/-- The obligation stays where it is. -/
theorem Supervised.rests {d d' : Daemon} {name : String} (h : Supervised d name) (new : List Note)
    (running : d'.isRunning name = d.isRunning name) (timers : name ∈ d.timers → name ∈ d'.timers)
    (events : ∀ m ∈ d.events, m.event = .restartRequested name → m ∈ d'.events)
    (history : d'.history = new ++ d.history) (spawns : ∀ n ∈ new, n.isSpawn name = false) :
    Supervised d' name := by
  rcases h with runs | sleeps | ⟨m, queued, event⟩ | released
  · exact .inl (running.trans runs)
  · exact .inr (.inl (timers sleeps))
  · exact .inr (.inr (.inl ⟨m, events m queued event, event⟩))
  · exact .inr (.inr (.inr (released.grows history spawns)))

theorem Supervised.handle {d : Daemon} {name : String} {config : ProgramConfig} {m : Message}
    {rest : List Message} (h : Supervised d name) (hconfig : configOf d.processes name = some config)
    (always : config.restart = some "always") (queued : d.events = m :: rest)
    (other : m.event ≠ .restartRequested name) :
    Supervised ((d.receive m rest).onReport m.event) name := by
  have history : ((d.receive m rest).onReport m.event).history = [.handled m] ++ d.history :=
    onReport_history m.event
  cases reports : m.event.reports name with
  | false =>
    refine h.rests _ ?_ (fun sleeps => mem_onReport_timers sleeps) ?_ history (by simp [Note.isSpawn])
    · rw [isRunning, onReport_lookup_of_not_reports reports]
      rfl
    · intro x hx event
      rw [onReport_events, receive, note_events]
      rw [queued] at hx
      cases List.mem_cons.mp hx with
      | inl same =>
        subst same
        exact absurd event other
      | inr later => exact later
  | true =>
    obtain ⟨event, sender⟩ := m
    cases event with
    | started | restartRequested => cases reports
    | exited program code =>
      -- the policy starts a restart sleep
      obtain rfl : program = name := by simpa [ProcessEvent.reports] using reports
      obtain ⟨process, found, rfl⟩ : ∃ process, d.processes.lookup program = some process ∧
          process.config = config := by simpa [configOf] using hconfig
      refine .inr (.inl ?_)
      simp [onReport, onExited, receive, found, ProgramConfig.shouldRestart, always]
    | failed program error =>
      obtain rfl : program = name := by simpa [ProcessEvent.reports] using reports
      -- handling a `Failed` is a reason by itself
      refine .inr (.inr (.inr ⟨_, ?_, .inr (.inr ⟨error, sender, rfl⟩)⟩))
      rw [history, List.singleton_append, since_cons_of_neg rfl]
      exact List.mem_cons_self ..

/-- A move keeps an `always` program supervised, unless it takes a `RestartRequested` of it
    off the queue. -/
theorem Supervised.moved {d d' : Daemon} {move : Move} {name : String} {config : ProgramConfig}
    (h : Supervised d name) (hconfig : configOf d.processes name = some config)
    (always : config.restart = some "always") (opened : d.closed = false)
    (kept : move = .handle → ∀ m rest, d.events = m :: rest → m.event ≠ .restartRequested name)
    (moved : Moved split d move d') : Supervised d' name := by
  cases moved with
  | unchanged | exits | reaps | closes => exact h
  | @spawnFails other =>
    by_cases same : name = other
    · subst same
      refine .inr (.inr (.inr ⟨.spawnFailed name, ?_, .inr (.inl rfl)⟩))
      rw [note_history, since_cons_of_neg rfl]
      exact List.mem_cons_self ..
    · exact h.rests [.spawnFailed other] rfl id (fun _ queued _ => queued) rfl (by simp [Note.isSpawn])
  | @launches other pid process command =>
    by_cases same : name = other
    · subst same
      exact .inl (by simp [isRunning, launch_processes])
    · refine h.rests [.posted { event := .started other }, .spawned other d.children.length]
        (isRunning_insert_of_ne launch_processes same) (by simp) ?_ (by simp [launch_history, opened]) ?_
      · exact fun m queued _ => mem_post_events queued
      · simp [Note.isSpawn, Ne.symm same]
  | @halts other late process found running =>
    by_cases same : name = other
    · subst same
      refine .inr (.inr (.inr ⟨.stopped name, ?_, .inl rfl⟩))
      rw [halt_history, since_cons_of_neg rfl]
      exact List.mem_cons_self ..
    · refine h.rests (.stopped other :: process.pid.toList.map (.signalled other))
        (isRunning_insert_of_ne (halt_processes ..) same) (by simp) (fun m queued _ => by rwa [halt_events])
        (halt_history ..) ?_
      simp [Note.isSpawn]
  | handles queued => exact h.handle hconfig always queued (kept rfl _ _ queued)
  | @sends task c result child waiting reaped =>
    refine h.rests [.posted { event := c.report result, sender := some task }] ?_ (by simp [sendReport])
      (fun m queued _ => mem_post_events queued) (by simp [sendReport, post_history, opened])
      (by simp [Note.isSpawn])
    rw [isRunning, sendReport, post_processes, isRunning]
  | @fires other sleeping =>
    by_cases same : name = other
    · subst same
      exact .inr (.inr (.inl ⟨{ event := .restartRequested name }, by simp [fire, post_events, opened], rfl⟩))
    · refine h.rests [.posted { event := .restartRequested other }] ?_ ?_
        (fun m queued _ => mem_post_events queued) (by simp [fire, post_history, opened])
        (by simp [Note.isSpawn])
      · rw [isRunning, fire, post_processes, isRunning]
      · intro sleeps
        rw [fire, post_timers]
        exact (List.mem_erase_of_ne same).mpr sleeps

/-- An attempt to start a configured program leaves it supervised. -/
theorem Supervised.attempted {d : Daemon} {name : String} (known : name ∈ d.processes) (spawn : Option Nat) :
    Supervised (startProcessSingle split d name spawn).2 name := by
  have outcome := startProcessSingle_outcome split d name spawn
  generalize startProcessSingle split d name spawn = ran at outcome ⊢
  cases outcome with
  | unknown absent => exact absurd known (Finmap.lookup_eq_none.mp absent)
  | alreadyRunning process found running => exact .inl (isRunning_iff.mpr ⟨process, found, running⟩)
  | spawnFails process error found stopped =>
    refine .inr (.inr (.inr ⟨.spawnFailed name, ?_, .inr (.inl rfl)⟩))
    rw [note_history, since_cons_of_neg rfl]
    exact List.mem_cons_self ..
  | launches process command pid found stopped => exact .inl (by simp [isRunning, launch_processes])

end Daemon

namespace System

theorem Reached.monitored {s : System} (h : s.Reached split) : s.toDaemon.Monitored := by
  refine h.invariant (fun s => s.toDaemon.Monitored) Daemon.loadFromConfig_monitored ?_
  intro s a t reached monitored hstep
  exact monitored.moved reached.recorded (step_moved hstep)

/-- The steps of the monitor of child `task`. -/
def OwnSteps (task : Nat) (actions : List Action) : Prop :=
  ∀ a ∈ actions, a = .childReaped task none ∨ a = .monitorSends task

theorem sends_report (split : String → Option (List String)) {s : System} (opened : s.closed = false)
    {task : Nat} {c : Child} {result : WaitResult} (child : s.children[task]? = some c)
    (waiting : c.monitor = .waiting) (reaped : c.reaped = some result) :
    ∃ t, s.step split (.monitorSends task) = some t ∧
      ∃ m ∈ t.events, m.sender = some task ∧ m.event.reports c.program = true := by
  refine ⟨_, step_of (c := s.only (.send task)) rfl (Daemon.apply_send split child waiting reaped), ?_⟩
  exact ⟨{ event := c.report result, sender := some task },
    by simp [Daemon.sendReport, Daemon.post_events, opened], rfl, by simp⟩

/-- The report on a dead child whose monitor is waiting comes into the queue by the monitor alone. -/
theorem reports_dead {s : System} (opened : s.closed = false) {task : Nat} {c : Child} {code : Option Int}
    (child : s.children[task]? = some c) (waiting : c.monitor = .waiting) (exit : c.exit = some code) :
    ∃ actions t, OwnSteps task actions ∧ runs (step split) s actions = some t ∧
      ∃ m ∈ t.events, m.sender = some task ∧ m.event.reports c.program = true := by
  cases reaped : c.reaped with
  | some result =>
    obtain ⟨t, hstep, report⟩ := sends_report split opened child waiting reaped
    exact ⟨[.monitorSends task], t, by simp [OwnSteps], by simp [runs, hstep], report⟩
  | none =>
    have reaps := step_of (a := .childReaped task none) (c := s.only (.reap task none)) rfl
      (Daemon.apply_reap split child reaped exit)
    have child' := getElem?_set_here { c with reaped := some (.status code) } child
    obtain ⟨t, hstep, report⟩ := sends_report split (s := { s with
      children := s.children.set task { c with reaped := some (.status code) } }) opened child' waiting rfl
    refine ⟨[.childReaped task none, .monitorSends task], t, by simp [OwnSteps], ?_, report⟩
    rw [runs, reaps, Option.bind_some, runs]
    exact (congrArg (Option.bind · _) hstep).trans rfl

theorem Reached.watched {s : System} (reached : s.Reached split) (opened : s.closed = false)
    {name : String} {process : ManagedProcess} (found : s.processes.lookup name = some process)
    (running : process.running = true) : ∃ task c, s.latest name = some task ∧
      s.children[task]? = some c ∧ c.monitor ≠ .aborted ∧ s.Watched task c := by
  obtain ⟨task, c, latest, child, _⟩ := reached.recorded.current name process found running
  exact ⟨task, c, latest, child, reached.monitored opened name process task c found running latest child⟩

/-- While the channel is open, the latest child of a running program has a monitor that has
    not been aborted, and that is still to report or has its report in the queue; where the
    child is dead, nothing but steps of this monitor is needed to have the report there. -/
theorem running_watched {s : System} (reached : s.Reached split) (opened : s.closed = false)
    {name : String} {process : ManagedProcess} (found : s.processes.lookup name = some process)
    (running : process.running = true) :
    ∃ task c, s.latest name = some task ∧ s.children[task]? = some c ∧ c.monitor ≠ .aborted ∧
      s.Watched task c ∧ (c.exit.isSome = true → ∃ actions t, OwnSteps task actions ∧
        runs (step split) s actions = some t ∧
        ∃ m ∈ t.events, m.sender = some task ∧ m.event.reports name = true) := by
  obtain ⟨task, c, latest, child, alive, watched⟩ := reached.watched opened found running
  refine ⟨task, c, latest, child, alive, watched, fun dead => ?_⟩
  obtain ⟨code, exit⟩ := Option.isSome_iff_exists.mp dead
  obtain ⟨x, hx, rfl⟩ := Daemon.latest_child latest
  rw [child, Option.some.injEq] at hx
  subst hx
  cases watched with
  | inl waiting => exact reports_dead opened child waiting exit
  | inr report => exact ⟨[], s, by simp [OwnSteps], rfl, report⟩

/-- The child is dead and its exit not yet reported. -/
theorem running_watched_exited : ∃ s : System, s.isRunning "web" = true ∧ ∃ task c,
    s.latest "web" = some task ∧ s.children[task]? = some c ∧ c.monitor ≠ .aborted ∧ s.Watched task c ∧
      (c.exit.isSome = true → ∃ actions t, OwnSteps task actions ∧ runs (step oneWord) s actions = some t ∧
        ∃ m ∈ t.events, m.sender = some task ∧ m.event.reports "web" = true) :=
  have exited : (ran oneWord [("web", { command := "web" })]
    [.startProcess "web", .startUnit (some 7), .childExits 0 (some 0)]).isSome = true := by decide
  ⟨_, rfl, running_watched (Reached.ran exited) rfl rfl rfl⟩

/-- A step keeps an `always` program supervised, or begins the `start_process` call that its
    `RestartRequested` asks for. -/
theorem step_supervised {s t : System} {a : Action} (h : s.step split a = some t) {name : String}
    {config : ProgramConfig} (hconfig : configOf s.processes name = some config)
    (always : config.restart = some "always") (opened : s.closed = false)
    (supervised : s.Supervised name) : name ∈ t.lock.pending ∨ t.Supervised name := by
  by_cases taken : a = .handleSingleEvent ∧
      ∃ sender rest, s.events = { event := .restartRequested name, sender } :: rest
  · obtain ⟨rfl, sender, rest, queued⟩ := taken
    cases step_pending h with
    | same _ calm => exact absurd ⟨sender, rest, queued⟩ (calm name)
    | attempts _ _ attempt => cases attempt
    | calls root called _ _ closure =>
      obtain ⟨sender', rest', queued'⟩ := called
      rw [queued] at queued'
      cases queued'
      -- every program is in its own closure
      exact .inl ((closure name).mpr ⟨mem_iff_configOf.mpr ⟨config, hconfig⟩, .refl⟩)
  · refine .inr (supervised.moved hconfig always opened ?_ (step_moved h))
    intro handles m rest queued event
    exact taken ⟨moveOf_handle handles, m.sender, rest, by rw [queued, ← event]⟩

theorem step_attempted {s t : System} {a : Action} (h : s.step split a = some t) {name : String}
    {spawn : Option Nat} (attempt : s.moveOf a = .start name spawn) (known : name ∈ s.processes) :
    t.Supervised name := by
  rw [step_single h attempt]
  exact Daemon.Supervised.attempted known spawn

/-- An `always` program that was ever spawned is supervised, or is still to be started by the
    `start_process` call under way. -/
def Supervising (s : System) : Prop :=
  s.closed = false → ∀ (name : String) (config : ProgramConfig) (task : Nat),
    configOf s.processes name = some config → config.restart = some "always" →
    s.latest name = some task → name ∈ s.lock.pending ∨ s.Supervised name

theorem Supervising.step {s t : System} {a : Action} (h : Supervising s) (hstep : s.step split a = some t) :
    Supervising t := by
  intro opened name config task hconfig always latest
  rw [step_configs hstep] at hconfig
  have opened : s.closed = false := (step_moved hstep).opened opened
  cases (step_moved hstep).latest latest with
  | inl earlier =>
    cases h opened name config task hconfig always earlier with
    | inl pending =>
      -- a call keeps the lock until it has attempted all its units
      cases step_pending hstep with
      | same kept => exact .inl (by rwa [kept])
      | calls _ _ before => rw [before] at pending; cases pending
      | attempts unit spawn attempt queued =>
        rw [queued] at pending
        cases List.mem_cons.mp pending with
        | inl same =>
          subst same
          exact .inr (step_attempted hstep attempt (mem_iff_configOf.mpr ⟨config, hconfig⟩))
        | inr later => exact .inl later
    | inr supervised => exact step_supervised hstep hconfig always opened supervised
  | inr spawned =>
    obtain ⟨pid, launched⟩ := spawned
    exact .inr (step_attempted hstep launched (mem_iff_configOf.mpr ⟨config, hconfig⟩))

theorem Reached.supervising {s : System} (h : s.Reached split) : s.Supervising := by
  refine h.invariant Supervising ?_ fun s a t _ supervising hstep => supervising.step hstep
  intro program _ name config task _ _ latest
  obtain ⟨c, child, _⟩ := Daemon.latest_child latest
  rw [boot, (Daemon.loadFromConfig_fresh program).1] at child
  cases child

/-- While the channel is open, an `always` program that was ever spawned is running with its
    latest child watched, or a restart sleep of it runs, or a `RestartRequested` of it is
    queued, or its supervision has ended for a reason; `settled` leaves out the states inside
    a `start_process` call that has still to come to the program. -/
theorem always_supervised {s : System} (reached : s.Reached split) (opened : s.closed = false)
    {name : String} {config : ProgramConfig} (hconfig : configOf s.processes name = some config)
    (always : config.restart = some "always") {task : Nat} (spawned : s.latest name = some task)
    (settled : name ∉ s.lock.pending) :
    (∃ process c, s.processes.lookup name = some process ∧ process.running = true ∧
      s.children[task]? = some c ∧ s.Watched task c) ∨
    name ∈ s.timers ∨ (∃ m ∈ s.events, m.event = .restartRequested name) ∨ s.Released name := by
  cases reached.supervising opened name config task hconfig always spawned with
  | inl pending => exact absurd pending settled
  | inr supervised =>
    refine supervised.imp_left fun running => ?_
    obtain ⟨process, found, running⟩ := Daemon.isRunning_iff.mp running
    obtain ⟨last, c, latest, child, _, watched⟩ := reached.watched opened found running
    rw [spawned, Option.some.injEq] at latest
    subst latest
    exact ⟨process, c, found, running, child, watched⟩

/-- After the exit the restart sleep holds the obligation. -/
theorem always_supervised_exited : ∃ s : System, s.timers = ["web"] ∧
    ((∃ process c, s.processes.lookup "web" = some process ∧ process.running = true ∧
      s.children[0]? = some c ∧ s.Watched 0 c) ∨
    "web" ∈ s.timers ∨ (∃ m ∈ s.events, m.event = .restartRequested "web") ∨ s.Released "web") :=
  let config : ProgramConfig := { command := "web", restart := some "always" }
  have exited : (ran oneWord [("web", config)] [.startProcess "web", .startUnit (some 7),
    .childExits 0 (some 0), .childReaped 0 none, .monitorSends 0, .handleSingleEvent,
    .handleSingleEvent]).isSome = true := by decide
  have policy : config.restart = some "always" := rfl
  ⟨_, rfl, always_supervised (Reached.ran exited) rfl rfl policy rfl List.not_mem_nil⟩

end System

end Ciron
