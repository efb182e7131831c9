import Ciron.Daemon.Control
import Ciron.Daemon.Delivery

/-! # Which child a record is about

The manager knows a child through the record of its program alone: `running`, and the pid.
A stop gives the tie up and signals the child; a report of the program cuts it, whichever
child of the program the report is about.  Nothing else does, so a live child that was never
signalled is tracked until a report of its program is handled. -/

namespace Ciron

open Data Transition

variable {split : String → Option (List String)}

namespace Daemon

/-- The record of the child's program is that of the child. -/
def Tracks (d : Daemon) (c : Child) : Prop :=
  ∃ process, d.processes.lookup c.program = some process ∧ process.running = true ∧
    process.pid = some c.pid

/-- Every child that has not exited and was sent no SIGTERM is tracked. -/
def Tracked (d : Daemon) : Prop :=
  ∀ (task : Nat) (c : Child), d.children[task]? = some c → c.exit = none → c.signalled = false → d.Tracks c

theorem Tracks.of_lookup {d d' : Daemon} {c c' : Child} (h : Tracks d c) (ages : c.Becomes c')
    (same : d'.processes.lookup c.program = d.processes.lookup c.program) : Tracks d' c' := by
  obtain ⟨process, found, running, hpid⟩ := h
  exact ⟨process, by rw [ages.program, same, found], running, by rw [ages.pid, hpid]⟩

/-- A stop signals the live child that the record stands for. -/
theorem Tracks.halted {d : Daemon} {c : Child} {process : ManagedProcess} (h : Tracks d c)
    (found : d.processes.lookup c.program = some process)
    (dead : ∀ code, c.reaped = some (.status code) → c.exit = some code) (alive : c.exit = none)
    (late : Bool) (task : Nat) : (c.halted process late task).signalled = true := by
  obtain ⟨record, hrecord, _, hpid⟩ := h
  rw [found, Option.some.injEq] at hrecord
  subst hrecord
  -- a live child has not been reaped, so its pid is its own
  have holds : c.holdsPid = true := by
    unfold Child.holdsPid
    split
    · rename_i code reaped
      have exited := dead code reaped
      rw [alive] at exited; cases exited
    · rfl
  rw [Child.halted_signalled, hpid]
  simp [Child.receive, holds]

/-- A child stays tracked until it is signalled, or a report of its program is handled. -/
theorem Tracks.moved {d d' : Daemon} {move : Move} {task : Nat} {c c' : Child} (h : Tracks d c)
    (reaped : Reaped d) (child : d.children[task]? = some c) (child' : d'.children[task]? = some c')
    (alive : c'.exit = none) (unsignalled : c'.signalled = false)
    (kept : move = .handle → ∀ m rest, d.events = m :: rest → m.event.reports c.program = false)
    (moved : Moved split d move d') : Tracks d' c' := by
  obtain ⟨x, hx, ages⟩ := moved.forth task c child
  rw [child', Option.some.injEq] at hx
  subst hx
  cases moved with
  | unchanged | spawnFails | closes | exits | reaps => exact h.of_lookup ages rfl
  | sends => exact h.of_lookup ages (by rw [sendReport, post_processes])
  | fires => exact h.of_lookup ages (by rw [fire, post_processes])
  | handles queued => exact h.of_lookup ages (onReport_lookup_of_not_reports (kept rfl _ _ queued))
  | @launches name pid process command found stopped =>
    refine h.of_lookup ages ?_
    -- a tracked child's program is running, so the launch was of another one
    rw [launch_processes, lookup_insert_eq, if_neg]
    rintro rfl
    obtain ⟨record, hrecord, running, _⟩ := h
    rw [found, Option.some.injEq] at hrecord
    subst hrecord
    rw [stopped] at running; cases running
  | @halts name late process found running =>
    refine h.of_lookup ages ?_
    -- a stop of the child's own program would have signalled it
    rw [halt_processes, lookup_insert_eq, if_neg]
    rintro rfl
    rw [halt_children, child, Option.map_some, Option.some.injEq] at child'
    subst child'
    rw [h.halted found (fun code => reaped task c code child) (by rwa [Child.halted_exit] at alive)]
      at unsignalled
    cases unsignalled

/-- A child is an old one that has aged, or the move spawned it and its program's record is
    its own. -/
theorem Moved.child {d d' : Daemon} {move : Move} (moved : Moved split d move d') {task : Nat} {c' : Child}
    (child' : d'.children[task]? = some c') :
    (∃ c, d.children[task]? = some c ∧ c.Becomes c') ∨ task = d.children.length ∧ d'.Tracks c' := by
  cases moved.effect with
  | keeps keeps => exact .inl (keeps.back task c' child')
  | launches name process command pid _ _ launched =>
    subst launched
    cases launch_child_cases child' with
    | inl old => exact .inl ⟨c', old, .refl c'⟩
    | inr new =>
      obtain ⟨rfl, rfl⟩ := new
      exact .inr ⟨rfl, _, by rw [launch_processes, lookup_insert_eq, if_pos rfl], rfl, rfl⟩

/-- What a move adds to the history: a spawn is that of the next child, a SIGTERM that of a stop
    to the pid recorded for a running program. -/
theorem Moved.notes {d d' : Daemon} {move : Move} (moved : Moved split d move d') :
    ∃ new, d'.history = new ++ d.history ∧
      (∀ name task, .spawned name task ∈ new → task = d.children.length) ∧
      ∀ name pid, .signalled name pid ∈ new → ∃ late process, move = .stop name late ∧
        d.processes.lookup name = some process ∧ process.running = true ∧ process.pid = some pid := by
  cases moved with
  | unchanged | closes | exits | reaps => exact ⟨[], rfl, nofun, nofun⟩
  | @spawnFails name => exact ⟨[.spawnFailed name], rfl, by simp, by simp⟩
  | @launches name =>
    refine ⟨(if d.closed then [] else [.posted { event := .started name }]) ++
      [.spawned name d.children.length], ?_, ?_, ?_⟩
    · rw [launch_history]; split <;> rfl
    · cases d.closed <;> simp
    · cases d.closed <;> simp
  | @halts name late process found running =>
    refine ⟨.stopped name :: process.pid.toList.map (.signalled name), halt_history .., by simp, ?_⟩
    intro other pid member
    simp only [List.mem_cons, reduceCtorEq, List.mem_map, Option.mem_toList, Note.signalled.injEq,
      false_or] at member
    obtain ⟨sent, hpid, rfl, rfl⟩ := member
    exact ⟨late, process, rfl, found, running, hpid⟩
  | @handles m rest queued => exact ⟨[.handled m], onReport_history m.event, by simp, by simp⟩
  | @sends task c result =>
    refine ⟨if d.closed then [] else [.posted { event := c.report result, sender := some task }], ?_, ?_, ?_⟩
    · rw [sendReport, post_history]; split <;> simp_all
    · split <;> simp
    · split <;> simp
  | @fires name =>
    refine ⟨if d.closed then [] else [.posted { event := .restartRequested name }], ?_, ?_, ?_⟩
    · rw [fire, post_history]; split <;> simp_all
    · split <;> simp
    · split <;> simp

/-! ## Untracked children -/

/-- Since child `task` of `name` was spawned, a report of the program was handled. -/
def Reported (d : Daemon) (name : String) (task : Nat) : Prop :=
  ∃ m, .handled m ∈ since (· = .spawned name task) d.history ∧ m.event.reports name = true

/-- A live child that was never signalled is tracked or reported. -/
def Accounted (d : Daemon) : Prop :=
  ∀ (task : Nat) (c : Child), d.children[task]? = some c → c.exit = none → c.signalled = false →
    d.Tracks c ∨ d.Reported c.program task

theorem Reported.moved {d d' : Daemon} {move : Move} {name : String} {task : Nat} (h : Reported d name task)
    (moved : Moved split d move d') (old : task < d.children.length) : Reported d' name task := by
  obtain ⟨m, recent, reports⟩ := h
  obtain ⟨new, history, spawns, _⟩ := moved.notes
  refine ⟨m, ?_, reports⟩
  rw [history, since_append]
  · exact List.mem_append_right _ recent
  · intro n member
    refine decide_eq_false ?_
    rintro rfl
    have := spawns name task member
    omega

theorem Accounted.moved {d d' : Daemon} {move : Move} (h : Accounted d) (reaped : Reaped d)
    (moved : Moved split d move d') : Accounted d' := by
  intro task c' child' alive unsignalled
  cases moved.child child' with
  | inl aged =>
    obtain ⟨c, child, ages⟩ := aged
    have bound := (List.getElem?_eq_some_iff.mp child).1
    cases h task c child (ages.alive alive) (ages.unsignalled unsignalled) with
    | inl tracks =>
      -- only handling a report of the program cuts the tie
      by_cases taken : move = .handle ∧ ∃ m rest, d.events = m :: rest ∧ m.event.reports c.program = true
      · obtain ⟨rfl, m, rest, queued, reports⟩ := taken
        refine .inr ⟨m, ?_, by rwa [ages.program]⟩
        rw [moved.onHead queued, onReport_history, receive, note_history, since_cons_of_neg (by simp)]
        exact List.mem_cons_self ..
      · refine .inl (tracks.moved reaped child child' alive unsignalled ?_ moved)
        intro handles m rest queued
        refine Bool.eq_false_of_not_eq_true fun reports => taken ⟨handles, m, rest, queued, reports⟩
    | inr reported =>
      rw [ages.program]
      exact .inr (reported.moved moved bound)
  | inr spawned =>
    obtain ⟨_, tracks⟩ := spawned
    exact .inl tracks

theorem loadFromConfig_accounted (program : List (String × ProgramConfig)) :
    Accounted (loadFromConfig program) := by
  intro task c child
  rw [(loadFromConfig_fresh program).1] at child
  cases child

theorem loadFromConfig_tracked (program : List (String × ProgramConfig)) :
    Tracked (loadFromConfig program) := by
  intro task c child
  rw [(loadFromConfig_fresh program).1] at child
  cases child

end Daemon

namespace System

/-! ## Tracking along a run -/

/-- The step takes no report off the queue whose program has a live child that was never
    signalled. -/
def ReportsNoLiving (s : System) (a : Action) : Prop :=
  a = .handleSingleEvent → ∀ m rest, s.events = m :: rest → ∀ (task : Nat) (c : Child),
    s.children[task]? = some c → c.exit = none → c.signalled = false → m.event.reports c.program = false

theorem step_tracked {s t : System} {a : Action} (reached : s.Reached split) (tracked : s.Tracked)
    (h : s.step split a = some t) : t.Tracked ↔ s.ReportsNoLiving a := by
  constructor
  · rintro tracked' rfl m rest queued task c child alive unsignalled
    refine Bool.eq_false_of_not_eq_true fun reports => ?_
    have handled := (step_moved h).onHead queued
    have child' : t.children[task]? = some c := by
      rw [handled, Daemon.onReport_children, Daemon.receive, Daemon.note_children, child]
    obtain ⟨process, found, running, _⟩ := tracked' task c child' alive unsignalled
    rw [handled] at found
    rw [Daemon.onReport_stops reports found] at running
    cases running
  · intro reportsNoLiving task c' child' alive unsignalled
    cases (step_moved h).child child' with
    | inl aged =>
      obtain ⟨c, child, ages⟩ := aged
      have alive' := ages.alive alive
      have unsignalled' := ages.unsignalled unsignalled
      refine (tracked task c child alive' unsignalled').moved reached.reaped child child' alive unsignalled
        ?_ (step_moved h)
      intro handles m rest queued
      exact reportsNoLiving (moveOf_handle handles) m rest queued task c child alive' unsignalled'
    | inr spawned =>
      obtain ⟨_, tracks⟩ := spawned
      exact tracks

/-- All along a run every live child that was never signalled is its program's current one,
    if and only if no step handles a report of a program with such a child. -/
theorem tracked_iff {program : List (String × ProgramConfig)} {trace : List (System × Action)} {s : System}
    (run : Exec (step split) (boot program) trace s) :
    (s.Tracked ∧ ∀ p ∈ trace, p.1.Tracked) ↔ ∀ p ∈ trace, p.1.ReportsNoLiving p.2 :=
  run.good_iff (fun _ _ _ reached hstep => Reached.tail reached hstep)
    (fun _ _ _ reached tracked hstep => step_tracked reached tracked hstep)
    (Reached.start program) (Daemon.loadFromConfig_tracked program)

/-- A child exits, its monitor reports this, and the program is stopped and started before the
    report is handled. -/
def restartBeforePoll : List Action :=
  [.startProcess "web", .startUnit (some 7), .childExits 0 (some 0), .childReaped 0 none, .monitorSends 0,
    .stopProcess "web" false, .startProcess "web", .startUnit (some 8)]

theorem tracked_iff_restarted : ∃ trace s, s.isRunning "web" = true ∧
    Exec (step oneWord) (boot [("web", { command := "web" })]) trace s ∧
    ((s.Tracked ∧ ∀ p ∈ trace, p.1.Tracked) ↔ ∀ p ∈ trace, p.1.ReportsNoLiving p.2) := by
  have restarted : (ran oneWord [("web", { command := "web" })] restartBeforePoll).isSome = true := by decide
  obtain ⟨trace, run, _⟩ := exec_ran restarted
  exact ⟨trace, _, rfl, run, tracked_iff run⟩

/-- The report of the first child marks the program not running while the second one lives. -/
theorem stale_report_untracks : ∃ s, ran oneWord [("web", { command := "web" })]
    (restartBeforePoll ++ [.handleSingleEvent, .handleSingleEvent]) = some s ∧ ¬ s.Tracked := by
  refine ⟨_, rfl, fun tracked => ?_⟩
  obtain ⟨process, found, running, _⟩ := tracked 1 _ rfl rfl rfl
  cases found
  cases running

/-! ## Spawning beside an earlier child -/

theorem Reached.accounted {s : System} (h : s.Reached split) : s.toDaemon.Accounted := by
  refine h.invariant (fun s => s.toDaemon.Accounted) Daemon.loadFromConfig_accounted ?_
  intro s a t reached accounted hstep
  exact accounted.moved reached.reaped (step_moved hstep)

/-- When a program is spawned, each earlier child of it has exited, or was sent SIGTERM, or a
    report of the program was handled since that child was spawned. -/
theorem spawns_after {s : System} (reached : s.Reached split) {a : Action} {name : String}
    (spawns : s.Spawns split a name) {task : Nat} {c : Child} (child : s.children[task]? = some c)
    (same : c.program = name) : c.exit.isSome = true ∨ c.signalled = true ∨ s.Reported name task := by
  obtain ⟨pid, process, command, _, launches⟩ := spawns.inv
  cases alive : c.exit with
  | some code => exact .inl rfl
  | none =>
    cases unsignalled : c.signalled with
    | true => exact .inr (.inl rfl)
    | false =>
      subst same
      cases reached.accounted task c child alive unsignalled with
      | inl tracks =>
        -- a spawn needs the program to be marked not running
        obtain ⟨record, found, running, _⟩ := tracks
        rw [launches.found, Option.some.injEq] at found
        subst found
        rw [launches.stopped] at running; cases running
      | inr reported => exact .inr (.inr reported)

theorem spawns_after_exit : ∃ (s : System) (a : Action) (c : Child), s.children[0]? = some c ∧
    s.Spawns oneWord a "web" ∧ (c.exit.isSome = true ∨ c.signalled = true ∨ s.Reported "web" 0) :=
  let actions : List Action := [.startProcess "web", .startUnit (some 7), .childExits 0 (some 0),
    .childReaped 0 none, .monitorSends 0, .handleSingleEvent, .handleSingleEvent, .startProcess "web"]
  have exited : (ran oneWord [("web", { command := "web" })] actions).isSome = true := rfl
  have spawns : ((ran oneWord [("web", { command := "web" })] actions).get exited).Spawns oneWord
    (.startUnit (some 7)) "web" := ⟨_, rfl, rfl⟩
  ⟨_, _, _, rfl, spawns, spawns_after (Reached.ran exited) spawns rfl rfl⟩

/-- A program that is stopped and started again at once is spawned while its child lives. -/
theorem spawns_beside_living : ∃ s c, ran oneWord [("web", { command := "web" })] [.startProcess "web",
      .startUnit (some 7), .stopProcess "web" false, .startProcess "web"] = some s ∧
    s.Spawns oneWord (.startUnit (some 8)) "web" ∧ s.children[0]? = some c ∧ c.program = "web" ∧
    c.exit = none :=
  ⟨_, _, rfl, ⟨_, rfl, rfl⟩, rfl, rfl, rfl⟩

/-! ## Whom a stop signals -/

/-- The step sends SIGTERM to `pid` on behalf of `name`. -/
def Signals (split : String → Option (List String)) (s : System) (a : Action) (name : String) (pid : Nat) :
    Prop :=
  ∃ t new, s.step split a = some t ∧ t.history = new ++ s.history ∧ .signalled name pid ∈ new

/-- Whatever pid the step signals is that of a child of the program whose wait is not over. -/
def SignalsOwn (split : String → Option (List String)) (s : System) (a : Action) : Prop :=
  ∀ name pid, s.Signals split a name pid → ∃ (task : Nat) (c : Child), s.children[task]? = some c ∧
    c.program = name ∧ c.pid = pid ∧ c.reaped = none

/-- The step does not stop a running program the wait on whose latest child is over. -/
def StopsUnreaped (s : System) (a : Action) : Prop :=
  ∀ name late, s.moveOf a = .stop name late → s.isRunning name = true → ∀ (task : Nat) (c : Child),
    s.latest name = some task → s.children[task]? = some c → c.reaped = none

theorem Signals.inv {s : System} {a : Action} {name : String} {pid : Nat} (h : s.Signals split a name pid) :
    ∃ late process, s.moveOf a = .stop name late ∧ s.processes.lookup name = some process ∧
      process.running = true ∧ process.pid = some pid := by
  obtain ⟨t, new, hstep, history, member⟩ := h
  obtain ⟨new', history', _, signals⟩ := (step_moved hstep).notes
  rw [history', List.append_cancel_right_eq] at history
  subst history
  exact signals name pid member

theorem signals_of_stop {s t : System} {a : Action} (h : s.step split a = some t) {name : String}
    {late : Bool} {process : ManagedProcess} {pid : Nat} (stops : s.moveOf a = .stop name late)
    (found : s.processes.lookup name = some process) (running : process.running = true)
    (hpid : process.pid = some pid) : s.Signals split a name pid := by
  refine ⟨t, [.stopped name, .signalled name pid], h, ?_, by simp⟩
  have halted : t.toDaemon = s.halt name process late := by
    rw [step_stop h stops, Daemon.stopProcess, found]
    simp [running]
  rw [halted, Daemon.halt_history, hpid]
  rfl

theorem signalsOwn_iff {s t : System} {a : Action} (reached : s.Reached split)
    (h : s.step split a = some t) : s.SignalsOwn split a ↔ s.StopsUnreaped a := by
  constructor
  · intro own name late stops runs task c latest child
    obtain ⟨process, found, running⟩ := Daemon.isRunning_iff.mp runs
    obtain ⟨last, x, hlast, hx, _, hpid⟩ := reached.recorded.current name process found running
    rw [latest, Option.some.injEq] at hlast
    subst hlast
    rw [child, Option.some.injEq] at hx
    subst hx
    have signals := signals_of_stop h stops found running hpid
    obtain ⟨other, y, hy, hprogram, same, unreaped⟩ := own name c.pid signals
    -- no older child has the latest one's pid and an unfinished wait
    obtain ⟨last, hlast, le⟩ := Daemon.le_latest hy
    rw [hprogram, latest, Option.some.injEq] at hlast
    subst hlast
    have holds : y.holdsPid = true := by simp [Child.holdsPid, unreaped]
    cases Nat.lt_or_eq_of_le le with
    | inl older => exact absurd same (reached.recorded.pids other task y c older hy child holds)
    | inr same =>
      subst same
      rw [child, Option.some.injEq] at hy
      rw [hy, unreaped]
  · intro unreaped name pid signals
    obtain ⟨late, process, stops, found, running, hpid⟩ := signals.inv
    obtain ⟨task, c, latest, child, _, same⟩ := reached.recorded.current name process found running
    obtain ⟨x, hx, hprogram⟩ := Daemon.latest_child latest
    rw [child, Option.some.injEq] at hx
    subst hx
    rw [hpid, Option.some.injEq] at same
    exact ⟨task, c, child, hprogram, same.symm, unreaped name late stops
      (Daemon.isRunning_iff.mpr ⟨process, found, running⟩) task c latest child⟩

/-- A run signals only children of the stopped programs that were not waited for, if and only
    if no stop in it comes between the wait on a program's child and the handling of its exit. -/
theorem run_signalsOwn_iff {program : List (String × ProgramConfig)} {trace : List (System × Action)}
    {s : System} (run : Exec (step split) (boot program) trace s) :
    (∀ p ∈ trace, p.1.SignalsOwn split p.2) ↔ ∀ p ∈ trace, p.1.StopsUnreaped p.2 := by
  refine forall₂_congr fun p member => ?_
  obtain ⟨reached, t, hstep, _⟩ := run.split p member
  exact signalsOwn_iff ⟨program, reached⟩ hstep

theorem run_signalsOwn_iff_restarted : ∃ trace s, s.isRunning "web" = true ∧
    Exec (step oneWord) (boot [("web", { command := "web" })]) trace s ∧
    ((∀ p ∈ trace, p.1.SignalsOwn oneWord p.2) ↔ ∀ p ∈ trace, p.1.StopsUnreaped p.2) := by
  have restarted : (ran oneWord [("web", { command := "web" })] restartBeforePoll).isSome = true := by decide
  obtain ⟨trace, run, _⟩ := exec_ran restarted
  exact ⟨trace, _, rfl, run, run_signalsOwn_iff run⟩

/-- The child of `web` has been reaped and its pid given to `db` when `web` is stopped: the stop
    signals `db`. -/
theorem stop_signals_other : ∃ s t, ran oneWord [("web", { command := "web" }), ("db", { command := "db" })]
      [.startProcess "web", .startUnit (some 7), .childExits 0 (some 0), .childReaped 0 none,
        .startProcess "db", .startUnit (some 7)] = some s ∧
    s.step oneWord (.stopProcess "web" false) = some t ∧
    t.children.map (fun c => (c.program, c.signalled)) = [("web", false), ("db", true)] ∧
    ¬ s.SignalsOwn oneWord (.stopProcess "web" false) := by
  refine ⟨_, _, rfl, rfl, rfl, fun own => ?_⟩
  obtain ⟨task, c, child, hprogram, _, unreaped⟩ :=
    own "web" 7 ⟨_, [.stopped "web", .signalled "web" 7], rfl, rfl, by simp⟩
  rcases task with _ | _ | task
  · cases child; cases unreaped
  · cases child; exact absurd hprogram (by decide)
  · cases child

end System

end Ciron
