import Ciron.Daemon.Holder
import Ciron.Daemon.Phases

/-! # What `stop_all` does

`stop_all` goes through the names it took at the close, one stop after the other, while children
exit, monitors report and sleeps end.  No other holder of the lock comes between, so a program's
record is what it was at the close until its own stop.  `stop_all_signals` says whom the stops
have signalled in the end, and what is left alive. -/

namespace Ciron

open Transition

variable {split : String → Option (List String)}

/-- The program and the pid of a SIGTERM. -/
def Note.signal? : Note → Option (String × Nat)
  | .signalled name pid => some (name, pid)
  | _ => none

namespace Daemon

/-- The SIGTERMs sent, oldest first. -/
def signals (d : Daemon) : List (String × Nat) := (d.history.filterMap Note.signal?).reverse

/-- The SIGTERM that a stop of `name` sends. -/
def addressed (d : Daemon) (name : String) : Option (String × Nat) :=
  (d.processes.lookup name).bind fun process => if process.running then process.pid.map (name, ·) else none

variable {d d' : Daemon} {name : String}

theorem addressed_congr (same : d'.processes.lookup name = d.processes.lookup name) :
    d'.addressed name = d.addressed name := by
  rw [addressed, same, addressed]

theorem stopProcess_signals (d : Daemon) (name : String) (late : Bool) :
    (d.stopProcess name late).2.signals = d.signals ++ (d.addressed name).toList := by
  unfold stopProcess addressed
  cases d.processes.lookup name with
  | none => simp
  | some process =>
    cases running : process.running with
    | false => simp [running]
    | true =>
      simp only [Bool.not_true, Bool.false_eq_true, if_false, signals, halt_history, Option.bind_some, running,
        if_true]
      cases process.pid <;> simp [List.filterMap_cons, Note.signal?]

theorem stopProcess_lookup_of_ne {other : String} (late : Bool) (different : other ≠ name) :
    (d.stopProcess name late).2.processes.lookup other = d.processes.lookup other := by
  unfold stopProcess
  split
  · rfl
  · split
    · rfl
    · rw [halt_processes, lookup_insert_eq, if_neg different]

theorem Moved.outside_signals {move : Move} (moved : Moved split d move d') (outside : move.Outside) :
    d'.signals = d.signals := by
  obtain ⟨new, history, _, signals⟩ := moved.notes
  have none : new.filterMap Note.signal? = [] := by
    refine List.filterMap_eq_nil_iff.mpr fun note member => ?_
    cases note with
    | signalled name pid =>
      obtain ⟨late, _, stops, _⟩ := signals name pid member
      rw [stops] at outside
      cases outside
    | _ => rfl
  rw [Daemon.signals, history, List.filterMap_append, none, List.nil_append, Daemon.signals]

end Daemon

namespace System

/-! ## One step inside `stop_all` -/

/-- The only steps of `main` are to the next name and, after the last, out of `stop_all`. -/
theorem step_stopping {s t : System} {a : Action} (h : s.step split a = some t) {names : List String}
    (held : s.lock = .stopping names) :
    (∃ name rest late, names = name :: rest ∧ t.lock = .stopping rest ∧ s.moveOf a = .stop name late) ∨
    (t.lock = .stopping names ∨ t.main = .released) ∧ (s.moveOf a).Outside := by
  cases own : s.Holds a with
  | false =>
    obtain ⟨lock, outside⟩ := step_bystander (by simp [held]) own h
    exact .inr ⟨.inl (lock.trans held), outside⟩
  | true =>
    obtain ⟨c, hcontrol, _, lock, _, main⟩ := step_inv h
    cases a with
    | stopNext late =>
      obtain ⟨name, rest, held', rfl⟩ := control_stopNext hcontrol
      rw [held] at held'
      cases held'
      exact .inl ⟨name, rest, late, rfl, lock, by simp [moveOf, held]⟩
    | mainReleases =>
      obtain ⟨_, same⟩ := Option.ite_none_right_eq_some.mp hcontrol
      cases same
      exact .inr ⟨.inr main, trivial⟩
    | restartWakes =>
      obtain ⟨name, restarting, _⟩ := control_restartWakes hcontrol
      rw [held] at restarting; cases restarting
    | startUnit =>
      obtain ⟨_, _, _, _, starting, _⟩ := control_startUnit hcontrol
      rw [held] at starting; cases starting
    | loopReleases | shutdown =>
      obtain ⟨possible, _⟩ := Option.ite_none_right_eq_some.mp hcontrol
      rw [held] at possible; cases possible.1
    | handleSingleEvent => simp [Holds, held] at own
    | _ => cases own

/-! ## The whole call -/

/-- `stop_all` has still to stop `rest`, with `d` the daemon at the close. -/
structure StopsAll (d : Daemon) (names rest : List String) (s : System) : Prop where
  untouched : ∀ name ∈ rest, s.processes.lookup name = d.processes.lookup name
  stopped : ∀ name ∈ names, name ∉ rest → s.isRunning name = false
  signals : ∃ done, names = done ++ rest ∧ s.signals = d.signals ++ done.filterMap d.addressed
  programs : s.programs = d.programs
  configs : configOf s.processes = configOf d.processes
  /-- A child that the records stood for is still the one they stand for, or is signalled. -/
  tracks : ∀ (task : Nat) (c : Child), d.children[task]? = some c → d.Tracks c →
    ∀ c', s.children[task]? = some c' → c'.exit = none → c'.signalled = false → s.Tracks c'

theorem StopsAll.start {s t : System} {names : List String} (h : s.step split (.shutdown names) = some t) :
    StopsAll s.toDaemon names names t := by
  have closed := step_shutdown h
  refine ⟨fun name _ => by rw [closed], fun name member other => absurd member other,
    ⟨[], rfl, by rw [closed]; exact (List.append_nil _).symm⟩, by rw [closed]; rfl, by rw [closed], ?_⟩
  intro task c child tracks c' child' _ _
  rw [closed, child, Option.some.injEq] at child'
  subst child'
  rw [closed]
  exact tracks

/-- A child stays the one that its program's record stands for, until it is signalled. -/
theorem StopsAll.tracks_step {d : Daemon} {names rest : List String} {s t : System} {a : Action}
    (h : StopsAll d names rest s) (reaped : s.Reaped) (keeps : s.Keeps t.toDaemon)
    (hstep : s.step split a = some t) (other : s.moveOf a ≠ .handle) (task : Nat) (c : Child)
    (child : d.children[task]? = some c) (tracks : d.Tracks c) (c' : Child)
    (child' : t.children[task]? = some c') (alive : c'.exit = none) (unsignalled : c'.signalled = false) :
    t.Tracks c' := by
  obtain ⟨before, present, ages⟩ := keeps.back task c' child'
  have tracked := h.tracks task c child tracks before present (ages.alive alive) (ages.unsignalled unsignalled)
  exact tracked.moved reaped present child' alive unsignalled (fun handles => absurd handles other)
    (step_moved hstep)

theorem StopsAll.step {d : Daemon} {names rest : List String} {s t : System} {a : Action}
    (h : StopsAll d names rest s) (reaped : s.Reaped) (nodup : names.Nodup) (held : s.lock = .stopping rest)
    (hstep : s.step split a = some t) :
    t.main = .released ∨ ∃ rest', t.lock = .stopping rest' ∧ StopsAll d names rest' t := by
  cases step_stopping hstep held with
  | inl next =>
    obtain ⟨name, later, late, rfl, lock, stops⟩ := next
    have keeps := (step_moved hstep).keeps (by simp [stops])
    have stopped := step_stop hstep stops
    obtain ⟨done, order, signals⟩ := h.signals
    -- the names are different, so no later record is touched
    have different : ∀ other ∈ later, other ≠ name := by
      rw [order] at nodup
      rintro other member rfl
      exact (List.nodup_cons.mp (List.nodup_append.mp nodup).2.1).1 member
    refine .inr ⟨later, lock, ?_, ?_, ⟨done ++ [name], by simp [order], ?_⟩, ?_, ?_, ?_⟩
    · intro other member
      rw [stopped, Daemon.stopProcess_lookup_of_ne late (different other member)]
      exact h.untouched other (List.mem_cons_of_mem _ member)
    · intro other member notLater
      by_cases same : other = name
      · rw [same, stopped]
        exact Daemon.stopProcess_stopped ..
      · exact keeps.stopped (h.stopped other member (by simp [same, notLater]))
    · have addressed := Daemon.addressed_congr (h.untouched name (List.mem_cons_self ..))
      rw [stopped, Daemon.stopProcess_signals, signals, addressed, List.filterMap_append, List.append_assoc]
      cases address : d.addressed name <;> simp [address]
    · exact keeps.programs.trans h.programs
    · exact keeps.configs.trans h.configs
    · exact h.tracks_step reaped keeps hstep (by simp [stops])
  | inr quiet =>
    obtain ⟨lock, outside⟩ := quiet
    refine lock.symm.imp_right fun lock => ⟨rest, lock, ?_⟩
    have keeps := (step_moved hstep).outside_keeps outside
    have processes := (step_moved hstep).outside_processes outside
    have signals := (step_moved hstep).outside_signals outside
    refine ⟨by rw [processes]; exact h.untouched, fun name member notRest => ?_, by rw [signals]; exact h.signals,
      keeps.programs.trans h.programs, keeps.configs.trans h.configs,
      h.tracks_step reaped keeps hstep fun handles => ?_⟩
    · exact keeps.stopped (h.stopped name member notRest)
    · rw [handles] at outside
      exact outside

/-- `main` does not come back from the end of `stop_all`. -/
theorem step_released {s t : System} {a : Action} (h : s.step split a = some t)
    (past : s.main = .released ∨ s.main = .aborted) : t.main = .released ∨ t.main = .aborted := by
  cases step_stepped h with
  | calls _ _ _ _ _ _ main | attempts _ _ _ _ _ _ _ _ main | restarts _ _ _ _ _ _ main | stays _ main
  | loopAcquires _ _ _ main | loopReleases _ _ _ main | shutdown _ _ _ _ main | stopNext _ _ _ _ _ _ main =>
    rwa [main]
  | serversStop _ serving => simp [serving] at past
  | mainAcquires action =>
    subst action
    obtain ⟨c, hcontrol, _⟩ := step_inv h
    obtain ⟨possible, _⟩ := Option.ite_none_right_eq_some.mp hcontrol
    simp [possible.1] at past
  | mainReleases _ _ _ main => exact .inl main
  | mainAborts _ _ _ main => exact .inr main

theorem shutdown_names {s t : System} {names : List String} (h : s.step split (.shutdown names) = some t) :
    names.Nodup ∧ names.toFinset = s.processes.keys ∧ t.lock = .stopping names := by
  obtain ⟨c, hcontrol, _, lock, _⟩ := step_inv h
  obtain ⟨possible, same⟩ := Option.ite_none_right_eq_some.mp hcontrol
  cases same
  exact ⟨possible.2.1, possible.2.2, lock⟩

/-- `stop_all` is at some name, or `main` is past it. -/
def WithinStopAll (d : Daemon) (names : List String) (s : System) : Prop :=
  (∃ rest, s.lock = .stopping rest ∧ StopsAll d names rest s) ∨ s.main = .released ∨ s.main = .aborted

theorem withinStopAll {s t u : System} (reached : s.Reached split) {names : List String}
    (closes : s.step split (.shutdown names) = some t) {trace : List (System × Action)}
    (run : Exec (step split) t trace u) : u.Reached split ∧ WithinStopAll s.toDaemon names u := by
  obtain ⟨nodup, _, lock⟩ := shutdown_names closes
  have preserved : ∀ u a v, u.Reached split ∧ WithinStopAll s.toDaemon names u → u.step split a = some v →
      v.Reached split ∧ WithinStopAll s.toDaemon names v := by
    rintro u a v ⟨reached, within⟩ hstep
    refine ⟨reached.tail hstep, ?_⟩
    cases within with
    | inl within =>
      obtain ⟨rest, held, stops⟩ := within
      cases stops.step reached.reaped nodup held hstep with
      | inl released => exact .inr (.inl released)
      | inr within => exact .inl within
    | inr past => exact .inr (step_released hstep past)
  exact (run.invariant preserved ⟨reached.tail closes, .inl ⟨names, lock, .start closes⟩⟩).1

/-- In a state where `stop_all` is done no program is running; it has sent one SIGTERM for each
    program that ran at the close, in the order of its names and to the pid recorded at the close,
    and no other; it has started nothing; and what it leaves alive and unsignalled are children that
    no record stood for at the close. -/
theorem stop_all_signals {s t u : System} (reached : s.Reached split) {names : List String}
    (closes : s.step split (.shutdown names) = some t) {trace : List (System × Action)}
    (run : Exec (step split) t trace u) (done : u.lock = .stopping []) :
    (∀ name, u.isRunning name = false) ∧
    u.signals = s.signals ++ names.filterMap s.addressed ∧ u.programs = s.programs ∧
    ∀ (task : Nat) (c' : Child), u.children[task]? = some c' → c'.exit = none → c'.signalled = false →
      ∃ c, s.children[task]? = some c ∧ ¬ s.Tracks c := by
  obtain ⟨reached', within⟩ := withinStopAll reached closes run
  have holding := (reached'.phases.stopping [] done).1
  obtain ⟨rest, held, stops⟩ := within.resolve_right (by simp [holding])
  rw [done, Lock.stopping.injEq] at held
  subst held
  have stopped : ∀ name, u.isRunning name = false := by
    intro name
    by_cases listed : name ∈ names
    · exact stops.stopped name listed List.not_mem_nil
    · refine Bool.eq_false_of_not_eq_true fun runs => listed ?_
      obtain ⟨process, found, _⟩ := Daemon.isRunning_iff.mp runs
      have known : name ∈ u.processes := Finmap.mem_of_lookup_eq_some found
      rw [← List.mem_toFinset, (shutdown_names closes).2.1, Finmap.mem_keys]
      exact (Daemon.mem_congr stops.configs name).mp known
  obtain ⟨done, order, signals⟩ := stops.signals
  rw [List.append_nil] at order
  refine ⟨stopped, by rw [signals, order], stops.programs, ?_⟩
  intro task c' child' alive unsignalled
  have present := congrArg (·[task]?) stops.programs
  simp only [Daemon.programs, List.getElem?_map, child', Option.map_some] at present
  obtain ⟨c, child, _⟩ := Option.map_eq_some_iff.mp present.symm
  refine ⟨c, child, fun tracks => ?_⟩
  -- the record would still be running
  obtain ⟨process, found, running, _⟩ := stops.tracks task c child tracks c' child' alive unsignalled
  have idle := stopped c'.program
  rw [Daemon.isRunning_iff.mpr ⟨process, found, running⟩] at idle
  cases idle

/-- Both programs are signalled, though one has exited. -/
theorem stop_all_signals_two : ∃ s u : System, u.signals = [("db", 8), ("web", 7)] ∧
    (∀ name, u.isRunning name = false) ∧
    u.signals = s.signals ++ ["db", "web"].filterMap s.addressed ∧ u.programs = s.programs ∧
    ∀ (task : Nat) (c' : Child), u.children[task]? = some c' → c'.exit = none → c'.signalled = false →
      ∃ c, s.children[task]? = some c ∧ ¬ s.Tracks c := by
  have closing : (ran oneWord [("web", { command := "web" }), ("db", { command := "db" })]
      [.startProcess "web", .startUnit (some 7), .startProcess "db", .startUnit (some 8), .childExits 0 (some 0),
        .serversStop, .mainAcquires]).isSome = true := by decide
  obtain ⟨t, closes⟩ : ∃ t, step oneWord ((ran oneWord _ _).get closing) (.shutdown ["db", "web"]) = some t :=
    ⟨_, rfl⟩
  obtain ⟨u, stopped, done, signals⟩ : ∃ u, runs (step oneWord) t [.stopNext false, .childReaped 0 none,
      .stopNext true] = some u ∧ u.lock = .stopping [] ∧ u.signals = [("db", 8), ("web", 7)] := by
    cases closes
    exact ⟨_, rfl, rfl, rfl⟩
  obtain ⟨trace, run, _⟩ := exec_of_runs stopped
  exact ⟨_, u, signals, stop_all_signals (Reached.ran closing) closes run done⟩

end System

end Ciron
