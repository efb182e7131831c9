import Ciron.Daemon.System

/-! # What holds in every reachable state

* `Recorded`: the manager's record of a running program is that of its latest child, and no
  later child has the pid of one whose wait is not over.
* `Reaped`: the status that a wait came to is the one the child exited with.
* `Built`: every child is of a configured program with a command that can be run.

A move that launches no child only weakens records and only ages children (`Keeps`); most
invariants use a move through that alone.
-/

namespace Ciron

open Data

variable {split : String → Option (List String)}

/-! ## Ageing children -/

/-- `c'` is the same child at a later time. -/
structure Child.Becomes (c c' : Child) : Prop where
  program : c'.program = c.program
  pid : c'.pid = c.pid
  exit : ∀ code, c.exit = some code → c'.exit = some code
  reaped : ∀ result, c.reaped = some result → c'.reaped = some result
  signalled : c.signalled = true → c'.signalled = true
  monitor : c.monitor ≠ .waiting → c'.monitor = c.monitor

theorem Child.Becomes.refl (c : Child) : c.Becomes c :=
  ⟨rfl, rfl, fun _ => id, fun _ => id, id, fun _ => rfl⟩

theorem Child.becomes_halted (c : Child) (process : ManagedProcess) (late : Bool) (task : Nat) :
    c.Becomes (c.halted process late task) where
  program := halted_program ..
  pid := halted_pid ..
  exit code h := by rw [halted_exit, h]
  reaped result h := by rw [halted_reaped, h]
  signalled h := by
    rw [halted_signalled]
    -- a signal is never taken back, whether this stop sends one or not
    cases process.pid <;> simp only [h, receive]
    split <;> simp [h]
  monitor h := by rw [halted_monitor, abort_monitor]; simp [h]

theorem Child.Becomes.holdsPid {c c' : Child} (h : c.Becomes c') (holds : c'.holdsPid = true) :
    c.holdsPid = true := by
  unfold Child.holdsPid at *
  cases hreaped : c.reaped with
  | none => rfl
  | some result =>
    rw [h.reaped result hreaped] at holds
    exact holds

theorem Child.Becomes.alive {c c' : Child} (h : c.Becomes c') (alive : c'.exit = none) : c.exit = none := by
  cases exited : c.exit with
  | none => rfl
  | some code => rw [h.exit code exited] at alive; cases alive

theorem Child.Becomes.waiting {c c' : Child} (h : c.Becomes c') (waiting : c'.monitor = .waiting) :
    c.monitor = .waiting := by
  by_contra finished
  rw [h.monitor finished] at waiting
  exact finished waiting

theorem Child.Becomes.unsignalled {c c' : Child} (h : c.Becomes c') (unsignalled : c'.signalled = false) :
    c.signalled = false := by
  cases signalled : c.signalled with
  | false => rfl
  | true => rw [h.signalled signalled] at unsignalled; cases unsignalled

namespace Daemon

/-! ## Moves that launch nothing -/

/-- What such a move keeps: every child ages, and every record stays as it is, or is marked
    not running and perhaps loses its monitor handle. -/
structure Keeps (d d' : Daemon) : Prop where
  forth : ∀ (task : Nat) (c : Child), d.children[task]? = some c →
    ∃ c', d'.children[task]? = some c' ∧ c.Becomes c'
  back : ∀ (task : Nat) (c' : Child), d'.children[task]? = some c' →
    ∃ c, d.children[task]? = some c ∧ c.Becomes c'
  records : ∀ (name : String) (process' : ManagedProcess), d'.processes.lookup name = some process' →
    ∃ process, d.processes.lookup name = some process ∧ process'.config = process.config ∧
      (process'.running = true → process' = process) ∧
      (process'.monitorHandle = none ∨ process'.monitorHandle = process.monitorHandle)
  configs : configOf d'.processes = configOf d.processes

theorem Keeps.of_eq {d d' : Daemon} (hchildren : d'.children = d.children)
    (hprocesses : d'.processes = d.processes) : Keeps d d' where
  forth task c h := ⟨c, by rw [hchildren, h], .refl c⟩
  back task c h := ⟨c, by rw [← hchildren, h], .refl c⟩
  records name process h := ⟨process, by rw [← hprocesses, h], rfl, fun _ => rfl, .inr rfl⟩
  configs := by rw [hprocesses]

/-- Nothing is marked running. -/
theorem Keeps.stopped {d d' : Daemon} (h : Keeps d d') {name : String} (stopped : d.isRunning name = false) :
    d'.isRunning name = false := by
  refine Bool.eq_false_of_not_eq_true fun runs => ?_
  obtain ⟨process', found', running'⟩ := isRunning_iff.mp runs
  obtain ⟨process, found, _, same, _⟩ := h.records name process' found'
  rw [same running'] at running'
  rw [isRunning_of_found found, running'] at stopped
  cases stopped

/-- Replacing one child by what it becomes. -/
theorem Keeps.set {d d' : Daemon} {task : Nat} {c : Child} (c' : Child) (child : d.children[task]? = some c)
    (ages : c.Becomes c') (hchildren : d'.children = d.children.set task c')
    (hprocesses : d'.processes = d.processes) : Keeps d d' where
  forth other x h := by
    rw [hchildren]
    by_cases same : task = other
    · subst same
      rw [child, Option.some.injEq] at h
      subst h
      exact ⟨c', getElem?_set_here c' child, ages⟩
    · exact ⟨x, by rw [List.getElem?_set_ne same, h], .refl x⟩
  back other x h := by
    rw [hchildren] at h
    cases getElem?_set_cases h with
    | inl here =>
      obtain ⟨rfl, rfl⟩ := here
      exact ⟨c, child, ages⟩
    | inr elsewhere => exact ⟨x, elsewhere.2, .refl x⟩
  records name process h := ⟨process, by rw [← hprocesses, h], rfl, fun _ => rfl, .inr rfl⟩
  configs := by rw [hprocesses]

/-- Marking one program not running. -/
theorem Keeps.clear {d d' : Daemon} {name : String} {process : ManagedProcess}
    (process' : ManagedProcess) (found : d.processes.lookup name = some process)
    (hconfig : process'.config = process.config) (stopped : process'.running = false)
    (handle : process'.monitorHandle = none ∨ process'.monitorHandle = process.monitorHandle)
    (hprocesses : d'.processes = d.processes.insert name process')
    (forth : ∀ (task : Nat) (c : Child), d.children[task]? = some c →
      ∃ c', d'.children[task]? = some c' ∧ c.Becomes c')
    (back : ∀ (task : Nat) (c' : Child), d'.children[task]? = some c' →
      ∃ c, d.children[task]? = some c ∧ c.Becomes c') :
    Keeps d d' where
  forth := forth
  back := back
  records other record h := by
    rw [hprocesses, lookup_insert_eq] at h
    split at h
    · rename_i same
      subst same
      cases h
      exact ⟨process, found, hconfig, fun running => absurd running (by simp [stopped]), handle⟩
    · exact ⟨record, h, rfl, fun _ => rfl, .inr rfl⟩
  configs := by rw [hprocesses]; exact configOf_insert found hconfig

theorem onReport_keeps (d : Daemon) (event : ProcessEvent) : Keeps d (d.onReport event) := by
  have forth : ∀ (task : Nat) (c : Child), d.children[task]? = some c →
      ∃ c', (d.onReport event).children[task]? = some c' ∧ c.Becomes c' :=
    fun task c h => ⟨c, by rw [onReport_children, h], .refl c⟩
  have back : ∀ (task : Nat) (c' : Child), (d.onReport event).children[task]? = some c' →
      ∃ c, d.children[task]? = some c ∧ c.Becomes c' :=
    fun task c h => ⟨c, by rw [← h, onReport_children], .refl c⟩
  cases event with
  | started | restartRequested => exact .of_eq rfl rfl
  | exited name code =>
    cases found : d.processes.lookup name with
    | none => exact .of_eq (onReport_children _) (by simp [onReport, onExited, found])
    | some process =>
      refine .clear { process with running := false } found rfl rfl (.inr rfl) ?_ forth back
      simp only [onReport, onExited, found]
      split <;> rfl
  | failed name error =>
    cases found : d.processes.lookup name with
    | none => exact .of_eq (onReport_children _) (by simp [onReport, onFailed, found])
    | some process =>
      exact .clear { process with running := false } found rfl rfl (.inr rfl)
        (by simp [onReport, onFailed, found]) forth back

/-- A launch, with the conditions it has. -/
structure Launches (split : String → Option (List String)) (d : Daemon) (name : String)
    (process : ManagedProcess) (command : Command) (pid : Nat) : Prop where
  found : d.processes.lookup name = some process
  stopped : process.running = false
  built : buildCommand split name process.config = .ok command
  free : d.pidFree pid = true

/-- A move launches a child, or only ages what there is. -/
inductive Effect (split : String → Option (List String)) (d : Daemon) (move : Move) (d' : Daemon) : Prop
  | keeps (keeps : Keeps d d')
  | launches (name : String) (process : ManagedProcess) (command : Command) (pid : Nat)
      (attempt : move = .start name (some pid)) (launches : Launches split d name process command pid)
      (launched : d' = d.launch name process command pid)

theorem Moved.effect {d d' : Daemon} {move : Move} (h : Moved split d move d') : Effect split d move d' := by
  cases h with
  | unchanged | spawnFails | closes => exact .keeps (.of_eq rfl rfl)
  | launches found stopped built free =>
    exact .launches _ _ _ _ rfl ⟨found, stopped, built, free⟩ rfl
  | @halts name late process found running =>
    refine .keeps (.clear { config := process.config } found rfl rfl (.inl rfl) (halt_processes ..) ?_ ?_)
    · intro task c child
      exact ⟨c.halted process late task, by rw [halt_children, child]; rfl, c.becomes_halted ..⟩
    · intro task c' child'
      rw [halt_children, Option.map_eq_some_iff] at child'
      obtain ⟨c, child, rfl⟩ := child'
      exact ⟨c, child, c.becomes_halted ..⟩
  | @handles message rest queued =>
    -- taking the message off the queue touches neither children nor records
    have keeps := onReport_keeps (d.receive message rest) message.event
    exact .keeps ⟨keeps.forth, keeps.back, keeps.records, keeps.configs⟩
  | @exits task c code child alive =>
    refine .keeps (.set { c with exit := some code } child ⟨rfl, rfl, ?_, fun _ => id, id, fun _ => rfl⟩ rfl rfl)
    intro code exited
    rw [alive] at exited; cases exited
  | @reaps task c error result child unreaped dead =>
    refine .keeps (.set { c with reaped := some result } child ⟨rfl, rfl, fun _ => id, ?_, id, fun _ => rfl⟩
      rfl rfl)
    intro result reaped
    rw [unreaped] at reaped; cases reaped
  | @sends task c result child waiting reaped =>
    refine .keeps (.set { c with monitor := .sent } child ⟨rfl, rfl, fun _ => id, fun _ => id, id, ?_⟩
      (post_children ..) (post_processes ..))
    intro finished
    exact absurd waiting finished
  | fires => exact .keeps (.of_eq (post_children ..) (post_processes ..))

theorem Moved.configs {d d' : Daemon} {move : Move} (h : Moved split d move d') :
    configOf d'.processes = configOf d.processes := by
  cases h.effect with
  | keeps keeps => exact keeps.configs
  | launches name process command pid _ launches launched =>
    rw [launched, launch_processes]
    exact configOf_insert launches.found rfl

theorem Moved.closed {d d' : Daemon} {move : Move} (h : Moved split d move d') (other : move ≠ .close) :
    d'.closed = d.closed := by
  cases h with
  | unchanged | spawnFails | exits | reaps => rfl
  | launches => exact launch_closed
  | halts => exact halt_closed ..
  | handles => exact onReport_closed ..
  | closes => exact absurd rfl other
  | sends | fires => exact post_closed ..

/-- A closed channel stays closed. -/
theorem Moved.opened {d d' : Daemon} {move : Move} (h : Moved split d move d')
    (opened : d'.closed = false) : d.closed = false := by
  by_cases closes : move = .close
  · subst closes
    cases h with
    | unchanged => exact opened
    | closes => cases opened
  · rwa [← h.closed closes]

/-! ## The latest child of a program -/

def programs (d : Daemon) : List String := d.children.map (·.program)

/-- The task of the child spawned last for `name`. -/
def latest (d : Daemon) (name : String) : Option Nat := lastIndex name d.programs

theorem programs_getElem? {d : Daemon} {task : Nat} {c : Child} (child : d.children[task]? = some c) :
    d.programs[task]? = some c.program := by
  simp [programs, child]

theorem latest_child {d : Daemon} {name : String} {task : Nat} (h : d.latest name = some task) :
    ∃ c, d.children[task]? = some c ∧ c.program = name := by
  simpa [programs] using lastIndex_getElem? h

theorem le_latest {d : Daemon} {task : Nat} {c : Child} (child : d.children[task]? = some c) :
    ∃ last, d.latest c.program = some last ∧ task ≤ last :=
  le_lastIndex (programs_getElem? child)

theorem Keeps.programs {d d' : Daemon} (h : Keeps d d') : d'.programs = d.programs := by
  apply List.ext_getElem?
  intro task
  simp only [Daemon.programs, List.getElem?_map]
  cases child : d.children[task]? with
  | some c =>
    obtain ⟨c', child', ages⟩ := h.forth task c child
    rw [child', Option.map_some, Option.map_some, ages.program]
  | none =>
    cases child' : d'.children[task]? with
    | none => rfl
    | some c' =>
      obtain ⟨c, present, _⟩ := h.back task c' child'
      rw [child] at present; cases present

theorem Keeps.latest {d d' : Daemon} (h : Keeps d d') (name : String) : d'.latest name = d.latest name := by
  rw [Daemon.latest, h.programs, Daemon.latest]

section

variable {d : Daemon} {name : String} {process : ManagedProcess} {command : Command} {pid : Nat}

theorem launch_latest (other : String) : (d.launch name process command pid).latest other =
    if name = other then some d.children.length else d.latest other := by
  rw [latest, programs, launch_children, List.map_append, List.map_singleton, lastIndex_append,
    List.length_map, latest, programs]

theorem launch_child_of_lt {task : Nat} {c : Child} (child : d.children[task]? = some c) :
    (d.launch name process command pid).children[task]? = some c := by
  rw [launch_children, List.getElem?_append_left (List.getElem?_eq_some_iff.mp child).1, child]

theorem launch_child_new : (d.launch name process command pid).children[d.children.length]? =
    some { program := name, command, pid, logForward := process.config.logForward } := by
  rw [launch_children, List.getElem?_append_right (Nat.le_refl _), Nat.sub_self]
  rfl

/-- The latest child of a program is an old one unless the move spawns the program. -/
theorem Moved.latest {d d' : Daemon} {move : Move} (h : Moved split d move d') {name : String} {task : Nat}
    (latest : d'.latest name = some task) :
    d.latest name = some task ∨ ∃ pid, move = .start name (some pid) := by
  cases h.effect with
  | keeps keeps => exact .inl (by rwa [← keeps.latest])
  | launches other process command pid attempt _ launched =>
    rw [launched, launch_latest] at latest
    split at latest
    · rename_i same
      exact .inr ⟨pid, by rw [attempt, same]⟩
    · exact .inl latest

/-- A child of the daemon after a launch is an old one or the new one. -/
theorem launch_child_cases {task : Nat} {c : Child}
    (child : (d.launch name process command pid).children[task]? = some c) :
    d.children[task]? = some c ∨ (task = d.children.length ∧
      c = { program := name, command, pid, logForward := process.config.logForward }) := by
  rw [launch_children, List.getElem?_append] at child
  split at child
  · exact .inl child
  · rename_i bound
    rw [List.getElem?_singleton] at child
    split at child
    · cases child; exact .inr ⟨by omega, rfl⟩
    · cases child

end

/-! ## Records and children -/

structure Recorded (d : Daemon) : Prop where
  known : ∀ (task : Nat) (c : Child), d.children[task]? = some c → c.program ∈ d.processes
  handle : ∀ (name : String) (process : ManagedProcess) (task : Nat), d.processes.lookup name = some process →
    process.monitorHandle = some task → ∃ c, d.children[task]? = some c ∧ c.program = name
  current : ∀ (name : String) (process : ManagedProcess),
    d.processes.lookup name = some process → process.running = true →
    ∃ task c, d.latest name = some task ∧ d.children[task]? = some c ∧
      process.monitorHandle = some task ∧ process.pid = some c.pid
  pids : ∀ (older newer : Nat) (c c' : Child), older < newer → d.children[older]? = some c →
    d.children[newer]? = some c' → c.holdsPid = true → c.pid ≠ c'.pid

theorem pidFree_ne {d : Daemon} {pid task : Nat} {c : Child} (free : d.pidFree pid = true)
    (child : d.children[task]? = some c) (holds : c.holdsPid = true) : c.pid ≠ pid := by
  have := List.all_eq_true.mp free c (List.mem_of_getElem? child)
  simpa [holds] using this

theorem Recorded.keeps {d d' : Daemon} (h : Recorded d) (keeps : Keeps d d') : Recorded d' where
  known task c' child' := by
    obtain ⟨c, child, ages⟩ := keeps.back task c' child'
    rw [mem_congr keeps.configs, ages.program]
    exact h.known task c child
  handle name process' task found' handle' := by
    obtain ⟨process, found, _, _, handle⟩ := keeps.records name process' found'
    cases handle with
    | inl cleared => rw [cleared] at handle'; cases handle'
    | inr same =>
      obtain ⟨c, child, hprogram⟩ := h.handle name process task found (by rw [← same, handle'])
      obtain ⟨c', child', ages⟩ := keeps.forth task c child
      exact ⟨c', child', by rw [ages.program, hprogram]⟩
  current name process' found' running' := by
    obtain ⟨process, found, _, same, _⟩ := keeps.records name process' found'
    -- a record still marked running has not been written
    obtain rfl := same running'
    obtain ⟨task, c, hlatest, child, handle, hpid⟩ := h.current name process' found running'
    obtain ⟨c', child', ages⟩ := keeps.forth task c child
    exact ⟨task, c', by rw [keeps.latest, hlatest], child', handle, by rw [hpid, ages.pid]⟩
  pids older newer x' y' lt hx' hy' holds := by
    obtain ⟨x, hx, agesX⟩ := keeps.back older x' hx'
    obtain ⟨y, hy, agesY⟩ := keeps.back newer y' hy'
    rw [agesX.pid, agesY.pid]
    exact h.pids older newer x y lt hx hy (agesX.holdsPid holds)

theorem Recorded.launch {d : Daemon} {name : String} {process : ManagedProcess} {command : Command}
    {pid : Nat} (h : Recorded d) (launches : Launches split d name process command pid) :
    Recorded (d.launch name process command pid) where
  known task c child := by
    rw [launch_processes, Finmap.mem_insert]
    cases launch_child_cases child with
    | inl old => exact .inr (h.known task c old)
    | inr new =>
      obtain ⟨_, rfl⟩ := new
      exact .inl rfl
  handle other record task found handle := by
    rw [launch_processes, lookup_insert_eq] at found
    split at found
    · rename_i same
      subst same
      cases found
      simp only [Option.some.injEq] at handle
      subst handle
      exact ⟨_, launch_child_new, rfl⟩
    · obtain ⟨c, child, hprogram⟩ := h.handle other record task found handle
      exact ⟨c, launch_child_of_lt child, hprogram⟩
  current other record found running := by
    rw [launch_processes, lookup_insert_eq] at found
    split at found
    · rename_i same
      subst same
      cases found
      exact ⟨d.children.length, _, by rw [launch_latest, if_pos rfl], launch_child_new, rfl, rfl⟩
    · rename_i different
      obtain ⟨task, c, hlatest, child, handle, hpid⟩ := h.current other record found running
      exact ⟨task, c, by rw [launch_latest, if_neg (Ne.symm different), hlatest],
        launch_child_of_lt child, handle, hpid⟩
  pids older newer x y lt hx hy holds := by
    cases launch_child_cases hx with
    | inl oldX =>
      cases launch_child_cases hy with
      | inl oldY => exact h.pids older newer x y lt oldX oldY holds
      | inr new =>
        -- the kernel gave the new child a pid that was free
        obtain ⟨_, rfl⟩ := new
        exact pidFree_ne launches.free oldX holds
    | inr new =>
      obtain ⟨rfl, _⟩ := new
      -- nothing is newer than the child just launched
      cases launch_child_cases hy with
      | inl oldY => have := (List.getElem?_eq_some_iff.mp oldY).1; omega
      | inr new =>
        obtain ⟨rfl, _⟩ := new
        omega

theorem Recorded.moved {d d' : Daemon} {move : Move} (h : Recorded d) (moved : Moved split d move d') :
    Recorded d' := by
  cases moved.effect with
  | keeps keeps => exact h.keeps keeps
  | launches name process command pid _ launches launched =>
    subst launched
    exact h.launch launches

/-! ## Waits and exits -/

/-- The status that the wait on a child came to is the one it exited with. -/
def Reaped (d : Daemon) : Prop :=
  ∀ (task : Nat) (c : Child) (code : Option Int), d.children[task]? = some c →
    c.reaped = some (.status code) → c.exit = some code

theorem Reaped.set {d : Daemon} (h : Reaped d) (task : Nat) (c : Child)
    (dead : ∀ code, c.reaped = some (.status code) → c.exit = some code) :
    Reaped { d with children := d.children.set task c } := by
  intro other x code hx reaped
  cases getElem?_set_cases hx with
  | inl here =>
    obtain ⟨_, rfl⟩ := here
    exact dead code reaped
  | inr elsewhere =>
    obtain ⟨_, old⟩ := elsewhere
    exact h other x code old reaped

theorem Reaped.moved {d d' : Daemon} {move : Move} (h : Reaped d) (moved : Moved split d move d') :
    Reaped d' := by
  cases moved with
  | unchanged | spawnFails | closes => exact h
  | launches =>
    intro task c code child reaped
    cases launch_child_cases child with
    | inl old => exact h task c code old reaped
    | inr new =>
      obtain ⟨_, rfl⟩ := new
      cases reaped
  | halts =>
    intro task c code child reaped
    rw [halt_children, Option.map_eq_some_iff] at child
    obtain ⟨x, hx, rfl⟩ := child
    rw [Child.halted_exit]
    exact h task x code hx (by rwa [Child.halted_reaped] at reaped)
  | handles =>
    intro task c code child reaped
    rw [onReport_children] at child
    exact h task c code child reaped
  | @exits task c code child alive =>
    refine h.set task { c with exit := some code } ?_
    -- no wait comes to a status before the exit
    intro status reaped
    have exited := h task c status child reaped
    rw [alive] at exited; cases exited
  | @reaps task c error result child unreaped dead =>
    refine h.set task { c with reaped := some result } ?_
    intro code reaped
    exact dead code (Option.some.inj reaped)
  | @sends task c result child waiting reaped =>
    have sent : Reaped { d with children := d.children.set task { c with monitor := .sent } } :=
      h.set task { c with monitor := .sent } fun code => h task c code child
    intro other x code hx
    rw [sendReport, post_children] at hx
    exact sent other x code hx
  | fires =>
    intro task c code child
    rw [fire, post_children] at child
    exact h task c code child

/-! ## Children and commands -/

/-- The program of a child is configured with a command that can be run. -/
def Built (split : String → Option (List String)) (d : Daemon) : Prop :=
  ∀ (task : Nat) (c : Child), d.children[task]? = some c → ∃ config command,
    configOf d.processes c.program = some config ∧ buildCommand split c.program config = .ok command

theorem Built.moved {d d' : Daemon} {move : Move} (h : Built split d) (moved : Moved split d move d') :
    Built split d' := by
  intro task c' child'
  rw [moved.configs]
  cases moved.effect with
  | keeps keeps =>
    obtain ⟨c, child, ages⟩ := keeps.back task c' child'
    rw [ages.program]
    exact h task c child
  | launches name process command pid _ launches launched =>
    subst launched
    cases launch_child_cases child' with
    | inl old => exact h task c' old
    | inr new =>
      rw [new.2]
      exact ⟨process.config, command, by simp [configOf, launches.found], launches.built⟩

/-! ## The manager at the start -/

/-- The records `load_from_config` makes. -/
theorem loadFromConfig_fresh (program : List (String × ProgramConfig)) :
    (loadFromConfig program).children = [] ∧ (loadFromConfig program).events = [] ∧
      (loadFromConfig program).closed = false ∧ (loadFromConfig program).timers = [] ∧
      (loadFromConfig program).history = [] ∧
      ∀ name process, (loadFromConfig program).processes.lookup name = some process →
        process.running = false ∧ process.monitorHandle = none := by
  unfold loadFromConfig
  induction program using List.reverseRecOn with
  | nil => simp
  | append_singleton program entry ih =>
    obtain ⟨hchildren, hevents, hclosed, htimers, hhistory, hrecords⟩ := ih
    rw [List.foldl_append, List.foldl_cons, List.foldl_nil]
    refine ⟨hchildren, hevents, hclosed, htimers, hhistory, ?_⟩
    intro name process found
    rw [setProcess_processes, lookup_insert_eq] at found
    split at found
    · cases found; exact ⟨rfl, rfl⟩
    · exact hrecords name process found

theorem loadFromConfig_recorded (program : List (String × ProgramConfig)) :
    Recorded (loadFromConfig program) := by
  obtain ⟨hchildren, _, _, _, _, hrecords⟩ := loadFromConfig_fresh program
  constructor
  · intro task c child; rw [hchildren] at child; cases child
  · intro name process task found handle
    rw [(hrecords name process found).2] at handle; cases handle
  · intro name process found running
    rw [(hrecords name process found).1] at running; cases running
  · intro older newer c c' _ child; rw [hchildren] at child; cases child

theorem loadFromConfig_reaped (program : List (String × ProgramConfig)) :
    Reaped (loadFromConfig program) := by
  intro task c code child
  rw [(loadFromConfig_fresh program).1] at child
  cases child

theorem loadFromConfig_built (program : List (String × ProgramConfig)) :
    Built split (loadFromConfig program) := by
  intro task c child
  rw [(loadFromConfig_fresh program).1] at child
  cases child

end Daemon

theorem System.Reached.built {s : System} (h : s.Reached split) : s.toDaemon.Built split :=
  h.daemon_invariant Daemon.loadFromConfig_built
    fun _ _ _ built happly => built.moved (Daemon.apply_moved happly)

theorem System.Reached.reaped {s : System} (h : s.Reached split) : s.toDaemon.Reaped :=
  h.daemon_invariant Daemon.loadFromConfig_reaped
    fun _ _ _ reaped happly => reaped.moved (Daemon.apply_moved happly)

theorem System.Reached.recorded {s : System} (h : s.Reached split) : s.toDaemon.Recorded :=
  h.daemon_invariant Daemon.loadFromConfig_recorded
    fun _ _ _ recorded happly => recorded.moved (Daemon.apply_moved happly)

end Ciron
