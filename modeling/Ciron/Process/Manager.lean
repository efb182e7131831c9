import Mathlib.Data.Finmap
import Ciron.Common.Config

/-! # The process manager

The data of `ProcessManager` and those of its methods that touch a single program:
`start_process_single`, `stop_process` and the arms of `handle_single_event`.

The manager does not work alone.  A `Daemon` is the manager together with what its calls
leave behind outside of it: the child processes, each with the tokio task that monitors
it, and the tasks that sleep before a restart.  Two things are recorded that the code
does not keep: the task that sent a message (`Message.sender`), and a `history` of what
happened, newest first.

What the code takes from outside is a parameter: `split` is `shell_words::split`, and the
answer of the operating system to a spawn is the argument `spawn`, the pid of the new
child or `none` for an error.
-/

namespace Ciron

/-! ## Events and managed processes -/

inductive ProcessEvent where
  | started (name : String)
  | exited (name : String) (code : Int)
  | failed (name : String) (error : String)
  | restartRequested (name : String)
deriving DecidableEq, Repr

/-- An event in the channel, with the monitor task that sent it, if one did. -/
structure Message where
  event : ProcessEvent
  sender : Option Nat := none
deriving DecidableEq, Repr

/-- `monitorHandle` names a task: task `n` monitors child `n`. -/
structure ManagedProcess where
  config : ProgramConfig
  monitorHandle : Option Nat := none
  pid : Option Nat := none
  running : Bool := false
deriving DecidableEq, Repr

abbrev ProcessTable := Finmap fun _ : String => ManagedProcess

def configOf (processes : ProcessTable) (name : String) : Option ProgramConfig :=
  (processes.lookup name).map (·.config)

/-- `events` is what the receiver has not taken yet, oldest first. -/
structure ProcessManager where
  processes : ProcessTable := ∅
  events : List Message := []
  closed : Bool := false

/-! ## Children and their monitors -/

structure Command where
  program : String
  args : List String
  env : List (String × String)
deriving DecidableEq, Repr

/-- What `child.wait()` yields: the exit status, with no code for a child that a signal
    killed, or an error. -/
inductive WaitResult where
  | status (code : Option Int)
  | error (message : String)
deriving DecidableEq, Repr

/-- A monitor task is inside `child.wait().await`, or it has sent its event, or it was
    stopped before that. -/
inductive MonitorState where
  | waiting
  | sent
  | aborted
deriving DecidableEq, Repr

/-- A spawned process.  `exit` is set when it dies; `reaped` when the wait on it has come
    to a result, which the monitor task has not necessarily passed on yet. -/
structure Child where
  program : String
  command : Command
  pid : Nat
  logForward : Bool
  exit : Option (Option Int) := none
  reaped : Option WaitResult := none
  monitor : MonitorState := .waiting
  signalled : Bool := false
deriving DecidableEq, Repr

namespace Child

/-- The event that the monitor task sends for the result of its wait. -/
def report (c : Child) : WaitResult → ProcessEvent
  | .status code => .exited c.program (code.getD (-1))
  | .error message => .failed c.program message

/-- The kernel gives the pid to no other process before the child has been reaped. -/
def holdsPid (c : Child) : Bool :=
  match c.reaped with
  | some (.status _) => false
  | _ => true

/-- `kill(pid, SIGTERM)`. -/
def receive (pid : Nat) (c : Child) : Child :=
  if c.pid = pid ∧ c.holdsPid = true then { c with signalled := true } else c

/-- `handle.abort()`.  A monitor that has sent its event is past being stopped; one whose
    wait is over but that has not sent yet may be too far on (`late`). -/
def abort (late : Bool) (c : Child) : Child :=
  if c.monitor = .waiting ∧ ¬(late = true ∧ c.reaped.isSome = true) then { c with monitor := .aborted }
  else c

/-- What a stop does to child `task`: the signal if it has the stored pid, the abort if its
    monitor's handle is stored. -/
def halted (process : ManagedProcess) (late : Bool) (task : Nat) (c : Child) : Child :=
  let c := match process.pid with
    | some pid => c.receive pid
    | none => c
  if process.monitorHandle = some task then c.abort late else c

section

variable (pid : Nat) (late : Bool) (task : Nat) (process : ManagedProcess) (c : Child)

theorem receive_eq : c.receive pid =
    { c with signalled := c.signalled || decide (c.pid = pid ∧ c.holdsPid = true) } := by
  rw [receive]
  split
  · rename_i holds
    rw [decide_eq_true holds, Bool.or_true]
  · rename_i other
    rw [decide_eq_false other, Bool.or_false]

theorem abort_eq : c.abort late = { c with monitor :=
    if c.monitor = .waiting ∧ ¬(late = true ∧ c.reaped.isSome = true) then .aborted else c.monitor } := by
  rw [abort]
  split <;> rfl

@[simp] theorem receive_program : (c.receive pid).program = c.program := by rw [receive_eq]
@[simp] theorem receive_pid : (c.receive pid).pid = c.pid := by rw [receive_eq]
@[simp] theorem receive_exit : (c.receive pid).exit = c.exit := by rw [receive_eq]
@[simp] theorem receive_reaped : (c.receive pid).reaped = c.reaped := by rw [receive_eq]
@[simp] theorem receive_monitor : (c.receive pid).monitor = c.monitor := by rw [receive_eq]

theorem abort_monitor : (c.abort late).monitor =
    if c.monitor = .waiting ∧ ¬(late = true ∧ c.reaped.isSome = true) then .aborted else c.monitor := by
  rw [abort_eq]

/-- A stop signals the child, or not, and aborts its monitor, or not. -/
theorem halted_eq : c.halted process late task =
    let c := match process.pid with
      | some pid => c.receive pid
      | none => c
    { c with monitor := if process.monitorHandle = some task then (c.abort late).monitor else c.monitor } := by
  rw [halted]
  dsimp only
  split
  · rw [abort_eq]
  · rfl

@[simp] theorem halted_program : (c.halted process late task).program = c.program := by
  rw [halted_eq]
  cases process.pid <;> simp
@[simp] theorem halted_pid : (c.halted process late task).pid = c.pid := by
  rw [halted_eq]
  cases process.pid <;> simp
@[simp] theorem halted_exit : (c.halted process late task).exit = c.exit := by
  rw [halted_eq]
  cases process.pid <;> simp
@[simp] theorem halted_reaped : (c.halted process late task).reaped = c.reaped := by
  rw [halted_eq]
  cases process.pid <;> simp

theorem halted_monitor : (c.halted process late task).monitor =
    if process.monitorHandle = some task then (c.abort late).monitor else c.monitor := by
  rw [halted_eq]
  cases process.pid <;> simp [abort_monitor]

theorem halted_signalled : (c.halted process late task).signalled =
    match process.pid with
    | some pid => (c.receive pid).signalled
    | none => c.signalled := by
  rw [halted_eq]
  cases process.pid <;> rfl

end

end Child

/-! ## The daemon -/

/-- What the history records. -/
inductive Note where
  | posted (message : Message)
  | handled (message : Message)
  | spawned (name : String) (task : Nat)
  | spawnFailed (name : String)
  | signalled (name : String) (pid : Nat)
  | stopped (name : String)
deriving DecidableEq, Repr

/-- `timers` are the programs whose two-second restart sleep is running. -/
structure Daemon extends ProcessManager where
  children : List Child := []
  timers : List String := []
  history : List Note := []

namespace Daemon

def note (d : Daemon) (n : Note) : Daemon := { d with history := n :: d.history }

/-- `event_tx.send(..)`, whose result every caller drops. -/
def post (d : Daemon) (m : Message) : Daemon :=
  if d.closed then d else { d with events := d.events ++ [m], history := .posted m :: d.history }

def setProcess (d : Daemon) (name : String) (process : ManagedProcess) : Daemon :=
  { d with processes := d.processes.insert name process }

/-- `ProcessManager::new` and `load_from_config`. -/
def loadFromConfig (program : List (String × ProgramConfig)) : Daemon :=
  program.foldl (fun d entry => d.setProcess entry.1 { config := entry.2 }) {}

def isRunning (d : Daemon) (name : String) : Bool :=
  (d.processes.lookup name).any (·.running)

section

variable (d : Daemon) (n : Note) (m : Message) (name : String) (process : ManagedProcess)

@[simp] theorem note_processes : (d.note n).processes = d.processes := rfl
@[simp] theorem note_events : (d.note n).events = d.events := rfl
@[simp] theorem note_closed : (d.note n).closed = d.closed := rfl
@[simp] theorem note_children : (d.note n).children = d.children := rfl
@[simp] theorem note_timers : (d.note n).timers = d.timers := rfl
@[simp] theorem note_history : (d.note n).history = n :: d.history := rfl

theorem post_eq : d.post m = { d with
    events := if d.closed then d.events else d.events ++ [m]
    history := if d.closed then d.history else .posted m :: d.history } := by
  rw [post]
  split <;> rfl

@[simp] theorem post_processes : (d.post m).processes = d.processes := by rw [post_eq]
@[simp] theorem post_closed : (d.post m).closed = d.closed := by rw [post_eq]
@[simp] theorem post_children : (d.post m).children = d.children := by rw [post_eq]
@[simp] theorem post_timers : (d.post m).timers = d.timers := by rw [post_eq]

theorem post_events : (d.post m).events = if d.closed then d.events else d.events ++ [m] := by
  rw [post_eq]

theorem post_history :
    (d.post m).history = if d.closed then d.history else .posted m :: d.history := by
  rw [post_eq]

@[simp] theorem setProcess_processes :
    (d.setProcess name process).processes = d.processes.insert name process := rfl
@[simp] theorem setProcess_events : (d.setProcess name process).events = d.events := rfl
@[simp] theorem setProcess_closed : (d.setProcess name process).closed = d.closed := rfl
@[simp] theorem setProcess_children : (d.setProcess name process).children = d.children := rfl
@[simp] theorem setProcess_timers : (d.setProcess name process).timers = d.timers := rfl
@[simp] theorem setProcess_history : (d.setProcess name process).history = d.history := rfl

end

theorem lookup_insert_eq (processes : ProcessTable) (name : String) (process : ManagedProcess)
    (other : String) : (processes.insert name process).lookup other =
      if other = name then some process else processes.lookup other := by
  split
  · rename_i same
    subst same
    exact Finmap.lookup_insert _
  · rename_i different
    exact Finmap.lookup_insert_of_ne _ different

/-- Rewriting a program's record without touching its configuration changes no configuration. -/
theorem configOf_insert {processes : ProcessTable} {name : String} {old process : ManagedProcess}
    (hold : processes.lookup name = some old) (hconfig : process.config = old.config) :
    configOf (processes.insert name process) = configOf processes := by
  funext other
  by_cases same : other = name
  · subst same; simp [configOf, hold, hconfig]
  · simp [configOf, same]

theorem isRunning_iff {d : Daemon} {name : String} : d.isRunning name = true ↔
    ∃ process, d.processes.lookup name = some process ∧ process.running = true := by
  simp [isRunning, Option.any_eq_true]

theorem isRunning_insert_of_ne {d d' : Daemon} {name other : String} {process : ManagedProcess}
    (hprocesses : d'.processes = d.processes.insert other process) (different : name ≠ other) :
    d'.isRunning name = d.isRunning name := by
  rw [isRunning, hprocesses, lookup_insert_eq, if_neg different, isRunning]

end Daemon

theorem mem_iff_configOf {processes : ProcessTable} {name : String} :
    name ∈ processes ↔ ∃ config, configOf processes name = some config := by
  simp [configOf, Finmap.mem_iff]

def notFound (name : String) : String := s!"Program {name} not found"

/-! ## Starting one program -/

/-- The command that `start_process_single` hands to the operating system. -/
def buildCommand (split : String → Option (List String)) (name : String) (config : ProgramConfig) :
    Except String Command :=
  match split config.command with
  | none => .error s!"Failed to parse command for {name}"
  | some [] => .error s!"Empty command for {name}"
  | some (program :: args) => .ok { program, args, env := config.env.getD [] }

namespace Daemon

/-- A successful spawn: the child with its log readers and monitor, the `Started` event,
    and the manager's record of it. -/
def launch (d : Daemon) (name : String) (process : ManagedProcess) (command : Command) (pid : Nat) :
    Daemon :=
  let task := d.children.length
  let child : Child := { program := name, command, pid, logForward := process.config.logForward }
  (({ d with children := d.children ++ [child] }.note (.spawned name task)).post
    { event := .started name }).setProcess name
      { process with pid := some pid, monitorHandle := some task, running := true }

def startProcessSingle (split : String → Option (List String)) (d : Daemon) (name : String)
    (spawn : Option Nat) : Except String Unit × Daemon :=
  match d.processes.lookup name with
  | none => (.error (notFound name), d)
  | some process =>
    -- with a warning only: the caller cannot tell this from a start
    if process.running then (.ok (), d)
    else
      match buildCommand split name process.config with
      | .error e => (.error e, d.note (.spawnFailed name))
      | .ok command =>
        match spawn with
        | none => (.error s!"Failed to spawn process {name}", d.note (.spawnFailed name))
        | some pid => (.ok (), d.launch name process command pid)

/-- Whether a spawn attempt for `name` goes through: its command parses, is not empty, and
    the operating system answers with a pid. -/
def spawnSucceeds (split : String → Option (List String)) (processes : ProcessTable) (name : String)
    (spawn : Option Nat) : Bool :=
  match configOf processes name with
  | none => false
  | some config => (buildCommand split name config).isOk && spawn.isSome

/-- All that `start_process_single` can do. -/
inductive StartOutcome (split : String → Option (List String)) (d : Daemon) (name : String)
    (spawn : Option Nat) : Except String Unit × Daemon → Prop
  | unknown (absent : d.processes.lookup name = none) :
      StartOutcome split d name spawn (.error (notFound name), d)
  | alreadyRunning (process : ManagedProcess) (found : d.processes.lookup name = some process)
      (running : process.running = true) : StartOutcome split d name spawn (.ok (), d)
  | spawnFails (process : ManagedProcess) (error : String)
      (found : d.processes.lookup name = some process) (stopped : process.running = false)
      (fails : spawnSucceeds split d.processes name spawn = false) :
      StartOutcome split d name spawn (.error error, d.note (.spawnFailed name))
  | launches (process : ManagedProcess) (command : Command) (pid : Nat)
      (found : d.processes.lookup name = some process) (stopped : process.running = false)
      (built : buildCommand split name process.config = .ok command) (spawned : spawn = some pid) :
      StartOutcome split d name spawn (.ok (), d.launch name process command pid)

theorem startProcessSingle_outcome (split : String → Option (List String)) (d : Daemon)
    (name : String) (spawn : Option Nat) :
    StartOutcome split d name spawn (startProcessSingle split d name spawn) := by
  rw [startProcessSingle]
  split
  · rename_i absent
    exact .unknown absent
  · rename_i process found
    split
    · rename_i running
      exact .alreadyRunning process found running
    · rename_i stopped
      have stopped := Bool.eq_false_of_not_eq_true stopped
      split
      · rename_i error failed
        exact .spawnFails process error found stopped
          (by simp [spawnSucceeds, configOf, found, failed, Except.isOk, Except.toBool])
      · rename_i command built
        cases spawn with
        | none => exact .spawnFails process _ found stopped (by simp [spawnSucceeds, configOf, found])
        | some pid => exact .launches process command pid found stopped built rfl

/-! ## Stopping one program -/

/-- Send SIGTERM to whatever child has the pid now. -/
def kill (d : Daemon) (name : String) (pid : Nat) : Daemon :=
  { d with children := d.children.map (Child.receive pid) }.note (.signalled name pid)

def abort (d : Daemon) (task : Nat) (late : Bool) : Daemon :=
  { d with children := d.children.modify task (Child.abort late) }

/-- The stop of a program that is marked running: signal its pid, abort its monitor, clear
    its record.  Signal and abort are one instant: that a child dies of the signal and is
    reported in between is left out. -/
def halt (d : Daemon) (name : String) (process : ManagedProcess) (late : Bool) : Daemon :=
  let d := match process.pid with
    | some pid => d.kill name pid
    | none => d
  let d := match process.monitorHandle with
    | some task => d.abort task late
    | none => d
  (d.setProcess name { process with monitorHandle := none, running := false, pid := none }).note
    (.stopped name)

def stopProcess (d : Daemon) (name : String) (late : Bool) : Except String Unit × Daemon :=
  match d.processes.lookup name with
  | none => (.error (notFound name), d)
  | some process =>
    -- a program marked not running is left alone, with a warning
    if !process.running then (.ok (), d) else (.ok (), d.halt name process late)

section

variable (d : Daemon) (name : String) (process : ManagedProcess) (late : Bool)

@[simp] theorem halt_processes : (d.halt name process late).processes =
    d.processes.insert name { process with monitorHandle := none, running := false, pid := none } := by
  rw [halt]
  cases process.pid <;> cases process.monitorHandle <;> rfl

@[simp] theorem halt_events : (d.halt name process late).events = d.events := by
  rw [halt]
  cases process.pid <;> cases process.monitorHandle <;> rfl

@[simp] theorem halt_closed : (d.halt name process late).closed = d.closed := by
  rw [halt]
  cases process.pid <;> cases process.monitorHandle <;> rfl

@[simp] theorem halt_timers : (d.halt name process late).timers = d.timers := by
  rw [halt]
  cases process.pid <;> cases process.monitorHandle <;> rfl

theorem halt_history : (d.halt name process late).history =
    .stopped name :: (process.pid.toList.map (.signalled name) ++ d.history) := by
  rw [halt]
  cases process.pid <;> cases process.monitorHandle <;> rfl

theorem halt_children (task : Nat) : (d.halt name process late).children[task]? =
    d.children[task]?.map (Child.halted process late task) := by
  unfold halt Child.halted
  cases process.pid <;> cases process.monitorHandle <;>
    simp [kill, abort, List.getElem?_modify, Function.comp_def]

end

@[simp] theorem stopProcess_events (d : Daemon) (name : String) (late : Bool) :
    (d.stopProcess name late).2.events = d.events := by
  rw [stopProcess]
  split
  · rfl
  · split
    · rfl
    · exact halt_events ..

theorem stopProcess_stopped (d : Daemon) (name : String) (late : Bool) :
    (d.stopProcess name late).2.isRunning name = false := by
  rw [stopProcess]
  split
  · rename_i absent
    simp [isRunning, absent]
  · rename_i process found
    split
    · rename_i stopped
      simpa [isRunning, found] using stopped
    · simp [isRunning]

/-! ## The arms of `handle_single_event` -/

/-- `try_recv` took `message`; what is left in the channel is `rest`. -/
def receive (d : Daemon) (message : Message) (rest : List Message) : Daemon :=
  { d with events := rest }.note (.handled message)

def onExited (d : Daemon) (name : String) (code : Int) : Daemon :=
  match d.processes.lookup name with
  | none => d
  | some process =>
    -- the pid and the handle of the monitor stay in the record
    let d := d.setProcess name { process with running := false }
    if process.config.shouldRestart code then { d with timers := name :: d.timers } else d

def onFailed (d : Daemon) (name : String) : Daemon :=
  match d.processes.lookup name with
  | none => d
  | some process => d.setProcess name { process with running := false }

/-- The arms that start nothing. -/
def onReport (d : Daemon) : ProcessEvent → Daemon
  | .exited name code => d.onExited name code
  | .failed name _ => d.onFailed name
  | .started _ | .restartRequested _ => d

/-! ## What the manager's calls leave running -/

/-- The restart sleep of `name` ends. -/
def fire (d : Daemon) (name : String) : Daemon :=
  { d with timers := d.timers.erase name }.post { event := .restartRequested name }

/-- The monitor of child `task` sends its event. -/
def sendReport (d : Daemon) (task : Nat) (c : Child) (result : WaitResult) : Daemon :=
  { d with children := d.children.set task { c with monitor := .sent } }.post
    { event := c.report result, sender := some task }

end Daemon

end Ciron
