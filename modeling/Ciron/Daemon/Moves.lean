import Ciron.Data.History
import Ciron.Process.Start

/-! # The moves of the daemon

`Daemon.apply` lists what can happen to the manager and to what its calls left running, one
`Move` at a time: an attempt to start a program, a stop, one event handled, the channel
closed, and the moves of the children, their monitors and the restart sleeps.  By
`startUnit_daemon` each turn of the loop of `start_process` is a `start`.

`Moved` says the same as a relation with one case for each effect, guards included; every
invariant is proved by cases on it.
-/

namespace Ciron

open Data

variable (split : String → Option (List String))

inductive Move where
  | idle
  | start (name : String) (spawn : Option Nat)
  | stop (name : String) (late : Bool)
  | handle
  | close
  | exit (task : Nat) (code : Option Int)
  | reap (task : Nat) (error : Option String)
  | send (task : Nat)
  | fire (name : String)
deriving DecidableEq

namespace Daemon

/-- The kernel hands out no pid that a child still holds. -/
def pidFree (d : Daemon) (pid : Nat) : Bool :=
  d.children.all fun c => !(c.holdsPid && c.pid == pid)

/-- One move, where it is possible. -/
def apply (d : Daemon) : Move → Option Daemon
  | .idle => some d
  | .start name spawn =>
    if spawn.all d.pidFree then some (startProcessSingle split d name spawn).2 else none
  | .stop name late => some (d.stopProcess name late).2
  | .handle =>
    match d.events with
    | [] => none
    | message :: rest => some ((d.receive message rest).onReport message.event)
  | .close => some { d with closed := true }
  | .exit task code =>
    match d.children[task]? with
    | none => none
    | some c =>
      if c.exit.isSome then none
      else some { d with children := d.children.set task { c with exit := some code } }
  | .reap task error =>
    match d.children[task]? with
    | none => none
    | some c =>
      if c.reaped.isSome then none
      -- a wait comes to a status only after the exit, but may fail at any time
      else match error, c.exit with
        | some message, _ =>
          some { d with children := d.children.set task { c with reaped := some (.error message) } }
        | none, some code =>
          some { d with children := d.children.set task { c with reaped := some (.status code) } }
        | none, none => none
  | .send task =>
    match d.children[task]? with
    | none => none
    | some c =>
      -- an aborted monitor sends nothing, and none sends twice
      match c.monitor, c.reaped with
      | .waiting, some result => some (d.sendReport task c result)
      | _, _ => none
  | .fire name => if name ∈ d.timers then some (d.fire name) else none

section

variable {d : Daemon} {task : Nat} {c : Child}

/-- The wait on a dead child can come to its status. -/
theorem apply_reap {code : Option Int} (child : d.children[task]? = some c) (unreaped : c.reaped = none)
    (exit : c.exit = some code) : d.apply split (.reap task none) =
      some { d with children := d.children.set task { c with reaped := some (.status code) } } := by
  simp [apply, child, unreaped, exit]

theorem apply_send {result : WaitResult} (child : d.children[task]? = some c)
    (waiting : c.monitor = .waiting) (reaped : c.reaped = some result) :
    d.apply split (.send task) = some (d.sendReport task c result) := by
  simp only [apply, child, waiting, reaped]

end

/-! ## When a move was possible -/

section

variable {split} {d d' : Daemon}

/-- An event is handled only if there is one. -/
theorem apply_handle_inv (h : d.apply split .handle = some d') : ∃ m rest, d.events = m :: rest := by
  cases queued : d.events with
  | nil => simp only [apply, queued, reduceCtorEq] at h
  | cons m rest => exact ⟨m, rest, rfl⟩

theorem apply_exit_inv {task : Nat} {code : Option Int} (h : d.apply split (.exit task code) = some d') :
    ∃ c, d.children[task]? = some c ∧ c.exit = none ∧
      d' = { d with children := d.children.set task { c with exit := some code } } := by
  simp only [apply] at h
  split at h
  · cases h
  · rename_i c child
    split at h
    · cases h
    · rename_i alive
      cases h
      exact ⟨c, child, by simpa using alive, rfl⟩

/-- What a wait comes to is a status only after the exit. -/
theorem apply_reap_inv {task : Nat} {error : Option String} (h : d.apply split (.reap task error) = some d') :
    ∃ c result, d.children[task]? = some c ∧ c.reaped = none ∧
      (∀ code, result = .status code → c.exit = some code) ∧
      d' = { d with children := d.children.set task { c with reaped := some result } } := by
  simp only [apply] at h
  split at h
  · cases h
  · rename_i c child
    split at h
    · cases h
    · rename_i unreaped
      have unreaped : c.reaped = none := by simpa using unreaped
      split at h
      · cases h
        exact ⟨c, .error _, child, unreaped, (fun _ same => by cases same), rfl⟩
      · rename_i code dead
        cases h
        exact ⟨c, _, child, unreaped, fun _ same => by cases same; exact dead, rfl⟩
      · cases h

theorem apply_send_inv {task : Nat} (h : d.apply split (.send task) = some d') :
    ∃ c result, d.children[task]? = some c ∧ c.monitor = .waiting ∧ c.reaped = some result ∧
      d' = d.sendReport task c result := by
  simp only [apply] at h
  split at h
  · cases h
  · rename_i c child
    split at h
    · rename_i result waiting reaped
      cases h
      exact ⟨c, result, child, waiting, reaped, rfl⟩
    · cases h

end

/-! ## One case for each effect -/

/-- `d` becomes the second daemon by the move. -/
inductive Moved (d : Daemon) : Move → Daemon → Prop
  | unchanged {move : Move} (other : move ≠ .handle) : Moved d move d
  | spawnFails {name : String} {spawn : Option Nat} {process : ManagedProcess}
      (found : d.processes.lookup name = some process) (stopped : process.running = false) :
      Moved d (.start name spawn) (d.note (.spawnFailed name))
  | launches {name : String} {pid : Nat} {process : ManagedProcess} {command : Command}
      (found : d.processes.lookup name = some process) (stopped : process.running = false)
      (built : buildCommand split name process.config = .ok command) (free : d.pidFree pid = true) :
      Moved d (.start name (some pid)) (d.launch name process command pid)
  | halts {name : String} {late : Bool} {process : ManagedProcess}
      (found : d.processes.lookup name = some process) (running : process.running = true) :
      Moved d (.stop name late) (d.halt name process late)
  | handles {message : Message} {rest : List Message} (queued : d.events = message :: rest) :
      Moved d .handle ((d.receive message rest).onReport message.event)
  | closes : Moved d .close { d with closed := true }
  | exits {task : Nat} {c : Child} {code : Option Int} (child : d.children[task]? = some c)
      (alive : c.exit = none) :
      Moved d (.exit task code) { d with children := d.children.set task { c with exit := some code } }
  | reaps {task : Nat} {c : Child} {error : Option String} {result : WaitResult}
      (child : d.children[task]? = some c) (unreaped : c.reaped = none)
      (dead : ∀ code, result = .status code → c.exit = some code) :
      Moved d (.reap task error)
        { d with children := d.children.set task { c with reaped := some result } }
  | sends {task : Nat} {c : Child} {result : WaitResult} (child : d.children[task]? = some c)
      (waiting : c.monitor = .waiting) (reaped : c.reaped = some result) :
      Moved d (.send task) (d.sendReport task c result)
  | fires {name : String} (sleeping : name ∈ d.timers) : Moved d (.fire name) (d.fire name)

variable {split}

theorem apply_moved {d d' : Daemon} {move : Move} (h : d.apply split move = some d') :
    Moved split d move d' := by
  cases move with
  | idle => cases h; exact .unchanged (by simp)
  | start name spawn =>
    obtain ⟨free, same⟩ := Option.ite_none_right_eq_some.mp h
    have outcome := startProcessSingle_outcome split d name spawn
    generalize startProcessSingle split d name spawn = ran at outcome same
    cases same
    cases outcome with
    | unknown | alreadyRunning => exact .unchanged (by simp)
    | spawnFails process error found stopped => exact .spawnFails found stopped
    | launches process command pid found stopped built spawned =>
      subst spawned
      exact .launches found stopped built (by simpa using free)
  | stop name late =>
    simp only [apply, stopProcess, Option.some.injEq] at h
    subst h
    split
    · exact .unchanged (by simp)
    · rename_i process found
      cases running : process.running with
      | false => exact .unchanged (by simp)
      | true => exact .halts found running
  | handle =>
    simp only [apply] at h
    split at h
    · cases h
    · rename_i message rest queued
      cases h
      exact .handles queued
  | close => cases h; exact .closes
  | exit task code =>
    simp only [apply] at h
    split at h
    · cases h
    · rename_i c child
      split at h
      · cases h
      · rename_i alive
        cases h
        exact .exits child (by simpa using alive)
  | reap task error =>
    simp only [apply] at h
    split at h
    · cases h
    · rename_i c child
      split at h
      · cases h
      · rename_i unreaped
        have unreaped : c.reaped = none := by simpa using unreaped
        split at h
        · cases h
          exact .reaps child unreaped (by simp)
        · rename_i code dead
          cases h
          exact .reaps child unreaped (by simp [dead])
        · cases h
  | send task =>
    simp only [apply] at h
    split at h
    · cases h
    · rename_i c child
      split at h
      · rename_i result waiting reaped
        cases h
        exact .sends child waiting reaped
      · cases h
  | fire name =>
    obtain ⟨sleeping, same⟩ := Option.ite_none_right_eq_some.mp h
    cases same
    exact .fires sleeping

theorem Moved.onHead {d d' : Daemon} {m : Message} {rest : List Message} (h : Moved split d .handle d')
    (queued : d.events = m :: rest) : d' = (d.receive m rest).onReport m.event := by
  cases h with
  | unchanged other => exact absurd rfl other
  | handles queued' =>
    rw [queued, List.cons.injEq] at queued'
    rw [queued'.1, queued'.2]

/-! ## What the moves do, field by field -/

section

variable {d : Daemon} {name : String} {process : ManagedProcess} {command : Command} {pid : Nat}
  {message : Message} {rest : List Message} {task : Nat} {c : Child} {result : WaitResult}

@[simp] theorem launch_children : (d.launch name process command pid).children = d.children ++
    [{ program := name, command, pid, logForward := process.config.logForward }] := by
  simp [launch]

@[simp] theorem launch_timers : (d.launch name process command pid).timers = d.timers := by
  simp [launch]

@[simp] theorem launch_closed : (d.launch name process command pid).closed = d.closed := by
  simp [launch]

theorem launch_events : (d.launch name process command pid).events =
    if d.closed then d.events else d.events ++ [{ event := .started name }] := by
  simp only [launch, setProcess_events, post_events]
  rfl

theorem launch_history : (d.launch name process command pid).history =
    if d.closed then .spawned name d.children.length :: d.history
    else .posted { event := .started name } :: .spawned name d.children.length :: d.history := by
  simp only [launch, setProcess_history, post_history]
  rfl

theorem onExited_timers (code : Int) : (d.onExited name code).timers =
    if (configOf d.processes name).any (·.shouldRestart code) then name :: d.timers else d.timers := by
  unfold onExited configOf
  cases d.processes.lookup name with
  | none => rfl
  | some process =>
    simp only [Option.map_some, Option.any_some]
    split <;> rfl

@[simp] theorem onFailed_timers : (d.onFailed name).timers = d.timers := by
  unfold onFailed
  split <;> rfl

@[simp] theorem onReport_children (event : ProcessEvent) : (d.onReport event).children = d.children := by
  cases event <;> simp only [onReport, onExited, onFailed] <;> split <;> try split
  all_goals rfl

@[simp] theorem onReport_events (event : ProcessEvent) : (d.onReport event).events = d.events := by
  cases event <;> simp only [onReport, onExited, onFailed] <;> split <;> try split
  all_goals rfl

@[simp] theorem onReport_closed (event : ProcessEvent) : (d.onReport event).closed = d.closed := by
  cases event <;> simp only [onReport, onExited, onFailed] <;> split <;> try split
  all_goals rfl

@[simp] theorem onReport_history (event : ProcessEvent) : (d.onReport event).history = d.history := by
  cases event <;> simp only [onReport, onExited, onFailed] <;> split <;> try split
  all_goals rfl

end

end Daemon

end Ciron
