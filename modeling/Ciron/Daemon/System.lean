import Ciron.Transition.Run
import Ciron.Daemon.Moves

/-! # The daemon as a transition system

`System` adds to the daemon who may make which move: the write lock of the manager and who
holds it, the event loop task, and `main`, from serving requests to its shutdown tail.

* Requests (`start_process`, `stop_process`, `restart_process`), calls of
  `handle_single_event` and the shutdown tail exclude each other by the lock.
  `start_process` gives up no part of the lock, but children exit, monitors send and timers
  fire between the spawns of one call, so each turn of its loop is a step of its own; so
  are the two halves of `restart_process`, a second apart.
* `start_all_autostart` makes its calls of `start_process` before the servers take any; each
  is the step that the call of a client is.
* `handle_single_event` is called in the drain of the event loop, and, as the public method
  it is, on its own by whoever takes the lock.
* A label carries every choice of the environment: the pid or error a spawn gets, exit
  codes, and whether an `abort()` comes too late for a monitor whose wait is over.
-/

namespace Ciron

open Transition

variable (split : String → Option (List String))

/-! ## Who holds the lock -/

/-- On whose behalf `start_process` runs; a call of the boot counts as a request. -/
inductive Caller where
  | request
  | eventLoop
deriving DecidableEq

/-- The write lock.  `starting` is a `start_process` with the units still to come,
    `restarting` the sleep inside `restart_process`, `draining` the event loop between two
    events, `closing` and `stopping` the shutdown tail before and inside `stop_all`. -/
inductive Lock where
  | free
  | starting (caller : Caller) (root : String) (rest : List String)
  | restarting (name : String)
  | draining
  | closing
  | stopping (rest : List String)
deriving DecidableEq

/-- What is left of a `start_process` call; with no unit left the call returns. -/
def Lock.resume (caller : Caller) (root : String) : List String → Lock
  | [] =>
    match caller with
    | .request => .free
    | .eventLoop => .draining
  | unit :: rest => .starting caller root (unit :: rest)

/-- The event loop task: in its sleep, past it, in the queue for the lock, holding the lock,
    or cancelled. -/
inductive LoopPhase where
  | sleeping
  | woken
  | queued
  | holding
  | ended
deriving DecidableEq

/-- `main`: serving requests; waiting for the lock once all servers have stopped; holding
    it; done with `stop_all`; done with `event_loop.abort()`. -/
inductive MainPhase where
  | serving
  | waiting
  | holding
  | released
  | aborted
deriving DecidableEq

structure System extends Daemon where
  lock : Lock := .free
  loop : LoopPhase := .sleeping
  main : MainPhase := .serving

inductive Action where
  | startProcess (name : String)
  | stopProcess (name : String) (late : Bool)
  | restartProcess (name : String) (late : Bool)
  | restartWakes
  | startUnit (spawn : Option Nat)
  | handleSingleEvent
  | loopWakes
  | loopQueues
  | loopAcquires
  | loopReleases
  | loopCancelled
  | serversStop
  | mainAcquires
  | shutdown (names : List String)
  | stopNext (late : Bool)
  | mainReleases
  | mainAborts
  | childExits (task : Nat) (code : Option Int)
  | childReaped (task : Nat) (error : Option String)
  | monitorSends (task : Nat)
  | timerFires (name : String)
deriving DecidableEq

/-- The control part of a step: the move it makes and the phases it leads to. -/
structure Control where
  move : Move
  lock : Lock
  loop : LoopPhase
  main : MainPhase

namespace System

def serving (s : System) : Bool := s.lock = .free ∧ s.main = .serving

/-- Nothing but the given move happens. -/
def only (s : System) (move : Move) : Control :=
  { move, lock := s.lock, loop := s.loop, main := s.main }

/-- Begin `start_process`: resolve the order, or return the error at once. -/
def beginStart (s : System) (move : Move) (caller : Caller) (name : String) : Option Control :=
  match resolveStartOrder s.processes name with
  | none => none
  | some (.error _) => some { s.only move with lock := .resume caller name [] }
  | some (.ok order) => some { s.only move with lock := .resume caller name order }

/-- `handle_single_event` on behalf of a caller: the arms that start nothing are over with
    the move, the `RestartRequested` arm goes on as a `start_process`. -/
def beginHandle (s : System) (caller : Caller) : Option Control :=
  match s.events with
  | { event := .restartRequested name, .. } :: _ => s.beginStart .handle caller name
  | _ => some (s.only .handle)

/-- Which control an action has in a state, `none` where the action is not possible. -/
def control (s : System) : Action → Option Control
  | .startProcess name => if s.serving then s.beginStart .idle .request name else none
  | .stopProcess name late => if s.serving then some (s.only (.stop name late)) else none
  | .restartProcess name late =>
    if s.serving then
      -- an unknown program is an error before the sleep
      match (s.toDaemon.stopProcess name late).1 with
      | .error _ => some (s.only (.stop name late))
      | .ok _ => some { s.only (.stop name late) with lock := .restarting name }
    else none
  | .restartWakes =>
    match s.lock with
    | .restarting name => s.beginStart .idle .request name
    | _ => none
  | .startUnit spawn =>
    match s.lock with
    | .starting caller root (unit :: rest) =>
      some { s.only (.start unit spawn) with lock := .resume caller root rest }
    | _ => none
  | .handleSingleEvent =>
    if s.serving then s.beginHandle .request
    else if s.lock = .draining then s.beginHandle .eventLoop
    else none
  | .loopWakes =>
    -- the sleep has to wait, so an abort ends it
    if s.loop = .sleeping ∧ s.main ≠ .aborted then some { s.only .idle with loop := .woken } else none
  | .loopQueues =>
    if s.loop = .woken ∧ s.lock ≠ .free then some { s.only .idle with loop := .queued } else none
  | .loopAcquires =>
    -- an abort does not reach a task that is past its sleep and finds the lock free
    if s.lock = .free ∧ (s.loop = .woken ∨ s.loop = .queued ∧ s.main ≠ .aborted) then
      some { s.only .idle with lock := .draining, loop := .holding }
    else none
  | .loopReleases =>
    -- `while handle_single_event()` ends on the empty queue, closed or not
    if s.lock = .draining ∧ s.events = [] then
      some { s.only .idle with lock := .free, loop := .sleeping }
    else none
  | .loopCancelled =>
    if s.main = .aborted ∧ (s.loop = .sleeping ∨ s.loop = .queued) then
      some { s.only .idle with loop := .ended }
    else none
  | .serversStop =>
    -- no request is under way any more; the event loop may be inside its drain
    if s.main = .serving ∧ (s.lock = .free ∨ s.loop = .holding) then
      some { s.only .idle with main := .waiting }
    else none
  | .mainAcquires =>
    if s.main = .waiting ∧ s.lock = .free then
      some { s.only .idle with lock := .closing, main := .holding }
    else none
  | .shutdown names =>
    -- `stop_all` takes the names of the table, in the order of its iterator
    if s.lock = .closing ∧ names.Nodup ∧ names.toFinset = s.processes.keys then
      some { s.only .close with lock := .stopping names }
    else none
  | .stopNext late =>
    match s.lock with
    | .stopping (name :: rest) => some { s.only (.stop name late) with lock := .stopping rest }
    | _ => none
  | .mainReleases =>
    if s.lock = .stopping [] then some { s.only .idle with lock := .free, main := .released } else none
  | .mainAborts =>
    if s.main = .released then some { s.only .idle with main := .aborted } else none
  | .childExits task code => some (s.only (.exit task code))
  | .childReaped task error => some (s.only (.reap task error))
  | .monitorSends task => some (s.only (.send task))
  | .timerFires name => some (s.only (.fire name))

def step (s : System) (a : Action) : Option System := do
  let c ← s.control a
  let d ← s.toDaemon.apply split c.move
  return { toDaemon := d, lock := c.lock, loop := c.loop, main := c.main }

/-- The state `main` starts in, with the configured programs and nothing running; the calls of
    `start_all_autostart` follow as steps. -/
def boot (program : List (String × ProgramConfig)) : System :=
  { toDaemon := Daemon.loadFromConfig program }

/-- A state that some run leads to from the start of the daemon. -/
def Reached (s : System) : Prop := ∃ program, Reachable (step split) (boot program) s

variable {split}

theorem step_inv {s t : System} {a : Action} (h : s.step split a = some t) :
    ∃ c, s.control a = some c ∧ s.toDaemon.apply split c.move = some t.toDaemon ∧
      t.lock = c.lock ∧ t.loop = c.loop ∧ t.main = c.main := by
  simp only [step, Option.bind_eq_bind, Option.bind_eq_some_iff, Option.pure_def,
    Option.some.injEq] at h
  obtain ⟨c, hcontrol, d, hmove, rfl⟩ := h
  exact ⟨c, hcontrol, hmove, rfl, rfl, rfl⟩

theorem step_of {s : System} {a : Action} {c : Control} {d : Daemon} (hcontrol : s.control a = some c)
    (happly : s.toDaemon.apply split c.move = some d) :
    s.step split a = some { toDaemon := d, lock := c.lock, loop := c.loop, main := c.main } := by
  rw [step, hcontrol]
  simp [happly]

/-- Every step makes one move of the daemon. -/
theorem step_move {s t : System} {a : Action} (h : s.step split a = some t) :
    ∃ move, s.toDaemon.apply split move = some t.toDaemon := by
  obtain ⟨c, _, hmove, _⟩ := step_inv h
  exact ⟨c.move, hmove⟩

theorem Reached.start (program : List (String × ProgramConfig)) : Reached split (boot program) :=
  ⟨program, [], .refl⟩

theorem Reached.tail {s t : System} {a : Action} (h : Reached split s)
    (hstep : s.step split a = some t) : Reached split t := by
  obtain ⟨program, hreach⟩ := h
  exact ⟨program, hreach.tail hstep⟩

/-- The state that a list of actions leads to from the start of the daemon. -/
def ran (split : String → Option (List String)) (program : List (String × ProgramConfig))
    (actions : List Action) : Option System :=
  runs (step split) (boot program) actions

theorem Reached.ran {program : List (String × ProgramConfig)} {actions : List Action}
    (h : (ran split program actions).isSome = true) :
    Reached split ((System.ran split program actions).get h) :=
  ⟨program, reachable_of_runs (Option.some_get h).symm⟩

theorem exec_ran {program : List (String × ProgramConfig)} {actions : List Action}
    (h : (ran split program actions).isSome = true) : ∃ trace,
      Exec (step split) (boot program) trace ((ran split program actions).get h) ∧
      trace.map Prod.snd = actions.reverse :=
  exec_of_runs (Option.some_get h).symm

/-- What every step between states reached preserves holds in every state reached. -/
theorem Reached.invariant (Inv : System → Prop) (hboot : ∀ program, Inv (boot program))
    (hstep : ∀ s a t, Reached split s → Inv s → s.step split a = some t → Inv t)
    {s : System} (h : Reached split s) : Inv s := by
  obtain ⟨program, hreach⟩ := h
  have preserved : ∀ (s : System) (a : Action) (t : System), Reached split s ∧ Inv s →
      s.step split a = some t → Reached split t ∧ Inv t :=
    fun s a t hs ht => ⟨hs.1.tail ht, hstep s a t hs.1 hs.2 ht⟩
  exact (hreach.invariant preserved ⟨.start program, hboot program⟩).2

/-- What every move of the daemon preserves holds in every state reached. -/
theorem Reached.daemon_invariant {Inv : Daemon → Prop}
    (hboot : ∀ program, Inv (Daemon.loadFromConfig program))
    (hmove : ∀ d move d', Inv d → d.apply split move = some d' → Inv d')
    {s : System} (h : Reached split s) : Inv s.toDaemon := by
  refine h.invariant (fun s => Inv s.toDaemon) hboot fun s a t _ hs hstep => ?_
  obtain ⟨move, happly⟩ := step_move hstep
  exact hmove _ move _ hs happly

end System

/-- `shell_words::split` on commands that are one plain word. -/
def oneWord (command : String) : Option (List String) := some [command]

end Ciron
