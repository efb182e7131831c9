import Ciron.Daemon.Invariant

/-! # Which step makes which move

`moveOf` names the move of an action, and the rest of the module follows the programs that a
running `start_process` has not reached yet: they enter the lock when the call begins, all
of them in the closure of its root, and leave it by the attempt to spawn them. -/

namespace Ciron

/-- The units that the call holding the lock has still to start. -/
def Lock.pending : Lock → List String
  | .starting _ _ rest => rest
  | _ => []

@[simp] theorem Lock.resume_pending (caller : Caller) (root : String) (rest : List String) :
    (Lock.resume caller root rest).pending = rest := by
  cases rest <;> cases caller <;> rfl

/-- A call of `start_process` leaves the lock neither to a `restart_process` nor to `main`. -/
theorem Lock.resume_quiet (caller : Caller) (root : String) (rest : List String) :
    (∀ name, Lock.resume caller root rest ≠ .restarting name) ∧ Lock.resume caller root rest ≠ .closing ∧
      ∀ names, Lock.resume caller root rest ≠ .stopping names := by
  cases rest <;> cases caller <;> exact ⟨nofun, nofun, nofun⟩

namespace System

variable {split : String → Option (List String)} {s t : System} {a : Action} {c : Control}

/-- The move that an action makes where it is possible. -/
def moveOf (s : System) : Action → Move
  | .stopProcess name late | .restartProcess name late => .stop name late
  | .startUnit spawn =>
    match s.lock with
    | .starting _ _ (unit :: _) => .start unit spawn
    | _ => .idle
  | .handleSingleEvent => .handle
  | .shutdown _ => .close
  | .stopNext late =>
    match s.lock with
    | .stopping (name :: _) => .stop name late
    | _ => .idle
  | .childExits task code => .exit task code
  | .childReaped task error => .reap task error
  | .monitorSends task => .send task
  | .timerFires name => .fire name
  | .startProcess _ | .restartWakes | .loopWakes | .loopQueues | .loopAcquires | .loopReleases
  | .loopCancelled | .serversStop | .mainAcquires | .mainReleases | .mainAborts => .idle

/-- A call of `start_process` begins with the closure of its root still to start, and is over
    at once if the root is unknown. -/
theorem beginStart_inv {move : Move} {caller : Caller} {root : String}
    (h : s.beginStart move caller root = some c) :
    c.move = move ∧ c.loop = s.loop ∧ c.main = s.main ∧ ∃ rest, c.lock = .resume caller root rest ∧
      ∀ u, u ∈ rest ↔ root ∈ s.processes ∧ InClosure s.processes root u := by
  unfold beginStart at h
  by_cases known : root ∈ s.processes
  · obtain ⟨order, hresolve, _, hmem⟩ := resolveStartOrder_known known
    rw [hresolve] at h
    cases h
    exact ⟨rfl, rfl, rfl, order, rfl, fun u => by rw [hmem u]; simp [known]⟩
  · rw [resolveStartOrder_unknown known] at h
    cases h
    exact ⟨rfl, rfl, rfl, [], rfl, fun u => by simp [known]⟩

/-- What `handle_single_event` begins with. -/
theorem beginHandle_inv {caller : Caller} (h : s.beginHandle caller = some c) :
    c.move = .handle ∧ c.loop = s.loop ∧ c.main = s.main ∧
      ((∃ root sender rest, s.events = { event := .restartRequested root, sender } :: rest ∧
        s.beginStart .handle caller root = some c) ∨
      c = s.only .handle ∧ ∀ root sender rest,
        s.events ≠ { event := .restartRequested root, sender } :: rest) := by
  unfold beginHandle at h
  split at h
  · rename_i root sender rest queued
    obtain ⟨hmove, hloop, hmain, _⟩ := beginStart_inv h
    exact ⟨hmove, hloop, hmain, .inl ⟨root, sender, rest, queued, h⟩⟩
  · rename_i other
    cases h
    exact ⟨rfl, rfl, rfl, .inr ⟨rfl, fun root sender rest queued => other root sender rest queued⟩⟩

theorem control_restartWakes (h : s.control .restartWakes = some c) :
    ∃ name, s.lock = .restarting name ∧ s.beginStart .idle .request name = some c := by
  simp only [control] at h
  split at h
  · rename_i name held
    exact ⟨name, held, h⟩
  · cases h

theorem control_startUnit {spawn : Option Nat} (h : s.control (.startUnit spawn) = some c) :
    ∃ caller root unit rest, s.lock = .starting caller root (unit :: rest) ∧
      c = { s.only (.start unit spawn) with lock := .resume caller root rest } := by
  simp only [control] at h
  split at h
  · rename_i caller root unit rest held
    exact ⟨caller, root, unit, rest, held, (Option.some.inj h).symm⟩
  · cases h

theorem control_stopNext {late : Bool} (h : s.control (.stopNext late) = some c) :
    ∃ name rest, s.lock = .stopping (name :: rest) ∧
      c = { s.only (.stop name late) with lock := .stopping rest } := by
  simp only [control] at h
  split at h
  · rename_i name rest held
    exact ⟨name, rest, held, (Option.some.inj h).symm⟩
  · cases h

/-- The caller of `handle_single_event` has the lock to itself or is the event loop. -/
theorem control_handleSingleEvent (h : s.control .handleSingleEvent = some c) :
    s.serving = true ∧ s.beginHandle .request = some c ∨
      s.lock = .draining ∧ s.beginHandle .eventLoop = some c := by
  simp only [control] at h
  split at h
  · rename_i serves
    exact .inl ⟨serves, h⟩
  · exact .inr (Option.ite_none_right_eq_some.mp h)

theorem control_move (h : s.control a = some c) : c.move = s.moveOf a := by
  cases a with
  | startProcess name =>
    obtain ⟨_, hbegin⟩ := Option.ite_none_right_eq_some.mp h
    exact (beginStart_inv hbegin).1
  | restartWakes =>
    obtain ⟨_, _, hbegin⟩ := control_restartWakes h
    exact (beginStart_inv hbegin).1
  | handleSingleEvent =>
    cases control_handleSingleEvent h with
    | inl request => exact (beginHandle_inv request.2).1
    | inr drains => exact (beginHandle_inv drains.2).1
  | stopProcess | loopWakes | loopQueues | loopAcquires | loopReleases | loopCancelled | serversStop
  | mainAcquires | shutdown | mainReleases | mainAborts =>
    obtain ⟨_, same⟩ := Option.ite_none_right_eq_some.mp h
    cases same
    rfl
  | restartProcess name late =>
    obtain ⟨_, h⟩ := Option.ite_none_right_eq_some.mp h
    split at h <;> cases h <;> rfl
  | startUnit spawn =>
    obtain ⟨_, _, _, _, held, rfl⟩ := control_startUnit h
    simp [moveOf, held, only]
  | stopNext late =>
    obtain ⟨_, _, held, rfl⟩ := control_stopNext h
    simp [moveOf, held, only]
  | childExits | childReaped | monitorSends | timerFires => cases h; rfl

theorem step_moved (h : s.step split a = some t) :
    Daemon.Moved split s.toDaemon (s.moveOf a) t.toDaemon := by
  obtain ⟨c, hcontrol, hmove, _⟩ := step_inv h
  rw [control_move hcontrol] at hmove
  exact Daemon.apply_moved hmove

/-- The call of `start_process` that an action begins. -/
def Calls (s : System) (a : Action) (root : String) : Prop :=
  match a with
  | .startProcess name => name = root
  | .restartWakes => s.lock = .restarting root
  | .handleSingleEvent =>
    ∃ sender rest, s.events = { event := .restartRequested root, sender } :: rest
  | _ => False

theorem Calls.unique {root root' : String} (h : s.Calls a root) (h' : s.Calls a root') : root = root' := by
  cases a with
  | startProcess other => exact h.symm.trans h'
  | restartWakes =>
    have same : Lock.restarting root = Lock.restarting root' := Eq.trans (Eq.symm h) h'
    cases same
    rfl
  | handleSingleEvent =>
    obtain ⟨_, _, queued⟩ := h
    obtain ⟨_, _, queued'⟩ := h'
    rw [queued] at queued'
    cases queued'
    rfl
  | _ => cases h

/-- What a step does to the lock and to `main`, one case for each kind of step. -/
inductive Stepped (s t : System) (a : Action) : Prop
  | calls (caller : Caller) (root : String) (rest : List String) (called : s.Calls a root)
      (holder : s.lock = .free ∧ s.main = .serving ∨ s.lock = .restarting root ∨
        s.lock = .draining ∧ a = .handleSingleEvent)
      (lock : t.lock = .resume caller root rest) (main : t.main = s.main)
      (closure : ∀ u, u ∈ rest ↔ root ∈ s.processes ∧ InClosure s.processes root u)
  | attempts (caller : Caller) (root unit : String) (rest : List String) (spawn : Option Nat)
      (action : a = .startUnit spawn) (held : s.lock = .starting caller root (unit :: rest))
      (lock : t.lock = .resume caller root rest) (main : t.main = s.main)
  | restarts (name : String) (late : Bool) (action : a = .restartProcess name late)
      (free : s.lock = .free) (serving : s.main = .serving) (lock : t.lock = .restarting name)
      (main : t.main = s.main)
  | stays (lock : t.lock = s.lock) (main : t.main = s.main) (calm : ∀ root, ¬ s.Calls a root)
      (other : ∀ spawn, a ≠ .startUnit spawn) (opened : ∀ names, a ≠ .shutdown names)
  | loopAcquires (action : a = .loopAcquires) (free : s.lock = .free) (lock : t.lock = .draining)
      (main : t.main = s.main)
  | loopReleases (action : a = .loopReleases) (held : s.lock = .draining) (lock : t.lock = .free)
      (main : t.main = s.main)
  | serversStop (action : a = .serversStop) (serving : s.main = .serving) (lock : t.lock = s.lock)
      (main : t.main = .waiting)
  | mainAcquires (action : a = .mainAcquires) (free : s.lock = .free) (lock : t.lock = .closing)
      (main : t.main = .holding)
  | shutdown (names : List String) (action : a = .shutdown names) (held : s.lock = .closing)
      (lock : t.lock = .stopping names) (main : t.main = s.main)
  | stopNext (name : String) (rest : List String) (late : Bool) (action : a = .stopNext late)
      (held : s.lock = .stopping (name :: rest)) (lock : t.lock = .stopping rest) (main : t.main = s.main)
  | mainReleases (action : a = .mainReleases) (held : s.lock = .stopping []) (lock : t.lock = .free)
      (main : t.main = .released)
  | mainAborts (action : a = .mainAborts) (released : s.main = .released) (lock : t.lock = s.lock)
      (main : t.main = .aborted)

theorem Stepped.ofBegin {move : Move} {caller : Caller} {root : String} (called : s.Calls a root)
    (holder : s.lock = .free ∧ s.main = .serving ∨ s.lock = .restarting root ∨
      s.lock = .draining ∧ a = .handleSingleEvent)
    (h : s.beginStart move caller root = some c) (lock : t.lock = c.lock) (main : t.main = c.main) :
    Stepped s t a := by
  obtain ⟨_, _, hmain, rest, hrest, hclosure⟩ := beginStart_inv h
  exact .calls caller root rest called holder (lock.trans hrest) (main.trans hmain) hclosure

theorem Stepped.ofHandle {caller : Caller}
    (holder : s.lock = .free ∧ s.main = .serving ∨ s.lock = .draining)
    (h : s.beginHandle caller = some c) (lock : t.lock = c.lock) (main : t.main = c.main) :
    Stepped s t .handleSingleEvent := by
  obtain ⟨_, _, _, begun⟩ := beginHandle_inv h
  cases begun with
  | inl starts =>
    obtain ⟨root, sender, rest, queued, hbegin⟩ := starts
    exact .ofBegin (a := .handleSingleEvent) ⟨sender, rest, queued⟩
      (holder.imp_right fun held => .inr ⟨held, rfl⟩) hbegin lock main
  | inr stays =>
    obtain ⟨rfl, other⟩ := stays
    exact .stays lock main (fun root ⟨sender, rest, queued⟩ => other root sender rest queued) nofun nofun

theorem serving_iff : s.serving = true ↔ s.lock = .free ∧ s.main = .serving := by
  simp [serving]

theorem step_stepped (h : s.step split a = some t) : Stepped s t a := by
  obtain ⟨c, hcontrol, _, lock, _, main⟩ := step_inv h
  cases a with
  | startProcess name =>
    obtain ⟨serves, hbegin⟩ := Option.ite_none_right_eq_some.mp hcontrol
    exact .ofBegin (a := .startProcess name) rfl (.inl (serving_iff.mp serves)) hbegin lock main
  | restartWakes =>
    obtain ⟨name, held, hbegin⟩ := control_restartWakes hcontrol
    exact .ofBegin (a := .restartWakes) held (.inr (.inl held)) hbegin lock main
  | handleSingleEvent =>
    cases control_handleSingleEvent hcontrol with
    | inl request => exact .ofHandle (.inl (serving_iff.mp request.1)) request.2 lock main
    | inr drains => exact .ofHandle (.inr drains.1) drains.2 lock main
  | startUnit spawn =>
    obtain ⟨caller, root, unit, rest, held, rfl⟩ := control_startUnit hcontrol
    exact .attempts caller root unit rest spawn rfl held lock main
  | restartProcess name late =>
    obtain ⟨serves, hstop⟩ := Option.ite_none_right_eq_some.mp hcontrol
    obtain ⟨free, serving⟩ := serving_iff.mp serves
    split at hstop <;> cases hstop
    · exact .stays lock main (fun _ => id) (by simp) (by simp)
    · exact .restarts name late rfl free serving lock main
  | stopNext late =>
    obtain ⟨name, rest, held, rfl⟩ := control_stopNext hcontrol
    exact .stopNext name rest late rfl held lock main
  | stopProcess | loopWakes | loopQueues | loopCancelled =>
    obtain ⟨_, same⟩ := Option.ite_none_right_eq_some.mp hcontrol
    cases same
    exact .stays lock main (fun _ => id) (by simp) (by simp)
  | childExits | childReaped | monitorSends | timerFires =>
    cases hcontrol
    exact .stays lock main (fun _ => id) (by simp) (by simp)
  | loopAcquires =>
    obtain ⟨possible, same⟩ := Option.ite_none_right_eq_some.mp hcontrol
    cases same
    exact .loopAcquires rfl possible.1 lock main
  | loopReleases =>
    obtain ⟨possible, same⟩ := Option.ite_none_right_eq_some.mp hcontrol
    cases same
    exact .loopReleases rfl possible.1 lock main
  | serversStop =>
    obtain ⟨possible, same⟩ := Option.ite_none_right_eq_some.mp hcontrol
    cases same
    exact .serversStop rfl possible.1 lock main
  | mainAcquires =>
    obtain ⟨possible, same⟩ := Option.ite_none_right_eq_some.mp hcontrol
    cases same
    exact .mainAcquires rfl possible.2 lock main
  | shutdown names =>
    obtain ⟨possible, same⟩ := Option.ite_none_right_eq_some.mp hcontrol
    cases same
    exact .shutdown names rfl possible.1 lock main
  | mainReleases =>
    obtain ⟨held, same⟩ := Option.ite_none_right_eq_some.mp hcontrol
    cases same
    exact .mainReleases rfl held lock main
  | mainAborts =>
    obtain ⟨released, same⟩ := Option.ite_none_right_eq_some.mp hcontrol
    cases same
    exact .mainAborts rfl released lock main

/-! ## The units still to start -/

/-- What a step does to them. -/
inductive Pending (s t : System) (a : Action) : Prop
  | same (kept : t.lock.pending = s.lock.pending) (calm : ∀ root, ¬ s.Calls a root)
  | calls (root : String) (called : s.Calls a root) (before : s.lock.pending = [])
      (holder : s.lock = .free ∧ s.main = .serving ∨ s.lock = .restarting root ∨
        s.lock = .draining ∧ a = .handleSingleEvent)
      (closure : ∀ u, u ∈ t.lock.pending ↔ root ∈ s.processes ∧ InClosure s.processes root u)
  | attempts (unit : String) (spawn : Option Nat) (attempt : s.moveOf a = .start unit spawn)
      (queued : s.lock.pending = unit :: t.lock.pending)

theorem step_pending (h : s.step split a = some t) : Pending s t a := by
  cases step_stepped h with
  | calls caller root rest called holder lock _ closure =>
    refine .calls root called ?_ holder (by rwa [lock, Lock.resume_pending])
    rcases holder with ⟨held, _⟩ | held | ⟨held, _⟩ <;> rw [held] <;> rfl
  | attempts caller root unit rest spawn action held lock =>
    subst action
    exact .attempts unit spawn (by simp [moveOf, held]) (by rw [lock, held, Lock.resume_pending]; rfl)
  | stays lock _ calm => exact .same (by rw [lock]) calm
  | restarts name late action free _ lock => exact .same (by rw [lock, free]; rfl) (by simp [action, Calls])
  | loopAcquires action held lock | loopReleases action held lock | mainAcquires action held lock
  | shutdown _ action held lock | stopNext _ _ _ action held lock | mainReleases action held lock =>
    exact .same (by rw [lock, held]; rfl) (by simp [action, Calls])
  | serversStop action _ lock | mainAborts action _ lock =>
    exact .same (by rw [lock]) (by simp [action, Calls])

theorem moveOf_start {name : String} {spawn : Option Nat} (h : s.moveOf a = .start name spawn) :
    a = .startUnit spawn ∧ ∃ caller root rest, s.lock = .starting caller root (name :: rest) := by
  cases a with
  | startUnit other =>
    simp only [moveOf] at h
    split at h
    · rename_i caller root unit rest held
      cases h
      exact ⟨rfl, caller, root, rest, held⟩
    · cases h
  | stopNext late =>
    simp only [moveOf] at h
    split at h <;> cases h
  | _ => cases h

/-- Only the first pending unit is ever attempted. -/
theorem step_start {name : String} {spawn : Option Nat} (h : s.step split a = some t)
    (attempt : s.moveOf a = .start name spawn) : s.lock.pending = name :: t.lock.pending := by
  obtain ⟨rfl, caller, root, rest, held⟩ := moveOf_start attempt
  obtain ⟨c, hcontrol, _, lock, _⟩ := step_inv h
  simp only [control, held, Option.some.injEq] at hcontrol
  rw [lock, held, ← hcontrol, Lock.resume_pending]
  rfl

theorem moveOf_handle (h : s.moveOf a = .handle) : a = .handleSingleEvent := by
  cases a with
  | handleSingleEvent => rfl
  | startUnit | stopNext => simp only [moveOf] at h; split at h <;> cases h
  | _ => cases h

/-- The step that attempts a unit is its `start_process_single`. -/
theorem step_single {name : String} {spawn : Option Nat} (h : s.step split a = some t)
    (attempt : s.moveOf a = .start name spawn) :
    t.toDaemon = (Daemon.startProcessSingle split s.toDaemon name spawn).2 := by
  obtain ⟨c, hcontrol, hmove, _⟩ := step_inv h
  rw [control_move hcontrol, attempt] at hmove
  simp only [Daemon.apply] at hmove
  split at hmove
  · exact (Option.some.inj hmove).symm
  · cases hmove

theorem step_stop {name : String} {late : Bool} (h : s.step split a = some t)
    (stops : s.moveOf a = .stop name late) : t.toDaemon = (s.toDaemon.stopProcess name late).2 := by
  obtain ⟨c, hcontrol, hmove, _⟩ := step_inv h
  rw [control_move hcontrol, stops] at hmove
  exact (Option.some.inj hmove).symm

/-- A spawn of `name`: the step adds a child of it. -/
def Spawns (split : String → Option (List String)) (s : System) (a : Action) (name : String) : Prop :=
  ∃ t, s.step split a = some t ∧ t.latest name = some s.children.length

theorem Spawns.inv {name : String} (h : s.Spawns split a name) :
    ∃ pid process command, s.moveOf a = .start name (some pid) ∧
      Daemon.Launches split s.toDaemon name process command pid := by
  obtain ⟨t, hstep, latest⟩ := h
  -- no child of before has the number of the next one
  have fresh : s.latest name ≠ some s.children.length := fun latest => by
    obtain ⟨c, child, _⟩ := Daemon.latest_child latest
    rw [List.getElem?_eq_none (Nat.le_refl _)] at child
    cases child
  cases (step_moved hstep).effect with
  | keeps keeps => exact absurd (keeps.latest name ▸ latest) fresh
  | launches other process command pid attempt launches launched =>
    rw [launched, Daemon.launch_latest] at latest
    split at latest
    · rename_i same
      subst same
      exact ⟨pid, process, command, attempt, launches⟩
    · exact absurd latest fresh

theorem step_restarting {name : String} (h : s.step split a = some t) (held : t.lock = .restarting name) :
    s.lock = .restarting name ∨ ∃ late, a = .restartProcess name late := by
  cases step_stepped h with
  | calls _ _ _ _ _ lock | attempts _ _ _ _ _ _ _ lock =>
    exact ((Lock.resume_quiet ..).1 name (lock.symm.trans held)).elim
  | restarts other late action _ _ lock =>
    rw [lock] at held
    cases held
    exact .inr ⟨late, action⟩
  | stays lock | serversStop _ _ lock | mainAborts _ _ lock => exact .inl (lock ▸ held)
  | loopAcquires _ _ lock | loopReleases _ _ lock | mainAcquires _ _ lock | shutdown _ _ _ lock
  | stopNext _ _ _ _ _ lock | mainReleases _ _ lock =>
    rw [lock] at held; cases held

theorem step_configs (h : s.step split a = some t) : configOf t.processes = configOf s.processes :=
  (step_moved h).configs

end System

end Ciron
