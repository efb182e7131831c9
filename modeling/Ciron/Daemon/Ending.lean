import Ciron.Daemon.Progress
import Ciron.Daemon.StopAll
import Ciron.Daemon.Workload

/-! # The shutdown comes to its end

When the servers have stopped, `main` waits for the lock, which the event loop may hold, and then
stops all programs, gives the lock back and aborts the event loop.  Nothing blocks this tail, and
only two things hold it up: a child that exits, for what its report leads to, and the event loop,
for taking the lock again. -/

namespace Ciron

open Transition

variable {split : String → Option (List String)}

/-- A step of the daemon's own work, the end of a drain, or a step of `main`. -/
def Action.advances : Action → Bool
  | .loopReleases | .mainAcquires | .shutdown _ | .stopNext _ | .mainReleases | .mainAborts => true
  | a => a.works

def Action.delays : Action → Bool
  | .childExits .. | .loopAcquires => true
  | _ => false

section

variable (programs : Nat)

/-- The steps of `main` that are not those of the call it makes. -/
def MainPhase.work : MainPhase → Nat
  | .serving | .waiting => programs + 4
  | .holding => 2
  | .released => 1
  | .aborted => 0

/-- The steps of the holder of the lock that are no work of the daemon's own. -/
def Lock.tail : Lock → Nat
  | .closing => programs + 1
  | .stopping rest => rest.length
  | .draining | .starting .eventLoop _ _ => 1
  | .free | .starting .request _ _ | .restarting _ => 0

theorem Lock.resume_tail (caller : Caller) (root : String) (rest : List String) :
    (Lock.resume caller root rest).tail programs =
      match caller with
      | .request => 0
      | .eventLoop => 1 := by
  cases rest <;> cases caller <;> rfl

/-- What is left to do until the abort. -/
def System.shutdownWork (s : System) : Nat :=
  s.cost programs + (s.main.work programs + s.lock.tail programs)

end

namespace System

/-! ## What a step does to the work left -/

/-- `main` does not go back to serving. -/
theorem step_ended {s t : System} {a : Action} (h : s.step split a = some t) (ended : s.main ≠ .serving) :
    t.main ≠ .serving := by
  cases step_stepped h with
  | calls _ _ _ _ _ _ main | attempts _ _ _ _ _ _ _ _ main | restarts _ _ _ _ _ _ main | stays _ main
  | loopAcquires _ _ _ main | loopReleases _ _ _ main | shutdown _ _ _ _ main | stopNext _ _ _ _ _ _ main =>
    rwa [main]
  | serversStop _ _ _ main | mainAcquires _ _ _ main | mainReleases _ _ _ main | mainAborts _ _ _ main =>
    simp [main]

/-- The tail of `main` and the drain: each step that is not paid for by the cost is one less. -/
theorem step_tail {programs : Nat} {s t : System} {a : Action} (phases : s.Phases)
    (count : s.processes.keys.card = programs) (ended : s.main ≠ .serving) (h : s.step split a = some t) :
    t.main.work programs + t.lock.tail programs + (if a.advances = true then 1 else 0) ≤
      s.main.work programs + s.lock.tail programs + (if a.works = true then 1 else 0) +
        if a = .loopAcquires then 1 else 0 := by
  obtain ⟨c, hcontrol, _, lock, _, main⟩ := step_inv h
  have unserved : ¬ s.serving = true := fun serves => ended (serving_iff.mp serves).2
  rw [lock, main]
  cases a with
  | startProcess | stopProcess | restartProcess =>
    exact absurd (Option.ite_none_right_eq_some.mp hcontrol).1 unserved
  | restartWakes =>
    obtain ⟨name, held, hbegin⟩ := control_restartWakes hcontrol
    rw [beginStart_lock hbegin, Lock.resume_tail, (beginStart_inv hbegin).2.2.1, held]
    simp [Action.advances, Action.works, Lock.tail]
  | startUnit spawn =>
    obtain ⟨caller, root, unit, rest, held, rfl⟩ := control_startUnit hcontrol
    rw [Lock.resume_tail, held]
    cases caller <;> simp [Action.advances, Action.works, Lock.tail, only]
  | handleSingleEvent =>
    -- only the event loop handles events once the servers have stopped
    obtain ⟨drains, hbegin⟩ :=
      (control_handleSingleEvent hcontrol).resolve_left fun request => unserved request.1
    obtain ⟨_, _, main, begun⟩ := beginHandle_inv hbegin
    rw [main, drains]
    cases begun with
    | inl starts =>
      obtain ⟨_, _, _, _, hstart⟩ := starts
      rw [beginStart_lock hstart, Lock.resume_tail]
      simp [Action.advances, Action.works, Lock.tail]
    | inr stays =>
      rw [stays.1]
      simp [Action.advances, Action.works, only, drains]
  | childExits | childReaped | monitorSends | timerFires =>
    cases hcontrol
    simp [Action.advances, Action.works, only]
  | loopWakes | loopQueues | loopCancelled =>
    obtain ⟨_, same⟩ := Option.ite_none_right_eq_some.mp hcontrol
    cases same
    simp [Action.advances, Action.works, only]
  | loopAcquires =>
    obtain ⟨possible, same⟩ := Option.ite_none_right_eq_some.mp hcontrol
    cases same
    simp [Action.advances, Action.works, Lock.tail, only, possible.1]
  | loopReleases =>
    obtain ⟨possible, same⟩ := Option.ite_none_right_eq_some.mp hcontrol
    cases same
    simp [Action.advances, Action.works, Lock.tail, only, possible.1]
  | serversStop =>
    exact absurd (Option.ite_none_right_eq_some.mp hcontrol).1.1 ended
  | mainAcquires =>
    obtain ⟨possible, same⟩ := Option.ite_none_right_eq_some.mp hcontrol
    cases same
    rw [possible.1, possible.2]
    simp only [Action.advances, Action.works, Lock.tail, MainPhase.work, if_true]
    omega
  | shutdown names =>
    obtain ⟨possible, same⟩ := Option.ite_none_right_eq_some.mp hcontrol
    cases same
    have all : names.length = programs := by
      rw [← count, ← possible.2.2, List.toFinset_card_of_nodup possible.2.1]
    rw [possible.1]
    simp only [Action.advances, Lock.tail, only, if_true]
    omega
  | stopNext late =>
    obtain ⟨name, rest, held, rfl⟩ := control_stopNext hcontrol
    rw [held]
    simp only [Action.advances, Lock.tail, only, List.length_cons, if_true]
    omega
  | mainReleases =>
    obtain ⟨held, same⟩ := Option.ite_none_right_eq_some.mp hcontrol
    cases same
    rw [held, (phases.stopping [] held).1]
    simp [Action.advances, Action.works, Lock.tail, MainPhase.work]
  | mainAborts =>
    obtain ⟨released, same⟩ := Option.ite_none_right_eq_some.mp hcontrol
    cases same
    rw [released]
    simp only [Action.advances, MainPhase.work, only, if_true]
    omega

/-- A step that advances takes one off the work left, and only a delay adds to it. -/
theorem step_shutdownWork {programs : Nat} {s t : System} {a : Action} (phases : s.Phases)
    (count : s.processes.keys.card = programs) (ended : s.main ≠ .serving) (h : s.step split a = some t) :
    t.shutdownWork programs + (if a.advances = true then 1 else 0) ≤
      s.shutdownWork programs + if a.delays = true then 5 * programs + 2 else 0 := by
  have work := step_cost count h
  have tail := step_tail phases count ended h
  have unserved : ¬ s.serving = true := fun serves => ended (serving_iff.mp serves).2
  have delayed : (if a.stimulates = true then 5 * programs + 2 else 0) + (if a = .loopAcquires then 1 else 0) ≤
      if a.delays = true then 5 * programs + 2 else 0 := by
    obtain ⟨c, hcontrol, _⟩ := step_inv h
    cases a with
    | startProcess | restartProcess => exact absurd (Option.ite_none_right_eq_some.mp hcontrol).1 unserved
    | loopAcquires => simp [Action.stimulates, Action.delays]
    | _ => simp [Action.stimulates, Action.delays]
  unfold shutdownWork
  omega

/-! ## The way to the abort -/

/-- Inside `stop_all` only programs that it has not come to are running. -/
theorem Reached.stopping_idle {s : System} (h : s.Reached split) {rest : List String}
    (held : s.lock = .stopping rest) {name : String} (running : s.isRunning name = true) : name ∈ rest := by
  refine h.invariant (fun s => ∀ rest, s.lock = .stopping rest → ∀ name, s.isRunning name = true → name ∈ rest)
    (fun _ => nofun) ?_ rest held name running
  intro s a t reached inside hstep rest held name running
  have idle (keeps : s.Keeps t.toDaemon) : s.isRunning name = true := by
    by_contra stopped
    rw [keeps.stopped (Bool.eq_false_of_not_eq_true stopped)] at running
    cases running
  cases step_stepped hstep with
  | calls _ _ _ _ _ lock | attempts _ _ _ _ _ _ _ lock =>
    exact ((Lock.resume_quiet ..).2.2 rest (lock.symm.trans held)).elim
  | restarts _ _ _ _ _ lock | loopAcquires _ _ lock | loopReleases _ _ lock | mainAcquires _ _ lock
  | mainReleases _ _ lock => rw [lock] at held; cases held
  | stays lock _ _ other =>
    have held := lock.symm.trans held
    refine inside rest held name (idle ((step_moved hstep).keeps fun unit spawn attempt => ?_))
    exact other spawn (moveOf_start attempt).1
  | serversStop action _ lock | mainAborts action _ lock =>
    have keeps := (step_moved hstep).keeps (by simp [action, moveOf])
    exact inside rest (lock.symm.trans held) name (idle keeps)
  | shutdown names action _ lock =>
    subst action
    rw [lock, Lock.stopping.injEq] at held
    subst held
    have keeps := (step_moved hstep).keeps (by simp [moveOf])
    obtain ⟨process, found, _⟩ := Daemon.isRunning_iff.mp (idle keeps)
    rw [← List.mem_toFinset, (shutdown_names hstep).2.1, Finmap.mem_keys]
    exact Finmap.mem_of_lookup_eq_some found
  | stopNext stopped later late action before lock =>
    subst action
    rw [lock, Lock.stopping.injEq] at held
    subst held
    have stops : s.moveOf (.stopNext late) = .stop stopped late := by simp [moveOf, before]
    have keeps := (step_moved hstep).keeps (by simp [stops])
    cases List.mem_cons.mp (inside _ before name (idle keeps)) with
    | inl same =>
      rw [same, step_stop hstep stops, Daemon.stopProcess_stopped] at running
      cases running
    | inr later => exact later

/-- `main` gives the lock up only at the end. -/
theorem Reached.main_holds {s : System} (h : s.Reached split) (holding : s.main = .holding) :
    s.lock = .closing ∨ ∃ rest, s.lock = .stopping rest := by
  refine h.invariant (fun s => s.main = .holding → s.lock = .closing ∨ ∃ rest, s.lock = .stopping rest)
    (fun _ => nofun) ?_ holding
  intro s a t _ inside hstep holding
  cases step_stepped hstep with
  | calls _ root _ _ holder _ main =>
    have held := inside (main.symm.trans holding)
    rcases holder with ⟨other, _⟩ | other | ⟨other, _⟩ <;> simp [other] at held
  | attempts _ _ _ _ _ _ other _ main | loopAcquires _ other _ main | loopReleases _ other _ main =>
    have held := inside (main.symm.trans holding)
    simp [other] at held
  | restarts _ _ _ _ serving _ main =>
    rw [main, serving] at holding; cases holding
  | stays lock main =>
    rw [lock]
    exact inside (main.symm.trans holding)
  | mainAcquires _ _ lock => exact .inl lock
  | shutdown names _ _ lock => exact .inr ⟨names, lock⟩
  | stopNext _ rest _ _ _ lock => exact .inr ⟨rest, lock⟩
  | serversStop _ _ _ main | mainReleases _ _ _ main | mainAborts _ _ _ main =>
    rw [main] at holding; cases holding

theorem advances_of_holds {s : System} {a : Action} (h : s.Holds a = true) : a.advances = true := by
  cases a <;> first | rfl | cases h

/-- Before `main` is through with `stop_all` there is a step that advances, to a state that is no
    further than the end of `stop_all`. -/
theorem Reached.advances {s : System} (h : s.Reached split) (ahead : s.main = .waiting ∨ s.main = .holding) :
    s.lock = .stopping [] ∨ ∃ a t, a.advances = true ∧ s.step split a = some t ∧
      (t.main = .waiting ∨ t.main = .holding) := by
  by_cases free : s.lock = .free
  · have waiting : s.main = .waiting :=
      ahead.resolve_right fun holding => by simpa [free] using h.main_holds holding
    have acquires : s.step split .mainAcquires = some { s with lock := .closing, main := .holding } :=
      step_of (c := { s.only .idle with lock := .closing, main := .holding }) (if_pos ⟨waiting, free⟩) rfl
    exact .inr ⟨.mainAcquires, _, rfl, acquires, .inr rfl⟩
  · obtain ⟨a, t, holds, hstep⟩ := h.goes_on free
    have advances := advances_of_holds holds
    cases step_stepped hstep with
    | calls _ _ _ _ _ _ main | attempts _ _ _ _ _ _ _ _ main | restarts _ _ _ _ _ _ main | stays _ main
    | loopAcquires _ _ _ main | loopReleases _ _ _ main | shutdown _ _ _ _ main | stopNext _ _ _ _ _ _ main =>
      exact .inr ⟨a, t, advances, hstep, by rwa [main]⟩
    | serversStop action => rw [action] at advances; cases advances
    | mainAcquires _ unheld => exact absurd unheld free
    | mainReleases _ held => exact .inl held
    | mainAborts _ released => simp [released] at ahead

/-- `stop_all` can be brought to its end. -/
theorem comes_to_stopped {s : System} (h : s.Reached split) (ahead : s.main = .waiting ∨ s.main = .holding) :
    ∃ t, Leads (step split) (fun _ a => a.advances = true) s t ∧ t.Reached split ∧ t.lock = .stopping [] := by
  generalize count : s.processes.keys.card = programs
  let Inv (height : Nat) (s : System) : Prop := s.Reached split ∧ (s.main = .waiting ∨ s.main = .holding) ∧
    s.processes.keys.card = programs ∧ s.shutdownWork programs = height
  refine comes_to Inv (fun t => t.Reached split ∧ t.lock = .stopping []) ?_ ⟨h, ahead, count, rfl⟩
  rintro _ s ⟨h, ahead, count, rfl⟩
  refine (h.advances ahead).imp (fun stopped => ⟨h, stopped⟩) fun more => ?_
  obtain ⟨a, t, advances, hstep, ahead'⟩ := more
  have less := step_shutdownWork h.phases count (by rintro serving; simp [serving] at ahead) hstep
  have undelayed : a.delays = false := by cases a <;> first | rfl | cases advances
  rw [advances, undelayed] at less
  exact ⟨a, t, _, advances, hstep, less, h.tail hstep, ahead', step_count count hstep, rfl⟩

theorem step_mainAborts (split : String → Option (List String)) {s : System} (released : s.main = .released) :
    s.step split .mainAborts = some { s with main := .aborted } :=
  step_of (c := { s.only .idle with main := .aborted }) (if_pos released) rfl

/-- The shutdown can always be brought to its end. -/
theorem comes_to_abort {s : System} (h : s.Reached split) (ended : s.main ≠ .serving) :
    ∃ t, Leads (step split) (fun _ a => a.advances = true) s t ∧ t.main = .aborted ∧
      (s.main = .waiting ∨ s.main = .holding → ∀ name, t.isRunning name = false) := by
  cases phase : s.main with
  | serving => exact absurd phase ended
  | waiting | holding =>
    obtain ⟨t, leads, reached, stopped⟩ := comes_to_stopped h (by simp [phase])
    have releases : t.step split .mainReleases = some { t with lock := .free, main := .released } :=
      step_of (c := { t.only .idle with lock := .free, main := .released }) (if_pos stopped) rfl
    refine ⟨_, (leads.tail rfl releases).tail rfl (step_mainAborts split rfl), rfl, fun _ name => ?_⟩
    refine Bool.eq_false_of_not_eq_true fun running => ?_
    exact List.not_mem_nil (reached.stopping_idle stopped running)
  | released => exact ⟨_, (Leads.refl s).tail rfl (step_mainAborts split phase), rfl, by simp⟩
  | aborted => exact ⟨s, .refl s, phase, by simp⟩

/-- Once the servers have stopped, the shutdown can be brought to its end from every state of every
    run, with no program running if `main` was not through with `stop_all`; and all the steps that
    bring it on are no more than the work there was, and a call's worth for every exit of a child and
    every time that the event loop takes the lock. -/
theorem shutdown_ends {s t : System} {trace : List (System × Action)} (reached : s.Reached split)
    (ended : s.main ≠ .serving) (run : Exec (step split) s trace t) :
    (∃ u, Leads (step split) (fun _ a => a.advances = true) t u ∧ u.main = .aborted ∧
      (t.main = .waiting ∨ t.main = .holding → ∀ name, u.isRunning name = false)) ∧
    tally (fun _ a => a.advances) trace ≤ s.shutdownWork s.processes.keys.card +
      (5 * s.processes.keys.card + 2) * tally (fun _ a => a.delays) trace := by
  generalize count : s.processes.keys.card = programs
  let Inv (s : System) : Prop := s.Reached split ∧ s.main ≠ .serving ∧ s.processes.keys.card = programs
  have preserved : ∀ s a t, Inv s → s.step split a = some t → Inv t := by
    rintro s a t ⟨reached, ended, count⟩ hstep
    exact ⟨reached.tail hstep, step_ended hstep ended, step_count count hstep⟩
  have start : Inv s := ⟨reached, ended, count⟩
  obtain ⟨reached', ended', _⟩ := (run.invariant preserved start).1
  refine ⟨comes_to_abort reached' ended', ?_⟩
  have paid := run.paid Inv (fun _ _ => True) (shutdownWork programs) (fun _ a => a.advances) (fun _ a => a.delays)
    (5 * programs + 2) preserved
    (fun s a t inv _ hstep => step_shutdownWork inv.1.phases inv.2.2 inv.2.1 hstep) (fun _ _ => trivial) start
  omega

/-- The event loop takes the lock first, with a `Started` in the queue. -/
theorem shutdown_ends_drain : ∃ (s t : System) (trace : List (System × Action)),
    Exec (step oneWord) s trace t ∧ t.isRunning "web" = true ∧ tally (fun _ a => a.delays) trace = 1 ∧
    (∃ u, Leads (step oneWord) (fun _ a => a.advances = true) t u ∧ u.main = .aborted ∧
      (t.main = .waiting ∨ t.main = .holding → ∀ name, u.isRunning name = false)) ∧
    tally (fun _ a => a.advances) trace ≤ s.shutdownWork s.processes.keys.card +
      (5 * s.processes.keys.card + 2) * tally (fun _ a => a.delays) trace := by
  have stopped : (ran oneWord [("web", { command := "web" })]
    [.startProcess "web", .startUnit (some 7), .serversStop, .loopWakes]).isSome = true := rfl
  have run : Exec (step oneWord) ((ran oneWord _ _).get stopped) _ _ :=
    .tail (a := .handleSingleEvent) (.tail (a := .loopAcquires) .refl rfl) rfl
  exact ⟨_, _, _, run, rfl, rfl, shutdown_ends (Reached.ran stopped) nofun run⟩

end System

end Ciron
