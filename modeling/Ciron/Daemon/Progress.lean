import Ciron.Daemon.Draining
import Ciron.Daemon.EventLoop
import Ciron.Daemon.Holder
import Ciron.Daemon.Orders
import Ciron.Daemon.Phases
import Ciron.Transition.Budget

/-! # The lock is given back

Whoever holds the write lock can always take its next step, and has a bounded number of steps to
take before it gives the lock back: the units of its call, the programs `stop_all` has still to
stop, or the events of the drain with the calls they lead to.  Only the drain can be prolonged, by
what monitors and restart sleeps send in the meantime. -/

namespace Ciron

open Transition

variable {split : String → Option (List String)}

/-- The steps that the holder of the lock has still to take.  In the drain each unit of a call
    counts for its `Started` too. -/
def Lock.work (programs : Nat) (events : List Message) : Lock → Nat
  | .free => 0
  | .starting .request _ rest => rest.length
  | .starting .eventLoop _ rest => 2 * rest.length + (Daemon.load (2 * programs) events + 1)
  | .restarting _ => programs + 1
  | .draining => Daemon.load (2 * programs) events + 1
  | .closing => programs + 2
  | .stopping rest => rest.length + 1

theorem Lock.resume_work (programs : Nat) (events : List Message) (caller : Caller) (root : String)
    (rest : List String) : (Lock.resume caller root rest).work programs events =
      match caller with
      | .request => rest.length
      | .eventLoop => 2 * rest.length + (Daemon.load (2 * programs) events + 1) := by
  cases rest <;> cases caller <;> simp [resume, work]

theorem Lock.resume_unfinished (caller : Caller) (root : String) (rest : List String) (caller' : Caller)
    (root' : String) : Lock.resume caller root rest ≠ .starting caller' root' [] := by
  cases rest <;> cases caller <;> simp [resume]

/-- A message that no client and no call has sent. -/
def Action.sends : Action → Bool
  | .monitorSends _ | .timerFires _ => true
  | _ => false

namespace System

def lockWork (programs : Nat) (s : System) : Nat := s.lock.work programs s.events

/-! ## There is a next step -/

/-- A call under way has a unit to start. -/
theorem Reached.unfinished {s : System} (h : s.Reached split) {caller : Caller} {root : String}
    {rest : List String} (held : s.lock = .starting caller root rest) : rest ≠ [] := by
  have inv : ∀ caller root, s.lock ≠ .starting caller root [] := by
    refine h.invariant (fun s => ∀ caller root, s.lock ≠ .starting caller root []) (fun _ => nofun) ?_
    intro s a t _ unfinished hstep caller root
    cases step_stepped hstep with
    | calls _ _ _ _ _ lock | attempts _ _ _ _ _ _ _ lock =>
      rw [lock]
      exact Lock.resume_unfinished _ _ _ caller root
    | stays lock | serversStop _ _ lock | mainAborts _ _ lock =>
      rw [lock]
      exact unfinished caller root
    | restarts _ _ _ _ _ lock | loopAcquires _ _ lock | loopReleases _ _ lock | mainAcquires _ _ lock
    | shutdown _ _ _ lock | stopNext _ _ _ _ _ lock | mainReleases _ _ lock => rw [lock]; nofun
  intro empty
  exact inv caller root (by rw [held, empty])

/-- The holder of the lock can take its next step. -/
theorem Reached.goes_on {s : System} (h : s.Reached split) (held : s.lock ≠ .free) :
    ∃ a t, s.Holds a = true ∧ s.step split a = some t := by
  cases lock : s.lock with
  | free => exact absurd lock held
  | starting caller root rest =>
    obtain ⟨unit, rest, rfl⟩ := List.exists_cons_of_ne_nil (h.unfinished lock)
    have hcontrol : s.control (.startUnit none) =
        some { s.only (.start unit none) with lock := .resume caller root rest } := by
      simp only [control, lock]
    exact ⟨.startUnit none, _, rfl, step_of hcontrol rfl⟩
  | restarting name =>
    obtain ⟨c, hbegin⟩ := beginStart_total s .idle .request name
    have hcontrol : s.control .restartWakes = some c := by simp only [control, lock, hbegin]
    exact ⟨.restartWakes, _, rfl, step_of hcontrol (by rw [(beginStart_inv hbegin).1]; rfl)⟩
  | draining =>
    cases queued : s.events with
    | nil =>
      have hcontrol : s.control .loopReleases = some { s.only .idle with lock := .free, loop := .sleeping } :=
        if_pos ⟨lock, queued⟩
      exact ⟨.loopReleases, _, rfl, step_of hcontrol rfl⟩
    | cons m rest =>
      obtain ⟨t, _, _, hstep, _⟩ := drain_handles split lock queued
      exact ⟨.handleSingleEvent, t, by simp [Holds, lock], hstep⟩
  | closing =>
    have hcontrol : s.control (.shutdown s.processes.keys.toList) =
        some { s.only .close with lock := .stopping s.processes.keys.toList } :=
      if_pos ⟨lock, Finset.nodup_toList _, Finset.toList_toFinset _⟩
    exact ⟨.shutdown _, _, rfl, step_of hcontrol rfl⟩
  | stopping rest =>
    cases rest with
    | nil =>
      have hcontrol : s.control .mainReleases = some { s.only .idle with lock := .free, main := .released } :=
        if_pos lock
      exact ⟨.mainReleases, _, rfl, step_of hcontrol rfl⟩
    | cons name rest =>
      have hcontrol : s.control (.stopNext false) =
          some { s.only (.stop name false) with lock := .stopping rest } := by
        simp only [control, lock]
      exact ⟨.stopNext false, _, rfl, step_of hcontrol rfl⟩

/-! ## The steps to take -/

/-- An attempt sends no more than one `Started`. -/
theorem attempt_load (split : String → Option (List String)) (programs : Nat) (d : Daemon) (name : String)
    (spawn : Option Nat) :
    Daemon.load programs (Daemon.startProcessSingle split d name spawn).2.events ≤
      Daemon.load programs d.events + 1 := by
  obtain ⟨sent, events, one, started⟩ := Daemon.startProcessSingle_sends split d name spawn
  have none : Daemon.restartRequests sent = 0 :=
    List.countP_eq_zero.mpr fun m member => by simp [started m member]
  have all : Daemon.restartRequests (d.events ++ sent) =
      Daemon.restartRequests d.events + Daemon.restartRequests sent := List.countP_append
  rw [events, Daemon.load, Daemon.load, all, none, List.length_append, Nat.add_zero]
  omega

/-- A message sent is handled once, and may begin a call. -/
theorem post_load (programs : Nat) (d : Daemon) (m : Message) :
    Daemon.load programs (d.post m).events ≤ Daemon.load programs d.events + (programs + 1) := by
  have one : Daemon.restartRequests (d.events ++ [m]) ≤ Daemon.restartRequests d.events + 1 := by
    rw [Daemon.restartRequests, List.countP_append, List.countP_singleton]
    split <;> simp [Daemon.restartRequests]
  have priced := Nat.mul_le_mul_right programs one
  rw [Daemon.post_events]
  split
  · omega
  · rw [Daemon.load, Daemon.load, List.length_append, List.length_singleton]
    rw [Nat.add_mul] at priced
    omega

theorem Lock.work_mono (programs : Nat) (lock : Lock) {events events' : List Message} {more : Nat}
    (h : Daemon.load (2 * programs) events' ≤ Daemon.load (2 * programs) events + more) :
    lock.work programs events' ≤ lock.work programs events + more := by
  cases lock with
  | starting caller => cases caller <;> simp only [Lock.work] <;> omega
  | free | restarting | draining | closing | stopping => simp only [Lock.work]; omega

/-- What the drain does for an event, it had to do. -/
theorem step_handle_work {programs : Nat} {s t : System} (count : s.processes.keys.card = programs)
    (held : s.lock ≠ .free) (h : s.step split .handleSingleEvent = some t) :
    t.lockWork programs + 1 ≤ s.lockWork programs := by
  obtain ⟨c, hcontrol, hmove, lock, _⟩ := step_inv h
  have units (root : String) : (startUnitsOf s.processes root).length ≤ programs :=
    count ▸ startUnitsOf_length root
  have busy : ¬ s.serving = true := fun serves => held (serving_iff.mp serves).1
  unfold lockWork
  rw [lock]
  obtain ⟨drains, hbegin⟩ := (control_handleSingleEvent hcontrol).resolve_left fun request => busy request.1
  obtain ⟨move, _, _, begun⟩ := beginHandle_inv hbegin
  rw [move] at hmove
  obtain ⟨m, rest, queued⟩ := Daemon.apply_handle_inv hmove
  have events : t.events = rest := by
    rw [(step_moved h).onHead queued, Daemon.onReport_events]
    rfl
  rw [events, queued, drains]
  cases begun with
  | inl starts =>
    obtain ⟨root, sender, _, queued', hstart⟩ := starts
    obtain ⟨rfl, rfl⟩ := List.cons.inj (queued.symm.trans queued')
    have := units root
    have request : Daemon.restartRequests ({ event := .restartRequested root, sender } :: rest) =
        Daemon.restartRequests rest + 1 := List.countP_cons_of_pos rfl
    rw [beginStart_lock hstart, Lock.resume_work]
    simp only [Lock.work, Daemon.load, request, List.length_cons, Nat.add_mul]
    omega
  | inr stays =>
    obtain ⟨rfl, _⟩ := stays
    have fewer : Daemon.restartRequests rest ≤ Daemon.restartRequests (m :: rest) :=
      List.Sublist.countP_le (List.sublist_cons_self ..)
    have priced := Nat.mul_le_mul_right (2 * programs) fewer
    simp only [only, drains, Lock.work, Daemon.load, List.length_cons]
    omega

/-- A step of the holder takes one off its work; only a message sent by a monitor or at the end of
    a restart sleep adds to it. -/
theorem step_lockWork {programs : Nat} {s t : System} {a : Action}
    (count : s.processes.keys.card = programs) (held : s.lock ≠ .free) (h : s.step split a = some t) :
    t.lockWork programs + (if s.Holds a = true then 1 else 0) ≤
      s.lockWork programs + if a.sends = true then 2 * programs + 1 else 0 := by
  obtain ⟨c, hcontrol, hmove, lock, _⟩ := step_inv h
  have units (root : String) : (startUnitsOf s.processes root).length ≤ programs :=
    count ▸ startUnitsOf_length root
  have busy : ¬ s.serving = true := fun serves => held (serving_iff.mp serves).1
  unfold lockWork
  rw [lock]
  cases a with
  | startProcess | stopProcess | restartProcess =>
    exact absurd (Option.ite_none_right_eq_some.mp hcontrol).1 busy
  | loopAcquires => exact absurd (Option.ite_none_right_eq_some.mp hcontrol).1.1 held
  | mainAcquires => exact absurd (Option.ite_none_right_eq_some.mp hcontrol).1.2 held
  | startUnit spawn =>
    obtain ⟨caller, root, unit, rest, held, rfl⟩ := control_startUnit hcontrol
    have attempts := attempt_load split (2 * programs) s.toDaemon unit spawn
    have single := step_single h (show s.moveOf (.startUnit spawn) = .start unit spawn by simp [moveOf, held])
    rw [← single] at attempts
    rw [Lock.resume_work, held]
    cases caller <;> simp only [Lock.work, Holds, Action.sends, List.length_cons, Bool.false_eq_true,
      if_false, if_true] <;> omega
  | restartWakes =>
    obtain ⟨name, held, hbegin⟩ := control_restartWakes hcontrol
    have := units name
    rw [beginStart_lock hbegin, Lock.resume_work, held]
    simp only [Lock.work, Holds, if_true]
    omega
  | handleSingleEvent =>
    have handled := step_handle_work count held h
    unfold lockWork at handled
    rw [lock] at handled
    split <;> omega
  | childExits =>
    cases hcontrol
    obtain ⟨_, _, _, same⟩ := Daemon.apply_exit_inv hmove
    rw [same]
    exact Nat.le_refl _
  | childReaped =>
    cases hcontrol
    obtain ⟨_, _, _, _, _, same⟩ := Daemon.apply_reap_inv hmove
    rw [same]
    exact Nat.le_refl _
  | monitorSends task =>
    cases hcontrol
    obtain ⟨child, result, _, _, _, same⟩ := Daemon.apply_send_inv hmove
    have posted := post_load (2 * programs)
      { s.toDaemon with children := s.children.set task { child with monitor := .sent } }
      { event := child.report result, sender := some task }
    rw [same]
    exact Lock.work_mono programs s.lock posted
  | timerFires name =>
    cases hcontrol
    obtain ⟨_, same⟩ := Option.ite_none_right_eq_some.mp hmove
    have posted := post_load (2 * programs) { s.toDaemon with timers := s.timers.erase name }
      { event := .restartRequested name }
    rw [← Option.some.inj same]
    exact Lock.work_mono programs s.lock posted
  | loopWakes | loopQueues | loopCancelled | serversStop | mainAborts =>
    obtain ⟨_, same⟩ := Option.ite_none_right_eq_some.mp hcontrol
    cases same
    obtain same : s.toDaemon = t.toDaemon := Option.some.inj hmove
    rw [← same]
    simp only [Holds, Action.sends, only, Bool.false_eq_true, if_false]
    omega
  | loopReleases =>
    obtain ⟨possible, same⟩ := Option.ite_none_right_eq_some.mp hcontrol
    cases same
    rw [possible.1]
    simp only [Holds, Lock.work, if_true]
    omega
  | shutdown names =>
    obtain ⟨possible, same⟩ := Option.ite_none_right_eq_some.mp hcontrol
    cases same
    have all : names.length = programs := by
      rw [← count, ← possible.2.2, List.toFinset_card_of_nodup possible.2.1]
    rw [possible.1]
    simp only [Holds, Lock.work, if_true]
    omega
  | stopNext late =>
    obtain ⟨name, rest, held, rfl⟩ := control_stopNext hcontrol
    rw [held]
    simp only [Holds, Lock.work, List.length_cons, if_true]
    omega
  | mainReleases =>
    obtain ⟨held, same⟩ := Option.ite_none_right_eq_some.mp hcontrol
    cases same
    rw [held]
    simp only [Holds, Lock.work, if_true]
    omega

/-- While the lock is held only its holder changes it, and can always go on to do so; the holder
    takes no more steps than its work, unless messages come in meanwhile, and each of these adds
    no more than a call for every program. -/
theorem lock_given_back {s t : System} {trace : List (System × Action)} (reached : s.Reached split)
    (run : Exec (step split) s trace t) (busy : ∀ p ∈ trace, p.1.lock ≠ .free) :
    (∀ p ∈ trace, p.1.Holds p.2 = false → ∀ u, p.1.step split p.2 = some u → u.lock = p.1.lock) ∧
    (t.lock ≠ .free → ∃ a u, t.Holds a = true ∧ t.step split a = some u) ∧
    tally Holds trace ≤ s.lockWork s.processes.keys.card +
      (2 * s.processes.keys.card + 1) * tally (fun _ a => a.sends) trace := by
  generalize count : s.processes.keys.card = programs
  refine ⟨fun p member other u hstep => (step_bystander (busy p member) other hstep).1, fun held => ?_, ?_⟩
  · obtain ⟨program, boots⟩ := reached
    exact Reached.goes_on ⟨program, boots.trans run⟩ held
  · have paid := run.paid (fun s => s.processes.keys.card = programs) (fun s _ => s.lock ≠ .free)
      (lockWork programs) Holds (fun _ a => a.sends) (2 * programs + 1)
      (fun _ _ _ => step_count)
      (fun s a t count held hstep => step_lockWork count held hstep) busy count
    omega

/-- A drain that is entered with a `Started` and a report in the queue takes three steps. -/
theorem lock_given_back_drain : ∃ (s t : System) (trace : List (System × Action)),
    Exec (step oneWord) s trace t ∧ t.lock = .free ∧ tally Holds trace = 3 ∧
    tally Holds trace ≤ s.lockWork s.processes.keys.card +
      (2 * s.processes.keys.card + 1) * tally (fun _ a => a.sends) trace := by
  have draining : (ran oneWord [("web", { command := "web" })] [.startProcess "web", .startUnit (some 7),
    .childExits 0 (some 0), .childReaped 0 none, .monitorSends 0, .loopWakes, .loopAcquires]).isSome = true := rfl
  have run : Exec (step oneWord) ((ran oneWord _ _).get draining) _ _ :=
    .tail (a := .loopReleases) (.tail (a := .handleSingleEvent) (.tail (a := .handleSingleEvent) .refl rfl) rfl) rfl
  refine ⟨_, _, _, run, rfl, rfl, (lock_given_back (Reached.ran draining) run ?_).2.2⟩
  exact List.forall_mem_cons.mpr ⟨nofun, List.forall_mem_cons.mpr ⟨nofun, List.forall_mem_singleton.mpr nofun⟩⟩

end System

end Ciron
