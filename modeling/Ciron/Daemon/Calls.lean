import Ciron.Daemon.Control

/-! # Whole calls

`start_process` and `handle_single_event` take several steps of the system.  Where no other
step comes in between, these steps compute what the whole function computes. -/

namespace Ciron

open Transition

variable {split : String → Option (List String)}

namespace Daemon

/-- `handle_single_event`: whether there was an event to take. -/
def handleSingleEvent (split : String → Option (List String)) (d : Daemon) (os : String → Option Nat) :
    Option (Bool × Daemon) :=
  match d.events with
  | [] => some (false, d)
  | message :: rest =>
    let d := d.receive message rest
    match message.event with
    | .restartRequested name => (d.startProcess split name os).map fun (_, d) => (true, d)
    | event => some (true, d.onReport event)

end Daemon

namespace System

/-- The steps of the loop of `start_process`, none coming in between. -/
theorem runs_startUnits {caller : Caller} {root : String} (os : String → Option Nat) {order : List String}
    {s t : System} (acc : Option (Except String Unit)) (held : s.lock = .resume caller root order)
    (run : runs (step split) s (order.map fun unit => .startUnit (os unit)) = some t) :
    t.toDaemon = (Daemon.startUnits split root os acc s.toDaemon order).2 ∧
      t.lock = .resume caller root [] := by
  induction order generalizing s acc with
  | nil =>
    cases run
    exact ⟨rfl, held⟩
  | cons unit rest ih =>
    simp only [List.map_cons, runs, Option.bind_eq_some_iff] at run
    obtain ⟨next, hstep, hrest⟩ := run
    replace held : s.lock = .starting caller root (unit :: rest) := held
    have attempt : s.moveOf (.startUnit (os unit)) = .start unit (os unit) := by simp [moveOf, held]
    have single := step_single hstep attempt
    have lock : next.lock = .resume caller root rest := by
      obtain ⟨c, hcontrol, _, lock, _⟩ := step_inv hstep
      simp only [control, held, Option.some.injEq] at hcontrol
      rw [lock, ← hcontrol]
    -- the loop of the source passes a running dependency over; the step finds it running
    rw [← Daemon.startUnit_daemon split s.toDaemon (os unit) root unit] at single
    simp only [Daemon.startUnits, ← single]
    exact ih _ lock hrest

/-- The steps of a call that holds the lock, none coming in between. -/
theorem runs_order {caller : Caller} {name : String} {order : List String} {s t : System}
    (os : String → Option Nat) (resolved : resolveStartOrder s.processes name = some (.ok order))
    (held : s.lock = .resume caller name order)
    (run : runs (step split) s (order.map fun unit => .startUnit (os unit)) = some t) :
    ∃ result, s.startProcess split name os = some (result, t.toDaemon) ∧ t.lock = .resume caller name [] := by
  obtain ⟨computes, lock⟩ := runs_startUnits os none held run
  obtain ⟨result, hcall, _⟩ := Daemon.startProcess_resolved split resolved os
  exact ⟨result, by rw [hcall, computes], lock⟩

/-- The steps of a `start_process` request, none coming in between. -/
theorem runs_startProcess {s t : System} {name : String} {order : List String} (os : String → Option Nat)
    (resolved : resolveStartOrder s.processes name = some (.ok order))
    (run : runs (step split) s (.startProcess name :: order.map fun unit => .startUnit (os unit)) = some t) :
    ∃ result, s.startProcess split name os = some (result, t.toDaemon) ∧ t.lock = .free := by
  simp only [runs, Option.bind_eq_some_iff] at run
  obtain ⟨next, hstep, hrest⟩ := run
  obtain ⟨c, hcontrol, hmove, lock, _⟩ := step_inv hstep
  simp only [control, beginStart, resolved] at hcontrol
  split at hcontrol
  · cases hcontrol
    have same : s.toDaemon = next.toDaemon := Option.some.inj hmove
    have held : next.lock = .resume .request name order := lock
    rw [same] at resolved ⊢
    exact runs_order os resolved held hrest
  · cases hcontrol

/-- The steps of a `handle_single_event` call, none coming in between. -/
theorem runs_handleSingleEvent {s t : System} {root : String} {sender : Option Nat} {rest : List Message}
    {order : List String} (os : String → Option Nat)
    (queued : s.events = { event := .restartRequested root, sender } :: rest)
    (resolved : resolveStartOrder s.processes root = some (.ok order))
    (run : runs (step split) s (.handleSingleEvent :: order.map fun unit => .startUnit (os unit)) = some t) :
    s.handleSingleEvent split os = some (true, t.toDaemon) ∧ (t.lock = .free ∨ t.lock = .draining) := by
  simp only [runs, Option.bind_eq_some_iff] at run
  obtain ⟨next, hstep, hrest⟩ := run
  have received := (step_moved hstep).onHead queued
  obtain ⟨c, hcontrol, _, lock, _⟩ := step_inv hstep
  have held : ∃ caller, next.lock = .resume caller root order := by
    simp only [control, beginHandle, queued, beginStart, resolved] at hcontrol
    split at hcontrol
    · cases hcontrol; exact ⟨.request, lock⟩
    · split at hcontrol
      · cases hcontrol; exact ⟨.eventLoop, lock⟩
      · cases hcontrol
  obtain ⟨caller, held⟩ := held
  have resolved' : resolveStartOrder next.processes root = some (.ok order) := by rw [received]; exact resolved
  obtain ⟨result, call, lock'⟩ := runs_order os resolved' held hrest
  rw [received] at call
  constructor
  · have call : (s.receive { event := .restartRequested root, sender } rest).startProcess split root os =
        some (result, t.toDaemon) := call
    simp only [Daemon.handleSingleEvent, queued, call, Option.map_some]
  · rw [lock']
    cases caller
    · exact .inl rfl
    · exact .inr rfl

end System

end Ciron
