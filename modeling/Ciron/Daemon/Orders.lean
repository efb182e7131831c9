import Ciron.Daemon.Control
import Ciron.Daemon.EventLoop

/-! # The units a call begins with

An action that begins a `start_process` leaves in the lock what `resolve_start_order` returns for
its root: configured programs, each once. -/

namespace Ciron

open Transition

variable {split : String → Option (List String)}

/-- The units that `start_process` begins with, none for an unknown root. -/
def startUnitsOf (processes : ProcessTable) (root : String) : List String :=
  match resolveStartOrder processes root with
  | some (.ok order) => order
  | _ => []

theorem startUnitsOf_resolved {processes : ProcessTable} {root : String} {order : List String}
    (resolved : resolveStartOrder processes root = some (.ok order)) : startUnitsOf processes root = order := by
  simp only [startUnitsOf, resolved]

theorem startUnitsOf_unknown {processes : ProcessTable} {root : String} (unknown : root ∉ processes) :
    startUnitsOf processes root = [] := by
  simp only [startUnitsOf, resolveStartOrder_unknown unknown]

section

variable {processes : ProcessTable} (root : String)

theorem mem_startUnitsOf {u : String} :
    u ∈ startUnitsOf processes root ↔ root ∈ processes ∧ InClosure processes root u := by
  by_cases known : root ∈ processes
  · obtain ⟨order, resolved, _, hmem⟩ := resolveStartOrder_known known
    rw [startUnitsOf_resolved resolved, hmem, and_iff_right known]
  · rw [startUnitsOf_unknown known]
    simp [known]

theorem startUnitsOf_nodup : (startUnitsOf processes root).Nodup := by
  by_cases known : root ∈ processes
  · obtain ⟨order, resolved, hnodup, _⟩ := resolveStartOrder_known known
    rwa [startUnitsOf_resolved resolved]
  · rw [startUnitsOf_unknown known]
    exact List.nodup_nil

theorem startUnitsOf_length : (startUnitsOf processes root).length ≤ processes.keys.card :=
  length_le_card (startUnitsOf_nodup root) fun _ member =>
    let ⟨known, closure⟩ := (mem_startUnitsOf root).mp member
    closure.known known

end

namespace System

variable {s t : System} {a : Action} {c : Control}

theorem beginStart_lock {move : Move} {caller : Caller} {root : String}
    (h : s.beginStart move caller root = some c) :
    c.lock = .resume caller root (startUnitsOf s.processes root) := by
  unfold beginStart at h
  unfold startUnitsOf
  split at h <;> rename_i resolved
  · cases h
  · cases h
    rw [resolved]
  · cases h
    rw [resolved]

/-- The action that begins a call does so through `beginStart`. -/
theorem control_calls (h : s.control a = some c) {root : String} (called : s.Calls a root) :
    ∃ move caller, s.beginStart move caller root = some c := by
  cases a with
  | startProcess name =>
    obtain rfl : name = root := called
    obtain ⟨_, hbegin⟩ := Option.ite_none_right_eq_some.mp h
    exact ⟨.idle, .request, hbegin⟩
  | restartWakes =>
    obtain ⟨name, held, hbegin⟩ := control_restartWakes h
    have same : Lock.restarting name = .restarting root := held.symm.trans called
    cases same
    exact ⟨.idle, .request, hbegin⟩
  | handleSingleEvent =>
    obtain ⟨sender, rest, queued⟩ := called
    cases control_handleSingleEvent h with
    | inl request =>
      rw [beginHandle, queued] at request
      exact ⟨.handle, .request, request.2⟩
    | inr drains =>
      rw [beginHandle, queued] at drains
      exact ⟨.handle, .eventLoop, drains.2⟩
  | _ => cases called

theorem step_calls (h : s.step split a = some t) {root : String} (called : s.Calls a root) :
    ∃ caller, t.lock = .resume caller root (startUnitsOf s.processes root) := by
  obtain ⟨c, hcontrol, _, lock, _⟩ := step_inv h
  obtain ⟨_, caller, hbegin⟩ := control_calls hcontrol called
  exact ⟨caller, by rw [lock, beginStart_lock hbegin]⟩

/-- The programs are the configured ones throughout. -/
theorem step_count {programs : Nat} (count : s.processes.keys.card = programs) (h : s.step split a = some t) :
    t.processes.keys.card = programs := by
  rw [Daemon.keys_congr (step_configs h)]
  exact count

end System

end Ciron
