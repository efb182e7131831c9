import Mathlib.Logic.Function.Basic
import Ciron.Daemon.Holder
import Ciron.Daemon.Orders
import Ciron.Process.Start

/-! # Calls take effect as if nothing came between

`start_process` and `restart_process` give up the processor between their attempts and inside their
sleep.  What goes on in the meantime touches neither the records nor the list of children, so a call
leaves them as the sequential function does from the state it began in, for the answers that the
operating system gave: `start_serial`, `restart_serial`. -/

namespace Ciron

open Transition

variable {split : String → Option (List String)}

namespace Daemon

/-- The same records, and the same programs spawned. -/
structure Alike (d d' : Daemon) : Prop where
  processes : d.processes = d'.processes
  programs : d.programs = d'.programs

theorem children_length {d d' : Daemon} (h : d'.programs = d.programs) :
    d'.children.length = d.children.length := by
  simpa [Daemon.programs] using congrArg List.length h

theorem Alike.refl (d : Daemon) : Alike d d := ⟨rfl, rfl⟩

theorem Alike.trans {d d' d'' : Daemon} (h : Alike d d') (h' : Alike d' d'') : Alike d d'' :=
  ⟨h.processes.trans h'.processes, h.programs.trans h'.programs⟩

theorem Alike.isRunning {d d' : Daemon} (h : Alike d d') (name : String) :
    d.isRunning name = d'.isRunning name := by
  rw [Daemon.isRunning, h.processes, Daemon.isRunning]

theorem Moved.outside_alike {d d' : Daemon} {move : Move} (moved : Moved split d move d')
    (outside : move.Outside) : Alike d' d :=
  ⟨moved.outside_processes outside, (moved.outside_keeps outside).programs⟩

theorem Alike.single {d d' : Daemon} (h : Alike d d') (name : String) (spawn : Option Nat) :
    Alike (startProcessSingle split d name spawn).2 (startProcessSingle split d' name spawn).2 := by
  have failed : Alike (d.note (.spawnFailed name)) (d'.note (.spawnFailed name)) := ⟨h.processes, h.programs⟩
  unfold startProcessSingle
  rw [h.processes]
  split
  · exact h
  · split
    · exact h
    · split
      · exact failed
      · cases spawn with
        | none => exact failed
        | some pid =>
          -- the record holds the number of the child
          refine ⟨?_, ?_⟩
          · simp only [launch_processes, h.processes, children_length h.programs]
          · simpa [Daemon.programs] using h.programs

theorem startUnits_concat (root : String) (os : String → Option Nat) (acc : Option (Except String Unit))
    (d : Daemon) (done : List String) (unit : String) :
    (startUnits split root os acc d (done ++ [unit])).2 =
      (startProcessSingle split (startUnits split root os acc d done).2 unit (os unit)).2 := by
  induction done generalizing acc d with
  | nil => exact startUnit_daemon split d (os unit) root unit
  | cons first done ih => exact ih ..

/-- Only the answers for the units of the order count. -/
theorem startUnits_os (root : String) {os os' : String → Option Nat} (acc : Option (Except String Unit))
    (d : Daemon) {order : List String} (same : ∀ u ∈ order, os u = os' u) :
    startUnits split root os acc d order = startUnits split root os' acc d order := by
  induction order generalizing acc d with
  | nil => rfl
  | cons unit rest ih =>
    rw [startUnits, startUnits, same unit (List.mem_cons_self ..)]
    exact ih _ _ fun u member => same u (List.mem_cons_of_mem _ member)

end Daemon

namespace System

variable {s t u : System} {a : Action}

/-- The call has attempted the units that are no longer to come, from the state `d` on. -/
structure Attempted (split : String → Option (List String)) (d : Daemon) (caller : Caller) (root : String)
    (units : List String) (s : System) : Prop where
  held : s.lock = .resume caller root s.lock.pending
  alike : ∃ done os, units = done ++ s.lock.pending ∧
    s.Alike (Daemon.startUnits split root os none d done).2

/-- Inside a call the next unit is attempted, or the step is none of the call. -/
theorem step_starting {caller : Caller} {root unit : String} {rest : List String}
    (held : s.lock = .starting caller root (unit :: rest)) (h : s.step split a = some t) :
    t.lock = s.lock ∧ (s.moveOf a).Outside ∨
      t.lock = .resume caller root rest ∧ ∃ spawn, s.moveOf a = .start unit spawn := by
  cases own : s.Holds a with
  | false => exact .inl (step_bystander (by simp [held]) own h)
  | true =>
    obtain ⟨c, hcontrol, _, lock, _⟩ := step_inv h
    cases a with
    | startUnit spawn =>
      obtain ⟨_, _, _, _, held', rfl⟩ := control_startUnit hcontrol
      rw [held] at held'
      cases held'
      exact .inr ⟨lock, spawn, by simp [moveOf, held]⟩
    | restartWakes =>
      obtain ⟨_, restarting, _⟩ := control_restartWakes hcontrol
      rw [held] at restarting; cases restarting
    | stopNext =>
      obtain ⟨_, _, stopping, _⟩ := control_stopNext hcontrol
      rw [held] at stopping; cases stopping
    | loopReleases | shutdown =>
      obtain ⟨possible, _⟩ := Option.ite_none_right_eq_some.mp hcontrol
      rw [held] at possible; cases possible.1
    | mainReleases =>
      obtain ⟨stopping, _⟩ := Option.ite_none_right_eq_some.mp hcontrol
      rw [held] at stopping; cases stopping
    | handleSingleEvent => simp [Holds, held] at own
    | _ => cases own

theorem Attempted.starting {d : Daemon} {caller : Caller} {root : String} {units : List String}
    (h : Attempted split d caller root units s) (under : s.lock.pending ≠ []) :
    ∃ unit rest, s.lock.pending = unit :: rest ∧ s.lock = .starting caller root (unit :: rest) := by
  obtain ⟨unit, rest, queued⟩ := List.exists_cons_of_ne_nil under
  exact ⟨unit, rest, queued, h.held.trans (by rw [queued]; rfl)⟩

theorem Attempted.step {d : Daemon} {caller : Caller} {root : String} {units : List String}
    (h : Attempted split d caller root units s) (nodup : units.Nodup) (under : s.lock.pending ≠ [])
    (hstep : s.step split a = some t) : Attempted split d caller root units t := by
  obtain ⟨unit, rest, queued, held⟩ := h.starting under
  obtain ⟨done, os, order, alike⟩ := h.alike
  cases step_starting held hstep with
  | inl beside =>
    obtain ⟨lock, outside⟩ := beside
    rw [← lock] at order
    exact ⟨by rw [lock]; exact h.held, done, os, order, ((step_moved hstep).outside_alike outside).trans alike⟩
  | inr attempts =>
    obtain ⟨lock, spawn, attempt⟩ := attempts
    refine ⟨by rw [lock, Lock.resume_pending], done ++ [unit], Function.update os unit spawn, ?_, ?_⟩
    · rw [order, queued, lock, Lock.resume_pending, List.append_assoc, List.singleton_append]
    · -- the units before are others, so their answers are still those of `os`
      rw [order, queued] at nodup
      have fresh : unit ∉ done := fun member =>
        (List.nodup_append.mp nodup).2.2 unit member unit (List.mem_cons_self ..) rfl
      have before : Daemon.startUnits split root os none d done =
          Daemon.startUnits split root (Function.update os unit spawn) none d done :=
        Daemon.startUnits_os root none d fun u member =>
          (Function.update_of_ne (fun same : u = unit => fresh (same ▸ member)) ..).symm
      rw [step_single hstep attempt, Daemon.startUnits_concat, ← before, Function.update_self]
      exact alike.single unit spawn

theorem Attempted.run {d : Daemon} {caller : Caller} {root : String} {units : List String}
    {trace : List (System × Action)} (h : Attempted split d caller root units s) (nodup : units.Nodup)
    (run : Exec (System.step split) s trace t) (under : ∀ p ∈ trace, p.1.lock.pending ≠ []) :
    Attempted split d caller root units t :=
  (run.invariant_under (fun _ _ _ attempted under hstep => attempted.step nodup under hstep) under h).1

/-- With no unit to come the call has done what `start_process` does. -/
theorem Attempted.complete {d : Daemon} {caller : Caller} {root : String}
    (h : Attempted split d caller root (startUnitsOf d.processes root) s) (finished : s.lock.pending = []) :
    ∃ os result d', d.startProcess split root os = some (result, d') ∧ s.Alike d' ∧
      (root ∈ d.processes → (result.isOk = true ↔ s.isRunning root = true)) := by
  obtain ⟨done, os, order, alike⟩ := h.alike
  rw [finished, List.append_nil] at order
  subst order
  by_cases known : root ∈ d.processes
  · obtain ⟨order, resolved, _⟩ := resolveStartOrder_known known
    obtain ⟨result, call, ok⟩ := Daemon.startProcess_resolved split resolved os
    rw [startUnitsOf_resolved resolved] at alike
    refine ⟨os, result, _, call, alike, fun _ => ?_⟩
    obtain ⟨_, _, call', _, _, running, _, ok'⟩ := (Daemon.startProcess_spec split d root os).2 known
    cases call.symm.trans call'
    rw [alike.isRunning, running, ok']
    exact or_congr_right (and_iff_right Relation.ReflTransGen.refl).symm
  · rw [startUnitsOf_unknown known] at alike
    exact ⟨os, _, d, (Daemon.startProcess_spec split d root os).1 known, alike, fun member => absurd member known⟩

theorem step_calls_processes (h : s.step split a = some t) {root : String} (called : s.Calls a root) :
    t.processes = s.processes := by
  cases a with
  | startProcess | restartWakes =>
    have moved : Daemon.Moved split s.toDaemon .idle t.toDaemon := step_moved h
    exact moved.outside_processes trivial
  | handleSingleEvent =>
    obtain ⟨sender, rest, queued⟩ := called
    rw [(step_moved h).onHead queued]
    rfl
  | _ => cases called

theorem Attempted.begin {d : Daemon} {caller : Caller} {root : String}
    (lock : s.lock = .resume caller root (startUnitsOf d.processes root)) (alike : s.Alike d) :
    Attempted split d caller root (startUnitsOf d.processes root) s := by
  have pending : s.lock.pending = startUnitsOf d.processes root := by rw [lock, Lock.resume_pending]
  exact ⟨by rw [pending, lock], [], fun _ => none, pending.symm, alike⟩

/-- A call of `start_process`, made by a client, inside a restart or by the event loop, and whatever
    comes between its attempts: it gives the lock back with the records and the spawns that the
    function computes from the state the call began in, for some answers of the operating system;
    its result says whether the root is running. -/
theorem start_serial (h : s.step split a = some t) {root : String} (called : s.Calls a root)
    {trace : List (System × Action)} (run : Exec (step split) t trace u)
    (under : ∀ p ∈ trace, p.1.lock.pending ≠ []) (finished : u.lock.pending = []) :
    (u.lock = .free ∨ u.lock = .draining) ∧ ∃ os result d', t.startProcess split root os = some (result, d') ∧
      u.processes = d'.processes ∧ u.programs = d'.programs ∧
      (root ∈ t.processes → (result.isOk = true ↔ u.isRunning root = true)) := by
  obtain ⟨caller, lock⟩ := step_calls h called
  rw [← step_calls_processes h called] at lock
  have begun : Attempted split t.toDaemon caller root (startUnitsOf t.processes root) t := .begin lock (.refl _)
  have done := begun.run (startUnitsOf_nodup root) run under
  obtain ⟨os, result, d', call, alike, ok⟩ := done.complete finished
  refine ⟨?_, os, result, d', call, alike.processes, alike.programs, ok⟩
  rw [done.held, finished]
  cases caller
  · exact .inl rfl
  · exact .inr rfl

/-- The dependency dies before the root is attempted. -/
theorem start_serial_dies : ∃ (t u : System) (trace : List (System × Action)),
    Exec (step oneWord) t trace u ∧ trace.length = 3 ∧ u.programs = ["db", "web"] ∧
    (u.lock = .free ∨ u.lock = .draining) ∧ ∃ os result d',
      t.startProcess oneWord "web" os = some (result, d') ∧ u.processes = d'.processes ∧
      u.programs = d'.programs ∧ ("web" ∈ t.processes → (result.isOk = true ↔ u.isRunning "web" = true)) := by
  have begun : (step oneWord (boot [("web", { command := "web", after := some ["db"] }),
    ("db", { command := "db" })]) (.startProcess "web")).isSome = true := rfl
  have run : Exec (step oneWord) ((step oneWord _ _).get begun) _ _ := .tail (a := .startUnit (some 8))
    (.tail (a := .childExits 0 (some 1)) (.tail (a := .startUnit (some 7)) .refl rfl) rfl) rfl
  refine ⟨_, _, _, run, rfl, rfl, start_serial (Option.some_get begun).symm rfl run ?_ rfl⟩
  exact List.forall_mem_cons.mpr ⟨nofun, List.forall_mem_cons.mpr ⟨nofun, List.forall_mem_singleton.mpr nofun⟩⟩

/-! ## Restarts -/

/-- A program that was stopped runs again only with a child of its own that came later. -/
def Fresh (name : String) (count : Nat) (d : Daemon) : Prop :=
  count ≤ d.children.length ∧
    (d.isRunning name = false ∨ ∃ task, d.latest name = some task ∧ count ≤ task)

theorem Fresh.moved {d d' : Daemon} {move : Move} {name : String} {count : Nat} (h : Fresh name count d)
    (moved : Daemon.Moved split d move d') : Fresh name count d' := by
  cases moved.effect with
  | keeps keeps =>
    rw [Fresh, Daemon.children_length keeps.programs, keeps.latest]
    exact ⟨h.1, h.2.imp_left keeps.stopped⟩
  | launches other process command pid _ launches launched =>
    rw [launched, Fresh, Daemon.launch_latest, Daemon.launch_children, List.length_append]
    refine ⟨Nat.le_add_right_of_le h.1, ?_⟩
    by_cases same : other = name
    · exact .inr ⟨d.children.length, if_pos same, h.1⟩
    · rw [if_neg same, Daemon.isRunning_insert_of_ne Daemon.launch_processes (Ne.symm same)]
      exact h.2

/-- A restart under way is in its sleep or in its call. -/
def Restarting (split : String → Option (List String)) (d : Daemon) (name : String) (s : System) : Prop :=
  s.lock = .restarting name ∧ s.Alike d ∨ Attempted split d .request name (startUnitsOf d.processes name) s

theorem Restarting.step {d : Daemon} {name : String} (h : Restarting split d name s)
    (busy : s.lock ≠ .free) (hstep : s.step split a = some t) : Restarting split d name t := by
  cases h with
  | inl sleeps =>
    obtain ⟨held, alike⟩ := sleeps
    cases own : s.Holds a with
    | false =>
      obtain ⟨lock, outside⟩ := step_bystander busy own hstep
      exact .inl ⟨lock.trans held, ((step_moved hstep).outside_alike outside).trans alike⟩
    | true =>
      obtain ⟨c, hcontrol, _, lock, _⟩ := step_inv hstep
      cases a with
      | restartWakes =>
        obtain ⟨_, held', hbegin⟩ := control_restartWakes hcontrol
        rw [held] at held'
        cases held'
        have wakes : Daemon.Moved split s.toDaemon .idle t.toDaemon := step_moved hstep
        refine .inr (.begin ?_ ((wakes.outside_alike trivial).trans alike))
        rw [lock, beginStart_lock hbegin, alike.processes]
      | startUnit =>
        obtain ⟨_, _, _, _, starting, _⟩ := control_startUnit hcontrol
        rw [held] at starting; cases starting
      | stopNext =>
        obtain ⟨_, _, stopping, _⟩ := control_stopNext hcontrol
        rw [held] at stopping; cases stopping
      | loopReleases | shutdown =>
        obtain ⟨possible, _⟩ := Option.ite_none_right_eq_some.mp hcontrol
        rw [held] at possible; cases possible.1
      | mainReleases =>
        obtain ⟨stopping, _⟩ := Option.ite_none_right_eq_some.mp hcontrol
        rw [held] at stopping; cases stopping
      | handleSingleEvent => simp [Holds, held] at own
      | _ => cases own
  | inr calls =>
    refine .inr (calls.step (startUnitsOf_nodup name) (fun finished => busy ?_) hstep)
    rw [calls.held, finished]
    rfl

end System

end Ciron
