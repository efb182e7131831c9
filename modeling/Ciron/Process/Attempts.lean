import Ciron.Process.Start

/-! # The sequence of attempts

What the history tells of the attempts to spawn, in the order in which they were made.
`start_process` attempts the programs of its start order that are not running, in that
order (`startProcess_run`). -/

namespace Ciron

open Relation

/-- The program that an attempt was made for, and whether the spawn went through. -/
def Note.attempt? : Note → Option (String × Bool)
  | .spawned name _ => some (name, true)
  | .spawnFailed name => some (name, false)
  | .posted _ | .handled _ | .signalled _ _ | .stopped _ => none

namespace Daemon

variable (split : String → Option (List String))

/-- Oldest first. -/
def attemptsMade (d : Daemon) : List (String × Bool) :=
  (d.history.filterMap Note.attempt?).reverse

theorem map_attempt_fst (units : List String) (outcome : String → Bool) :
    (units.map fun u => (u, outcome u)).map Prod.fst = units := by
  rw [List.map_map]
  exact List.map_id'' (fun _ => rfl) _

theorem launch_attemptsMade (d : Daemon) (name : String) (process : ManagedProcess) (command : Command)
    (pid : Nat) :
    (d.launch name process command pid).attemptsMade = d.attemptsMade ++ [(name, true)] := by
  simp only [attemptsMade, launch, setProcess_history, post_history, note_history]
  split <;> simp [List.filterMap_cons, Note.attempt?]

theorem startProcessSingle_attemptsMade (d : Daemon) {name : String} (known : name ∈ d.processes)
    (spawn : Option Nat) :
    (startProcessSingle split d name spawn).2.attemptsMade = d.attemptsMade ++
      if d.isRunning name then [] else [(name, spawnSucceeds split d.processes name spawn)] := by
  have outcome := startProcessSingle_outcome split d name spawn
  generalize startProcessSingle split d name spawn = ran at outcome ⊢
  cases outcome with
  | unknown absent => exact absurd known (Finmap.lookup_eq_none.mp absent)
  | alreadyRunning process found running => simp [isRunning, found, running]
  | spawnFails process error found stopped fails =>
    simp [isRunning, found, stopped, fails, attemptsMade, Note.attempt?]
  | launches process command pid found stopped built spawned =>
    rw [launch_attemptsMade]
    simp [isRunning, found, stopped, spawnSucceeds, configOf, built, spawned, Except.isOk, Except.toBool]

theorem startUnits_configs (root : String) (os : String → Option Nat) (acc : Option (Except String Unit))
    (d : Daemon) (order : List String) :
    configOf (startUnits split root os acc d order).2.processes = configOf d.processes := by
  induction order generalizing acc d with
  | nil => rfl
  | cons unit rest ih => rw [startUnits, ih, startUnit_daemon, startProcessSingle_configs]

/-- Every program of the order that is not running when the loop begins is attempted in its
    turn. -/
theorem startUnits_attemptsMade (root : String) (os : String → Option Nat) {order : List String}
    (hnodup : order.Nodup) (acc : Option (Except String Unit)) (d : Daemon)
    (known : ∀ u ∈ order, u ∈ d.processes) :
    (startUnits split root os acc d order).2.attemptsMade = d.attemptsMade ++
      (order.filter fun u => !d.isRunning u).map fun u => (u, spawnSucceeds split d.processes u (os u)) := by
  induction order generalizing acc d with
  | nil => simp [startUnits]
  | cons unit rest ih =>
    obtain ⟨fresh, hnodup⟩ := List.nodup_cons.mp hnodup
    have configs := startProcessSingle_configs split d unit (os unit)
    have known' : ∀ u ∈ rest, u ∈ (startProcessSingle split d unit (os unit)).2.processes :=
      fun u member => (mem_congr configs u).mpr (known u (List.mem_cons_of_mem _ member))
    -- the attempt for this unit leaves the others running or not as they were
    have others : (rest.filter fun u => !(startProcessSingle split d unit (os unit)).2.isRunning u) =
        rest.filter fun u => !d.isRunning u := by
      refine List.filter_congr fun u member => ?_
      have different : u ≠ unit := fun same => fresh (same ▸ member)
      rw [isRunning, startProcessSingle_lookup_of_ne split d unit (os unit) different, ← isRunning]
    simp only [startUnits, startUnit_daemon]
    rw [ih hnodup _ _ known', others,
      startProcessSingle_attemptsMade split d (known unit (List.mem_cons_self ..)),
      spawnSucceeds_congr split configs]
    cases hrunning : d.isRunning unit <;> simp [hrunning]

/-- A call for a known program, seen as one pass over its start order. -/
theorem startProcess_run {d : Daemon} {name : String} (known : name ∈ d.processes)
    (os : String → Option Nat) :
    ∃ order result d', resolveStartOrder d.processes name = some (.ok order) ∧
      d.startProcess split name os = some (result, d') ∧
      configOf d'.processes = configOf d.processes ∧
      (∀ u, d'.isRunning u = (d.isRunning u ||
        (decide (u ∈ order) && spawnSucceeds split d.processes u (os u)))) ∧
      d'.attemptsMade = d.attemptsMade ++
        (order.filter fun u => !d.isRunning u).map fun u => (u, spawnSucceeds split d.processes u (os u)) := by
  obtain ⟨order, resolved, hnodup, hmem⟩ := resolveStartOrder_known known
  obtain ⟨result, hcall, _⟩ := startProcess_resolved split resolved os
  obtain ⟨_, hrunning, _⟩ := startUnits_spec split name os order hnodup none d
  exact ⟨order, result, _, resolved, hcall, startUnits_configs split name os none d order, hrunning,
    startUnits_attemptsMade split name os hnodup none d fun u member => ((hmem u).mp member).known known⟩

/-! ## What a call pulls in -/

/-- `dep` is configured and listed in the `wants` of `name`. -/
def Wants (processes : ProcessTable) (name dep : String) : Prop :=
  ∃ config, configOf processes name = some config ∧ dep ∈ config.wants.getD [] ∧ dep ∈ processes

/-- `start_process` attempts, in the start order, the programs that are not running and that
    known edges of either list lead to. -/
theorem startProcess_attempts_closure (d : Daemon) {root : String} (hroot : root ∈ d.processes)
    (os : String → Option Nat) :
    ∃ order result d' attempted, resolveStartOrder d.processes root = some (.ok order) ∧
      d.startProcess split root os = some (result, d') ∧
      d'.attemptsMade = d.attemptsMade ++ attempted ∧
      attempted.map Prod.fst = order.filter (fun u => !d.isRunning u) ∧
      ∀ u, u ∈ attempted.map Prod.fst ↔ InClosure d.processes root u ∧ d.isRunning u = false := by
  obtain ⟨order, result, d', resolved, hcall, _, _, hattempts⟩ := startProcess_run split hroot os
  obtain ⟨_, _, hmem⟩ := resolveStartOrder_ok resolved
  refine ⟨order, result, d', _, resolved, hcall, hattempts, map_attempt_fst .., fun u => ?_⟩
  rw [map_attempt_fst, List.mem_filter, hmem, Bool.not_eq_true']

/-- `web` comes after `db` and wants nothing. -/
def onlyAfter : Daemon :=
  loadFromConfig
    [("web", { command := "web", autostart := true, after := some ["db"] }), ("db", { command := "db" })]

theorem startProcess_attempts_closure_onlyAfter :
    ∃ order result d' attempted, resolveStartOrder onlyAfter.processes "web" = some (.ok order) ∧
      onlyAfter.startProcess (fun command => some [command]) "web" (fun _ => some 7) = some (result, d') ∧
      d'.attemptsMade = onlyAfter.attemptsMade ++ attempted ∧
      attempted.map Prod.fst = order.filter (fun u => !onlyAfter.isRunning u) ∧
      ∀ u, u ∈ attempted.map Prod.fst ↔
        InClosure onlyAfter.processes "web" u ∧ onlyAfter.isRunning u = false :=
  startProcess_attempts_closure _ onlyAfter (by decide) _

/-- Starting `web` starts `db`, which no `wants` edges lead to. -/
theorem after_starts_dependency :
    "web" ∈ onlyAfter.processes ∧
      (∃ result d', onlyAfter.startProcess (fun command => some [command]) "web" (fun _ => some 7) =
        some (result, d') ∧ d'.attemptsMade = [("db", true), ("web", true)]) ∧
      ¬ ReflTransGen (Wants onlyAfter.processes) "web" "db" := by
  refine ⟨by decide, ⟨_, _, rfl, rfl⟩, fun reaches => ?_⟩
  cases ReflTransGen.cases_head reaches with
  | inl same => exact absurd same (by decide)
  | inr step =>
    obtain ⟨dep, ⟨config, hconfig, listed, _⟩, _⟩ := step
    cases hconfig
    cases listed

end Daemon

end Ciron
