import Ciron.Process.StartOrder

/-! # Starting a program with its dependencies

`start_process` walks the start order of its root.  The root's own attempt decides the
result; a dependency that already runs is passed over, and one that fails only leaves a
warning.

The loop body is `startUnit`.  What one attempt does is stated once, field by field, for
`start_process_single`; the loop lemma `startUnits_spec` adds up the attempts over an order
without duplicates.
-/

namespace Ciron

variable (split : String → Option (List String))

namespace Daemon

/-- One turn of the loop of `start_process`; the result is that of the root, if the unit is
    the root. -/
def startUnit (d : Daemon) (root unit : String) (spawn : Option Nat) :
    Option (Except String Unit) × Daemon :=
  if unit = root then
    let (result, d) := startProcessSingle split d unit spawn
    (some result, d)
  else if d.isRunning unit then (none, d)
  else (none, (startProcessSingle split d unit spawn).2)

/-- The loop, with the `root_result` found so far. -/
def startUnits (root : String) (os : String → Option Nat) :
    Option (Except String Unit) → Daemon → List String → Option (Except String Unit) × Daemon
  | rootResult, d, [] => (rootResult, d)
  | rootResult, d, unit :: rest =>
    let (result, d) := d.startUnit split root unit (os unit)
    startUnits root os (result.or rootResult) d rest

/-- `start_process`.  The outer `none` is a panic: in the resolver, or of the final
    `expect`.  `os` answers the spawns. -/
def startProcess (d : Daemon) (name : String) (os : String → Option Nat) :
    Option (Except String Unit × Daemon) :=
  match resolveStartOrder d.processes name with
  | none => none
  | some (.error e) => some (.error e, d)
  | some (.ok order) =>
    match startUnits split name os none d order with
    | (none, _) => none
    | (some result, d) => some (result, d)

/-- The attempts to spawn `name` that the history records. -/
def attempts (d : Daemon) (name : String) : Nat :=
  d.history.countP fun
    | .spawned other _ | .spawnFailed other => other = name
    | _ => false

/-! ## One attempt -/

section

variable {split} {d : Daemon} {name : String} {process : ManagedProcess} {command : Command}
  {pid : Nat}

@[simp] theorem launch_processes : (d.launch name process command pid).processes =
    d.processes.insert name
      { process with pid := some pid, monitorHandle := some d.children.length, running := true } := by
  simp [launch]

theorem launch_attempts (other : String) :
    (d.launch name process command pid).attempts other =
      d.attempts other + if other = name then 1 else 0 := by
  simp only [attempts, launch, setProcess_history, post_history, note_history, @eq_comm _ other name]
  split <;> simp [List.countP_cons]

theorem spawnFailed_attempts (other : String) :
    (d.note (.spawnFailed name)).attempts other = d.attempts other + if other = name then 1 else 0 := by
  simp [attempts, List.countP_cons, @eq_comm _ other name]

end

section

variable (d : Daemon) (name : String) (spawn : Option Nat)

theorem isRunning_of_found {d : Daemon} {name : String} {process : ManagedProcess}
    (found : d.processes.lookup name = some process) : d.isRunning name = process.running := by
  simp [isRunning, found]

theorem startProcessSingle_configs :
    configOf (startProcessSingle split d name spawn).2.processes = configOf d.processes := by
  have outcome := startProcessSingle_outcome split d name spawn
  generalize startProcessSingle split d name spawn = ran at outcome ⊢
  cases outcome with
  | unknown | alreadyRunning | spawnFails => rfl
  | launches process command pid found =>
    rw [launch_processes]
    exact configOf_insert found rfl

theorem startProcessSingle_lookup_of_ne {other : String} (different : other ≠ name) :
    (startProcessSingle split d name spawn).2.processes.lookup other = d.processes.lookup other := by
  have outcome := startProcessSingle_outcome split d name spawn
  generalize startProcessSingle split d name spawn = ran at outcome ⊢
  cases outcome with
  | unknown | alreadyRunning | spawnFails => rfl
  | launches => simp [different]

/-- An attempt that is not made, or fails, changes no record. -/
theorem startProcessSingle_unchanged (idle : d.isRunning name = true ∨
      spawnSucceeds split d.processes name spawn = false) :
    (startProcessSingle split d name spawn).2.processes = d.processes := by
  have outcome := startProcessSingle_outcome split d name spawn
  generalize startProcessSingle split d name spawn = ran at outcome ⊢
  cases outcome with
  | unknown | alreadyRunning | spawnFails => rfl
  | launches process command pid found stopped built spawned =>
    cases idle with
    | inl running => rw [isRunning_of_found found, stopped] at running; cases running
    | inr fails => simp [spawnSucceeds, configOf, found, built, spawned, Except.isOk, Except.toBool] at fails

theorem startProcessSingle_running :
    (startProcessSingle split d name spawn).2.isRunning name =
      (d.isRunning name || spawnSucceeds split d.processes name spawn) := by
  have outcome := startProcessSingle_outcome split d name spawn
  generalize startProcessSingle split d name spawn = ran at outcome ⊢
  cases outcome with
  | unknown absent => simp [isRunning, spawnSucceeds, configOf, absent]
  | alreadyRunning process found running => simp [isRunning, found, running]
  | spawnFails process error found stopped fails => simp [isRunning, found, stopped, fails]
  | launches process command pid found stopped built spawned =>
    simp [isRunning, spawnSucceeds, configOf, found, built, spawned, Except.isOk, Except.toBool]

theorem startProcessSingle_result :
    (startProcessSingle split d name spawn).1.isOk =
      (d.isRunning name || spawnSucceeds split d.processes name spawn) := by
  have outcome := startProcessSingle_outcome split d name spawn
  generalize startProcessSingle split d name spawn = ran at outcome ⊢
  cases outcome with
  | unknown absent =>
    simp [isRunning, spawnSucceeds, configOf, absent, Except.isOk, Except.toBool]
  | alreadyRunning process found running => simp [isRunning, found, running, Except.isOk, Except.toBool]
  | spawnFails process error found stopped fails =>
    simp [isRunning, found, stopped, fails, Except.isOk, Except.toBool]
  | launches process command pid found stopped built spawned =>
    simp [isRunning, spawnSucceeds, configOf, found, built, spawned, Except.isOk, Except.toBool]

theorem startProcessSingle_attempts (other : String) :
    (startProcessSingle split d name spawn).2.attempts other =
      d.attempts other +
        if other = name ∧ name ∈ d.processes ∧ d.isRunning name = false then 1 else 0 := by
  have outcome := startProcessSingle_outcome split d name spawn
  generalize startProcessSingle split d name spawn = ran at outcome ⊢
  cases outcome with
  | unknown absent => simp [Finmap.lookup_eq_none.mp absent]
  | alreadyRunning process found running => simp [isRunning, found, running]
  | spawnFails process error found stopped =>
    rw [spawnFailed_attempts]
    simp [isRunning, found, stopped, Finmap.mem_of_lookup_eq_some found]
  | launches process command pid found stopped =>
    rw [launch_attempts]
    simp [isRunning, found, stopped, Finmap.mem_of_lookup_eq_some found]

/-- The guard of the loop repeats the one of `start_process_single`. -/
theorem startUnit_daemon (root unit : String) :
    (d.startUnit split root unit spawn).2 = (startProcessSingle split d unit spawn).2 := by
  unfold startUnit
  split
  · rfl
  · split
    · rename_i running
      -- passed over by the loop: `start_process_single` would have done nothing either
      have outcome := startProcessSingle_outcome split d unit spawn
      generalize startProcessSingle split d unit spawn = ran at outcome ⊢
      cases outcome with
      | unknown | alreadyRunning => rfl
      | spawnFails process error found stopped | launches process command pid found stopped =>
        rw [isRunning_of_found found, stopped] at running; cases running
    · rfl

end

/-! ## The loop -/

theorem spawnSucceeds_congr {processes processes' : ProcessTable}
    (configs : configOf processes' = configOf processes) :
    spawnSucceeds split processes' = spawnSucceeds split processes := by
  funext name spawn
  simp only [spawnSucceeds, configs]

theorem mem_congr {processes processes' : ProcessTable}
    (configs : configOf processes' = configOf processes) (name : String) :
    name ∈ processes' ↔ name ∈ processes := by
  rw [mem_iff_configOf, mem_iff_configOf, configs]

/-- What the loop does over an order without duplicates, program by program. -/
theorem startUnits_spec (root : String) (os : String → Option Nat) (order : List String)
    (hnodup : order.Nodup) (acc : Option (Except String Unit)) (d : Daemon) :
    let ran := startUnits split root os acc d order
    (∀ u, (u ∉ order ∨ d.isRunning u = true ∨ spawnSucceeds split d.processes u (os u) = false) →
      ran.2.processes.lookup u = d.processes.lookup u) ∧
    (∀ u, ran.2.isRunning u =
      (d.isRunning u || (decide (u ∈ order) && spawnSucceeds split d.processes u (os u)))) ∧
    (∀ u, ran.2.attempts u =
      d.attempts u + if u ∈ order ∧ u ∈ d.processes ∧ d.isRunning u = false then 1 else 0) ∧
    (root ∈ order → ∃ result, ran.1 = some result ∧
      result.isOk = (d.isRunning root || spawnSucceeds split d.processes root (os root))) ∧
    (root ∉ order → ran.1 = acc) := by
  induction order generalizing acc d with
  | nil => simp [startUnits]
  | cons unit rest ih =>
    obtain ⟨fresh, hnodup⟩ := List.nodup_cons.mp hnodup
    have hd := startUnit_daemon split d (os unit) root unit
    have configs := startProcessSingle_configs split d unit (os unit)
    have lookups : ∀ u, u ≠ unit → (startProcessSingle split d unit (os unit)).2.processes.lookup u =
        d.processes.lookup u :=
      fun u different => startProcessSingle_lookup_of_ne split d unit (os unit) different
    obtain ⟨hlookup, hrunning, hattempts, hroot, hother⟩ :=
      ih hnodup ((d.startUnit split root unit (os unit)).1.or acc)
        (d.startUnit split root unit (os unit)).2
    rw [hd] at hlookup hrunning hattempts hroot hother
    simp only [spawnSucceeds_congr split configs, mem_congr configs] at hlookup hrunning hattempts hroot
    have runningElsewhere : ∀ u, u ≠ unit →
        (startProcessSingle split d unit (os unit)).2.isRunning u = d.isRunning u := by
      intro u different
      rw [isRunning, lookups u different, ← isRunning]
    simp only [startUnits, hd]
    -- the unit of this turn is not on the rest of the order, so each program meets one attempt
    refine ⟨?_, ?_, ?_, ?_, ?_⟩
    · intro u hu
      by_cases same : u = unit
      · subst same
        rw [hlookup u (.inl fresh), startProcessSingle_unchanged split d u (os u)]
        simpa using hu
      · rw [hlookup u ?_, lookups u same]
        rw [runningElsewhere u same]
        simpa [same] using hu
    · intro u
      rw [hrunning]
      by_cases same : u = unit
      · subst same; simp [startProcessSingle_running, fresh]
      · simp [runningElsewhere u same, same]
    · intro u
      rw [hattempts, startProcessSingle_attempts]
      by_cases same : u = unit
      · subst same; simp [fresh]
      · simp [runningElsewhere u same, same]
    · intro member
      by_cases same : root = unit
      · -- the root itself: later units leave its result alone
        subst same
        refine ⟨(startProcessSingle split d root (os root)).1, ?_, startProcessSingle_result split d root (os root)⟩
        rw [hother fresh]
        simp [startUnit]
      · obtain ⟨result, hresult, hok⟩ := hroot ((List.mem_cons.mp member).resolve_left same)
        exact ⟨result, hresult, by rw [hok, runningElsewhere root same]⟩
    · intro absent
      rw [hother fun member => absent (List.mem_cons_of_mem _ member)]
      have different : unit ≠ root := fun heq => absent (heq ▸ List.mem_cons_self ..)
      simp only [startUnit, if_neg different]
      split <;> rfl

/-! ## The whole call -/

/-- The resolver lists the root, so the loop leaves a result. -/
theorem startUnits_resolved {d : Daemon} {name : String} {order : List String}
    (resolved : resolveStartOrder d.processes name = some (.ok order)) (os : String → Option Nat) :
    ∃ result d', startUnits split name os none d order = (some result, d') ∧
      result.isOk = (d.isRunning name || spawnSucceeds split d.processes name (os name)) := by
  obtain ⟨_, hnodup, hmem⟩ := resolveStartOrder_ok resolved
  obtain ⟨_, _, _, hroot, _⟩ := startUnits_spec split name os order hnodup none d
  obtain ⟨result, hresult, hok⟩ := hroot ((hmem name).mpr .refl)
  exact ⟨result, _, Prod.ext hresult rfl, hok⟩

theorem startProcess_resolved {d : Daemon} {name : String} {order : List String}
    (resolved : resolveStartOrder d.processes name = some (.ok order)) (os : String → Option Nat) :
    ∃ result, d.startProcess split name os = some (result, (startUnits split name os none d order).2) ∧
      result.isOk = (d.isRunning name || spawnSucceeds split d.processes name (os name)) := by
  obtain ⟨result, d', hran, hok⟩ := startUnits_resolved split resolved os
  exact ⟨result, by simp only [startProcess, resolved, hran], hok⟩

/-- `start_process` from any manager state: an unknown name is an error that changes
    nothing.  Otherwise the call attempts one spawn for each program of the root's closure
    that was not running and none for any other; the programs running afterwards are those
    that ran before and those of the closure whose spawn succeeded; all other records are
    untouched; and the result is that of the root alone. -/
theorem startProcess_spec (d : Daemon) (name : String) (os : String → Option Nat) :
    (name ∉ d.processes → d.startProcess split name os = some (.error (notFound name), d)) ∧
    (name ∈ d.processes → ∃ result d', d.startProcess split name os = some (result, d') ∧
      (∀ u, InClosure d.processes name u → d.isRunning u = false →
        d'.attempts u = d.attempts u + 1) ∧
      (∀ u, ¬ InClosure d.processes name u ∨ d.isRunning u = true →
        d'.attempts u = d.attempts u) ∧
      (∀ u, d'.isRunning u = true ↔ d.isRunning u = true ∨
        (InClosure d.processes name u ∧ spawnSucceeds split d.processes u (os u) = true)) ∧
      (∀ u, (¬ InClosure d.processes name u ∨ d.isRunning u = true ∨
          spawnSucceeds split d.processes u (os u) = false) →
        d'.processes.lookup u = d.processes.lookup u) ∧
      (result.isOk = true ↔
        d.isRunning name = true ∨ spawnSucceeds split d.processes name (os name) = true)) := by
  constructor
  · intro unknown
    rw [startProcess, resolveStartOrder_unknown unknown]
  · intro known
    obtain ⟨order, horder, hnodup, hmem⟩ := resolveStartOrder_known known
    obtain ⟨hlookup, hrunning, hattempts, _, _⟩ :=
      startUnits_spec split name os order hnodup none d
    obtain ⟨result, hcall, hok⟩ := startProcess_resolved split horder os
    refine ⟨result, (startUnits split name os none d order).2, hcall, ?_, ?_, ?_, ?_, ?_⟩
    · intro u closure stopped
      rw [hattempts, if_pos ⟨(hmem u).mpr closure, closure.known known, stopped⟩]
    · intro u passedOver
      rw [hattempts, if_neg, Nat.add_zero]
      rintro ⟨member, _, stopped⟩
      cases passedOver with
      | inl outside => exact outside ((hmem u).mp member)
      | inr running => rw [stopped] at running; cases running
    · intro u
      rw [hrunning]
      simp [hmem]
    · intro u untouched
      exact hlookup u (by simpa [hmem] using untouched)
    · simp [hok]

end Daemon

end Ciron
