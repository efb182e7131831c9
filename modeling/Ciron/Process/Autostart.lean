import Ciron.Process.Attempts
import Ciron.Process.OrderShape

/-! # The boot

`start_all_autostart` calls `start_process` for every program marked `autostart`, in
whatever order the map yields them, and passes over those that run already.

* `boot_ordered`: where `after` has no cycle, no program is attempted before the programs
  on its `after` list, across all the calls.
* `boot_confluent`: neither the order of the calls nor what failed in them shows in the set
  of programs running afterwards.
-/

namespace Ciron

open Relation Ciron.Graph

/-- `keys` is the order in which the map yields its entries. -/
def autostartPrograms (processes : ProcessTable) (keys : List String) : List String :=
  keys.filter fun name => (configOf processes name).any (·.autostart)

/-- `u` is in the closure of a program marked `autostart`. -/
def Boots (processes : ProcessTable) (u : String) : Prop :=
  ∃ root config, configOf processes root = some config ∧ config.autostart = true ∧
    InClosure processes root u

namespace Daemon

variable (split : String → Option (List String))

/-- The loop of `start_all_autostart`; `os root` answers the spawns of the call for `root`. -/
def startPrograms (os : String → String → Option Nat) : Daemon → List String → Option Daemon
  | d, [] => some d
  | d, name :: rest =>
    if d.isRunning name then startPrograms os d rest
    else
      match d.startProcess split name (os name) with
      | none => none
      -- an error is logged, and the next program has its turn
      | some (_, d) => startPrograms os d rest

def startAllAutostart (d : Daemon) (keys : List String) (os : String → String → Option Nat) :
    Option Daemon :=
  startPrograms split os d (autostartPrograms d.processes keys)

/-- The rule of the loop: what holds of the programs done so far and the manager's state is
    kept by passing a running program over and by a call. -/
theorem startPrograms_rule (os : String → String → Option Nat) (P : List String → Daemon → Prop)
    (programs : List String)
    (passesOver : ∀ roots d, ∀ name ∈ programs, P roots d → d.isRunning name = true → P (roots ++ [name]) d)
    (calls : ∀ roots d, ∀ name ∈ programs, P roots d →
      ∃ result d', d.startProcess split name (os name) = some (result, d') ∧ P (roots ++ [name]) d')
    (roots : List String) (d : Daemon) (h : P roots d) :
    ∃ d', startPrograms split os d programs = some d' ∧ P (roots ++ programs) d' := by
  induction programs generalizing roots d with
  | nil => exact ⟨d, rfl, by rwa [List.append_nil]⟩
  | cons name rest ih =>
    have later := ih (fun roots d other member => passesOver roots d other (List.mem_cons_of_mem _ member))
      (fun roots d other member => calls roots d other (List.mem_cons_of_mem _ member))
    rw [startPrograms, List.append_cons]
    split
    · rename_i running
      exact later _ d (passesOver roots d name (List.mem_cons_self ..) h running)
    · obtain ⟨result, next, hcall, hnext⟩ := calls roots d name (List.mem_cons_self ..) h
      rw [hcall]
      exact later _ next hnext

theorem mem_autostartPrograms {processes : ProcessTable} {keys : List String} {name : String} :
    name ∈ autostartPrograms processes keys ↔
      name ∈ keys ∧ ∃ config, configOf processes name = some config ∧ config.autostart = true := by
  simp [autostartPrograms, Option.any_eq_true]

theorem known_of_autostart {processes : ProcessTable} {keys : List String} {name : String}
    (h : name ∈ autostartPrograms processes keys) : name ∈ processes := by
  obtain ⟨_, config, hconfig, _⟩ := mem_autostartPrograms.mp h
  exact mem_iff_configOf.mpr ⟨config, hconfig⟩

/-- The loop passes over errors, so it comes to its end. -/
theorem startAllAutostart_total (d : Daemon) (keys : List String) (os : String → String → Option Nat) :
    ∃ d', d.startAllAutostart split keys os = some d' := by
  have calls : ∀ (_ : List String) (e : Daemon), ∀ name ∈ autostartPrograms d.processes keys,
      configOf e.processes = configOf d.processes →
      ∃ result d', e.startProcess split name (os name) = some (result, d') ∧
        configOf d'.processes = configOf d.processes := by
    intro _ e name member configs
    have known := (mem_congr configs name).mpr (known_of_autostart member)
    obtain ⟨_, result, d', _, hcall, configs', _⟩ := startProcess_run split known (os name)
    exact ⟨result, d', hcall, configs'.trans configs⟩
  obtain ⟨d', ran, _⟩ := startPrograms_rule split os (fun _ e => configOf e.processes = configOf d.processes)
    _ (fun _ _ _ _ h _ => h) calls [] d rfl
  exact ⟨d', ran⟩

/-! ## The order of the attempts -/

/-- The boot that began in `start` has made `attempts`, and everything that runs was
    attempted. -/
structure BootsInOrder (start : Daemon) (attempts : List (String × Bool)) (d : Daemon) : Prop where
  configs : configOf d.processes = configOf start.processes
  made : d.attemptsMade = start.attemptsMade ++ attempts
  ordered : Ordered (Afters start.processes) (attempts.map Prod.fst)
  attempted : ∀ u, d.isRunning u = true → u ∈ attempts.map Prod.fst

variable {split}

theorem Afters.congr {processes processes' : ProcessTable} (h : configOf processes' = configOf processes) :
    Afters processes' = Afters processes := by
  funext name dep
  simp only [Afters, mem_iff_configOf, h]

theorem BootsInOrder.startProcess {start d : Daemon} {attempts : List (String × Bool)}
    (h : BootsInOrder start attempts d) (acyclic : ∀ u, ¬ TransGen (Afters start.processes) u u)
    {name : String} (known : name ∈ start.processes) (os : String → Option Nat) :
    ∃ result d' more, d.startProcess split name os = some (result, d') ∧
      BootsInOrder start (attempts ++ more) d' := by
  obtain ⟨order, result, d', resolved, hcall, configs, hrunning, hmade⟩ :=
    startProcess_run split ((mem_congr h.configs name).mpr known) os
  have ordered : Ordered (Afters start.processes) order := by
    have acyclic' : ∀ u, ¬ TransGen (Afters d.processes) u u := by rwa [Afters.congr h.configs]
    rw [← Afters.congr h.configs]
    exact resolveStartOrder_ordered acyclic' resolved
  refine ⟨result, d', _, hcall, configs.trans h.configs, by rw [hmade, h.made, List.append_assoc], ?_, ?_⟩
  · -- what the call passes over runs, so it was attempted in an earlier call
    rw [List.map_append, map_attempt_fst]
    exact h.ordered.append_filter ordered fun u _ passed => h.attempted u (by simpa using passed)
  · intro u running
    rw [List.map_append, map_attempt_fst, List.mem_append]
    cases hold : d.isRunning u with
    | true => exact .inl (h.attempted u hold)
    | false =>
      rw [hrunning, hold] at running
      have member : u ∈ order := of_decide_eq_true (by simp_all)
      exact .inr (List.mem_filter.mpr ⟨member, by rw [hold]; rfl⟩)

/-- The attempts of a boot: each comes after an attempt for every known program on its
    `after` list. -/
theorem boot_ordered {d : Daemon} (idle : ∀ u, d.isRunning u = false)
    (acyclic : ∀ u, ¬ TransGen (Afters d.processes) u u) (keys : List String)
    (os : String → String → Option Nat) :
    ∃ d' attempts, d.startAllAutostart split keys os = some d' ∧
      d'.attemptsMade = d.attemptsMade ++ attempts ∧
      Ordered (Afters d.processes) (attempts.map Prod.fst) := by
  have begins : BootsInOrder d [] d :=
    ⟨rfl, (List.append_nil _).symm, ordered_nil, fun u running => by rw [idle u] at running; cases running⟩
  have calls : ∀ (_ : List String) (e : Daemon), ∀ name ∈ autostartPrograms d.processes keys,
      (∃ attempts, BootsInOrder d attempts e) →
      ∃ result d', e.startProcess split name (os name) = some (result, d') ∧
        ∃ attempts, BootsInOrder d attempts d' := by
    intro _ e name member h
    obtain ⟨attempts, h⟩ := h
    obtain ⟨result, d', more, hcall, h'⟩ := h.startProcess acyclic (known_of_autostart member) (os name)
    exact ⟨result, d', hcall, attempts ++ more, h'⟩
  obtain ⟨d', ran, attempts, h⟩ := startPrograms_rule split os
    (fun _ e => ∃ attempts, BootsInOrder d attempts e) _ (fun _ _ _ _ h _ => h) calls [] d ⟨[], begins⟩
  exact ⟨d', attempts, ran, h.made, h.ordered⟩

theorem onlyAfter_lookup (u : String) : onlyAfter.processes.lookup u =
    if u = "db" then some { config := { command := "db" } }
    else if u = "web" then
      some { config := { command := "web", autostart := true, after := some ["db"] } }
    else none := by
  rw [onlyAfter, loadFromConfig, List.foldl_cons, List.foldl_cons, List.foldl_nil, setProcess_processes,
    lookup_insert_eq, setProcess_processes, lookup_insert_eq]
  rfl

theorem onlyAfter_idle (u : String) : onlyAfter.isRunning u = false := by
  rw [isRunning, onlyAfter_lookup]
  split
  · rfl
  · split <;> rfl

theorem onlyAfter_acyclic (u : String) : ¬ TransGen (Afters onlyAfter.processes) u u := by
  have edges : ∀ {u dep}, Afters onlyAfter.processes u dep → u = "web" ∧ dep = "db" := by
    rintro u dep ⟨config, hconfig, listed, _⟩
    rw [configOf, onlyAfter_lookup] at hconfig
    split at hconfig
    · cases hconfig
      cases listed
    · split at hconfig
      · rename_i web
        cases hconfig
        exact ⟨web, List.mem_singleton.mp listed⟩
      · cases hconfig
  intro cycle
  obtain ⟨_, leaves, _⟩ := TransGen.head'_iff.mp cycle
  obtain ⟨_, _, enters⟩ := TransGen.tail'_iff.mp cycle
  exact absurd ((edges leaves).1.symm.trans (edges enters).2) (by decide)

/-- Also when `db` fails to start. -/
theorem boot_ordered_onlyAfter :
    ∃ d' attempts, onlyAfter.startAllAutostart (fun command => some [command]) ["web", "db"]
        (fun _ u => if u = "db" then none else some 7) = some d' ∧
      d'.attemptsMade = onlyAfter.attemptsMade ++ attempts ∧
      Ordered (Afters onlyAfter.processes) (attempts.map Prod.fst) :=
  boot_ordered onlyAfter_idle onlyAfter_acyclic _ _

/-! ## The programs running afterwards -/

/-- The calls for `roots` have been made, or passed over, in a manager that began as `start`
    with nothing running. -/
structure Booted (start : Daemon) (roots : List String) (succeeds : String → Bool) (d : Daemon) :
    Prop where
  configs : configOf d.processes = configOf start.processes
  running : ∀ u, d.isRunning u = true ↔
    (∃ root ∈ roots, InClosure start.processes root u) ∧ succeeds u = true
  attempts : ∃ made, d.attemptsMade = start.attemptsMade ++ made ∧
    (∀ u, made.count (u, true) = if d.isRunning u then 1 else 0) ∧
    ∀ attempt ∈ made, ∃ root ∈ roots, InClosure start.processes root attempt.1

/-- A root that runs was pulled in by an earlier one, and its closure with it. -/
theorem Booted.passOver {start d : Daemon} {roots : List String} {succeeds : String → Bool}
    (h : Booted start roots succeeds d) {name : String} (running : d.isRunning name = true) :
    Booted start (roots ++ [name]) succeeds d := by
  have same : ∀ u, (∃ root ∈ roots ++ [name], InClosure start.processes root u) ↔
      ∃ root ∈ roots, InClosure start.processes root u := by
    intro u
    constructor
    · rintro ⟨root, member, closure⟩
      cases List.mem_append.mp member with
      | inl earlier => exact ⟨root, earlier, closure⟩
      | inr here =>
        obtain rfl := List.mem_singleton.mp here
        obtain ⟨⟨pulling, member, pulled⟩, _⟩ := (h.running root).mp running
        exact ⟨pulling, member, ReflTransGen.trans pulled closure⟩
    · rintro ⟨root, member, closure⟩
      exact ⟨root, List.mem_append_left _ member, closure⟩
  obtain ⟨made, hmade, hcount, hwithin⟩ := h.attempts
  refine ⟨h.configs, fun u => by rw [h.running, same], made, hmade, hcount, fun attempt member => ?_⟩
  exact (same attempt.1).mpr (hwithin attempt member)

theorem count_attempts {units : List String} (hnodup : units.Nodup) (outcome : String → Bool) (u : String) :
    (units.map fun u => (u, outcome u)).count (u, true) = if u ∈ units ∧ outcome u = true then 1 else 0 := by
  have distinct : (units.map fun u => (u, outcome u)).Nodup :=
    hnodup.map fun u v same => congrArg Prod.fst same
  rw [distinct.count]
  refine if_congr ?_ rfl rfl
  rw [List.mem_map]
  constructor
  · rintro ⟨v, member, same⟩
    obtain ⟨rfl, outcome⟩ := Prod.mk.inj same
    exact ⟨member, outcome⟩
  · rintro ⟨member, success⟩
    exact ⟨u, member, by rw [success]⟩

/-- A pass attempts only what was not running before, and each once. -/
theorem count_pass {units : List String} (hnodup : units.Nodup) {before after outcome : String → Bool}
    (passed : ∀ u, after u = (before u || (decide (u ∈ units) && outcome u))) (u : String) :
    (if before u then 1 else 0) +
        ((units.filter fun u => !before u).map fun u => (u, outcome u)).count (u, true) =
      if after u then 1 else 0 := by
  rw [count_attempts (hnodup.filter _), passed]
  cases hold : before u with
  | true => simp [hold]
  | false => simp [hold]

theorem Booted.startProcess {start d : Daemon} {roots : List String} {succeeds : String → Bool}
    (h : Booted start roots succeeds d) {name : String} (known : name ∈ start.processes)
    {os : String → Option Nat}
    (fixed : ∀ u ∈ start.processes, spawnSucceeds split start.processes u (os u) = succeeds u) :
    ∃ result d', d.startProcess split name os = some (result, d') ∧
      Booted start (roots ++ [name]) succeeds d' := by
  have known' := (mem_congr h.configs name).mpr known
  obtain ⟨order, result, d', resolved, hcall, configs, hrunning, hmade⟩ :=
    startProcess_run split known' os
  obtain ⟨_, hnodup, hmem⟩ := resolveStartOrder_ok resolved
  rw [InClosure.congr h.configs] at hmem
  rw [spawnSucceeds_congr split h.configs] at hrunning hmade
  have added : ∀ u, (∃ root ∈ roots ++ [name], InClosure start.processes root u) ↔
      (∃ root ∈ roots, InClosure start.processes root u) ∨ u ∈ order := by
    intro u
    simp only [List.mem_append, List.mem_singleton, or_and_right, exists_or, exists_eq_left, hmem]
  obtain ⟨made, hmadeBefore, hcount, hwithin⟩ := h.attempts
  refine ⟨result, d', hcall, configs.trans h.configs, fun u => ?_, made ++ _,
    by rw [hmade, hmadeBefore, List.append_assoc], fun u => ?_, fun attempt member => ?_⟩
  · rw [hrunning, Bool.or_eq_true, Bool.and_eq_true, decide_eq_true_iff, h.running, added, or_and_right]
    refine or_congr_right (and_congr_right fun member => ?_)
    rw [fixed u (((hmem u).mp member).known known)]
  · rw [List.count_append, hcount, count_pass hnodup hrunning]
  · rw [added]
    cases List.mem_append.mp member with
    | inl earlier => exact .inl (hwithin attempt earlier)
    | inr new =>
      obtain ⟨u, inOrder, rfl⟩ := List.mem_map.mp new
      exact .inr (List.mem_of_mem_filter inOrder)

/-- A boot never panics, and leaves running what its closure could start. -/
theorem startAllAutostart_booted {d : Daemon} (idle : ∀ u, d.isRunning u = false) {succeeds : String → Bool}
    {os : String → String → Option Nat} (keys : List String)
    (fixed : ∀ root, ∀ u ∈ d.processes, spawnSucceeds split d.processes u (os root u) = succeeds u) :
    ∃ d', d.startAllAutostart split keys os = some d' ∧
      Booted d (autostartPrograms d.processes keys) succeeds d' := by
  have begins : Booted d [] succeeds d := by
    refine ⟨rfl, fun u => ?_, [], (List.append_nil _).symm, fun u => ?_, fun _ member => by cases member⟩
    · simp [idle u]
    · simp [idle u]
  exact startPrograms_rule split os (fun roots e => Booted d roots succeeds e) _
    (fun _ _ _ _ h running => h.passOver running)
    (fun _ _ name member h => h.startProcess (known_of_autostart member) (fixed name)) [] d begins

theorem boots_iff {processes : ProcessTable} {keys : List String} (hkeys : ∀ u, u ∈ keys ↔ u ∈ processes)
    (u : String) :
    (∃ root ∈ autostartPrograms processes keys, InClosure processes root u) ↔ Boots processes u := by
  constructor
  · rintro ⟨root, member, closure⟩
    obtain ⟨_, config, hconfig, marked⟩ := mem_autostartPrograms.mp member
    exact ⟨root, config, hconfig, marked, closure⟩
  · rintro ⟨root, config, hconfig, marked, closure⟩
    have member := (hkeys root).mpr (mem_iff_configOf.mpr ⟨config, hconfig⟩)
    exact ⟨root, mem_autostartPrograms.mpr ⟨member, config, hconfig, marked⟩, closure⟩

/-- What a boot from `start` comes to when `succeeds` tells whose spawn goes through. -/
structure BootResult (start : Daemon) (succeeds : String → Bool) (d : Daemon) : Prop where
  running : ∀ u, d.isRunning u = true ↔ Boots start.processes u ∧ succeeds u = true
  attempts : ∃ made, d.attemptsMade = start.attemptsMade ++ made ∧
    (∀ u, Boots start.processes u → succeeds u = true → made.count (u, true) = 1) ∧
    ∀ attempt ∈ made, Boots start.processes attempt.1

theorem Booted.result {start d : Daemon} {keys : List String} {succeeds : String → Bool}
    (hkeys : ∀ u, u ∈ keys ↔ u ∈ start.processes)
    (h : Booted start (autostartPrograms start.processes keys) succeeds d) : BootResult start succeeds d := by
  obtain ⟨made, hmade, hcount, hwithin⟩ := h.attempts
  have running : ∀ u, d.isRunning u = true ↔ Boots start.processes u ∧ succeeds u = true :=
    fun u => by rw [h.running, boots_iff hkeys]
  refine ⟨running, made, hmade, fun u boots success => ?_, fun attempt member => ?_⟩
  · rw [hcount, if_pos ((running u).mpr ⟨boots, success⟩)]
  · exact (boots_iff hkeys attempt.1).mp (hwithin attempt member)

/-- Two boots with the same spawns succeeding, whatever the order in which the map yields the
    programs: the same programs run afterwards, each spawned once, and no program outside
    the closures is attempted. -/
theorem boot_confluent {d : Daemon} (idle : ∀ u, d.isRunning u = false) (succeeds : String → Bool)
    {keys keys' : List String} (hkeys : ∀ u, u ∈ keys ↔ u ∈ d.processes)
    (hkeys' : ∀ u, u ∈ keys' ↔ u ∈ d.processes) {os os' : String → String → Option Nat}
    (fixed : ∀ root, ∀ u ∈ d.processes, spawnSucceeds split d.processes u (os root u) = succeeds u)
    (fixed' : ∀ root, ∀ u ∈ d.processes, spawnSucceeds split d.processes u (os' root u) = succeeds u) :
    ∃ d₁ d₂, d.startAllAutostart split keys os = some d₁ ∧ d.startAllAutostart split keys' os' = some d₂ ∧
      (∀ u, d₁.isRunning u = d₂.isRunning u) ∧ BootResult d succeeds d₁ ∧ BootResult d succeeds d₂ := by
  obtain ⟨d₁, ran₁, booted₁⟩ := startAllAutostart_booted idle keys fixed
  obtain ⟨d₂, ran₂, booted₂⟩ := startAllAutostart_booted idle keys' fixed'
  have result₁ := booted₁.result hkeys
  have result₂ := booted₂.result hkeys'
  refine ⟨d₁, d₂, ran₁, ran₂, fun u => ?_, result₁, result₂⟩
  rw [Bool.eq_iff_iff, result₁.running, result₂.running]

theorem boot_confluent_onlyAfter :
    ∃ d₁ d₂, onlyAfter.startAllAutostart (fun command => some [command]) ["web", "db"]
        (fun _ u => if u = "db" then none else some 7) = some d₁ ∧
      onlyAfter.startAllAutostart (fun command => some [command]) ["db", "web"]
        (fun _ u => if u = "db" then none else some 8) = some d₂ ∧
      (∀ u, d₁.isRunning u = d₂.isRunning u) ∧
      BootResult onlyAfter (fun u => u != "db") d₁ ∧ BootResult onlyAfter (fun u => u != "db") d₂ := by
  have names : ∀ u, u ∈ onlyAfter.processes ↔ u = "db" ∨ u = "web" := by
    intro u
    rw [Finmap.mem_iff]
    simp only [onlyAfter_lookup]
    split
    · simp_all
    · split <;> simp_all
  have fixed : ∀ pid : Nat, ∀ root : String, ∀ u ∈ onlyAfter.processes,
      spawnSucceeds (fun command => some [command]) onlyAfter.processes u
        ((fun _ u => if u = "db" then none else some pid : String → String → Option Nat) root u) =
          (u != "db") := by
    intro pid root u known
    cases (names u).mp known with
    | inl db => subst db; rfl
    | inr web => subst web; rfl
  exact boot_confluent onlyAfter_idle _ (fun u => by simp [names, or_comm]) (fun u => by simp [names])
    (fixed 7) (fixed 8)

end Daemon

end Ciron
