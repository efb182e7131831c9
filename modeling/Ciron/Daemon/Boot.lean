import Ciron.Daemon.Calls
import Ciron.Daemon.Startup
import Ciron.Transition.Budget

/-! # The boot reaches the system

`startup` computes the boot as one function.  The system starts with nothing running and takes
the calls of the boot step by step; with the same answers it comes to the state that `startup`
returns.  So what holds in every state reached holds of the daemon that has come up:
`startup_reached`.  The run makes no other call than the boot does, at most one for each program
marked `autostart`, so that counts over runs can begin at either end of the boot:
`ComesUp.run`. -/

namespace Ciron

open Transition

variable (split : String → Option (List String))

def Action.isAttempt : Action → Bool
  | .startUnit _ => true
  | _ => false

/-- Apart from the attempts, the steps of the run are calls for some of `roots`, one each. -/
def CallsOnly (roots : List String) (trace : List (System × Action)) : Prop :=
  List.Sublist ((trace.map Prod.snd).reverse.filter fun a => !a.isAttempt) (roots.map .startProcess)

namespace CallsOnly

variable {roots roots' : List String} {trace trace' : List (System × Action)}

theorem single (s : System) (root : String) : CallsOnly [root] [(s, .startProcess root)] := .refl _

theorem append (h : CallsOnly roots trace) (h' : CallsOnly roots' trace') :
    CallsOnly (roots ++ roots') (trace' ++ trace) := by
  rw [CallsOnly, List.map_append, List.reverse_append, List.filter_append, List.map_append]
  exact List.Sublist.append h h'

/-- What the run is charged for, if the attempts cost nothing, goes back to calls for different `roots`. -/
theorem tally_le (h : CallsOnly roots trace) (charged : Action → Bool)
    (free : ∀ spawn, charged (.startUnit spawn) = false) :
    tally (fun _ a => charged a) trace ≤ roots.countP fun root => charged (.startProcess root) := by
  have calls : ∀ a, (charged a && !a.isAttempt) = charged a := by
    intro a
    cases a with
    | startUnit spawn => rw [free, Bool.false_and]
    | _ => exact Bool.and_true _
  calc tally (fun _ a => charged a) trace
      = ((trace.map Prod.snd).reverse.filter fun a => !a.isAttempt).countP charged := by
        rw [List.countP_filter, List.countP_congr fun a _ => by rw [calls], List.countP_reverse, tally_labels]
    _ ≤ (roots.map Action.startProcess).countP charged := List.Sublist.countP_le h
    _ = roots.countP fun root => charged (.startProcess root) := List.countP_map

end CallsOnly

namespace Daemon

/-- No child was ever given the pid. -/
def Unused (d : Daemon) (pid : Nat) : Prop := ∀ c ∈ d.children, c.pid ≠ pid

variable {split} {d : Daemon} {pid : Nat}

theorem Unused.free (h : d.Unused pid) : d.pidFree pid = true := by
  refine List.all_eq_true.mpr fun c member => ?_
  simp [h c member]

/-- An attempt uses the pid it is answered with, and no other. -/
theorem Unused.single (h : d.Unused pid) (name : String) {spawn : Option Nat} (other : spawn ≠ some pid) :
    (startProcessSingle split d name spawn).2.Unused pid := by
  have outcome := startProcessSingle_outcome split d name spawn
  generalize startProcessSingle split d name spawn = ran at outcome ⊢
  cases outcome with
  | unknown | alreadyRunning | spawnFails => exact h
  | launches process command given _ _ _ spawned =>
    intro c member
    rw [launch_children, List.mem_append, List.mem_singleton] at member
    cases member with
    | inl old => exact h c old
    | inr new =>
      rw [new]
      rintro rfl
      exact other spawned

theorem Unused.startUnits (h : d.Unused pid) (root : String) {os : String → Option Nat}
    (other : ∀ u, os u ≠ some pid) (acc : Option (Except String Unit)) (order : List String) :
    (startUnits split root os acc d order).2.Unused pid := by
  induction order generalizing acc d with
  | nil => exact h
  | cons unit rest ih =>
    have next : (d.startUnit split root unit (os unit)).2.Unused pid := by
      rw [startUnit_daemon]
      exact h.single unit (other unit)
    exact ih next _

theorem Unused.startProcess {d' : Daemon} (h : d.Unused pid) {root : String} {os : String → Option Nat}
    (other : ∀ u, os u ≠ some pid) {result : Except String Unit}
    (call : d.startProcess split root os = some (result, d')) : d'.Unused pid := by
  by_cases known : root ∈ d.processes
  · obtain ⟨order, resolved, _⟩ := resolveStartOrder_known known
    obtain ⟨_, call', _⟩ := startProcess_resolved split resolved os
    cases call.symm.trans call'
    exact h.startUnits root other none order
  · cases call.symm.trans ((startProcess_spec split d root os).1 known)
    exact h

end Daemon

namespace System

/-- The turns of the loop of `start_process`, with pids that no child was given. -/
theorem startUnits_runs {root : String} {os : String → Option Nat} {order : List String} (nodup : order.Nodup)
    (acc : Option (Except String Unit)) (d : Daemon) (loop : LoopPhase) (main : MainPhase)
    (unused : ∀ u ∈ order, ∀ pid, os u = some pid → d.Unused pid)
    (distinct : ∀ u u' pid, os u = some pid → os u' = some pid → u = u') :
    runs (step split) { toDaemon := d, lock := .resume .request root order, loop, main }
      (order.map fun unit => .startUnit (os unit)) =
        some { toDaemon := (Daemon.startUnits split root os acc d order).2, lock := .free, loop, main } := by
  induction order generalizing acc d with
  | nil => rfl
  | cons unit rest ih =>
    obtain ⟨fresh, nodup⟩ := List.nodup_cons.mp nodup
    have happly : d.apply split (.start unit (os unit)) =
        some (Daemon.startProcessSingle split d unit (os unit)).2 := by
      refine if_pos ?_
      cases answer : os unit with
      | none => rfl
      | some pid => exact (unused unit (List.mem_cons_self ..) pid answer).free
    have first := step_of (s := { toDaemon := d, lock := .starting .request root (unit :: rest), loop, main })
      (a := .startUnit (os unit)) rfl happly
    rw [List.map_cons, runs, Lock.resume, first, Option.bind_some, Daemon.startUnits, ← Daemon.startUnit_daemon]
    refine ih nodup _ _ fun u member pid answer => ?_
    -- the answer for another unit is another pid
    rw [Daemon.startUnit_daemon]
    refine (unused u (List.mem_cons_of_mem _ member) pid answer).single unit fun same => ?_
    exact fresh (distinct unit u pid same answer ▸ member)

/-- A call of `start_process` while `main` serves. -/
theorem startProcess_run {root : String} {os : String → Option Nat} {d d' : Daemon} (loop : LoopPhase)
    {result : Except String Unit} (call : d.startProcess split root os = some (result, d'))
    (unused : ∀ u pid, os u = some pid → d.Unused pid)
    (distinct : ∀ u u' pid, os u = some pid → os u' = some pid → u = u') : ∃ trace,
    Exec (step split) { toDaemon := d, loop } trace { toDaemon := d', loop } ∧ CallsOnly [root] trace := by
  by_cases known : root ∈ d.processes
  · obtain ⟨order, resolved, nodup, _⟩ := resolveStartOrder_known known
    obtain ⟨_, call', _⟩ := Daemon.startProcess_resolved split resolved os
    cases call.symm.trans call'
    have first : System.step split { toDaemon := d, loop } (.startProcess root) =
        some { toDaemon := d, lock := .resume .request root order, loop } := by
      have hcontrol : System.control { toDaemon := d, loop } (.startProcess root) =
          some { move := .idle, lock := .resume .request root order, loop, main := .serving } := by
        simp [control, serving, beginStart, resolved, only]
      exact step_of hcontrol rfl
    obtain ⟨trace, later, labels⟩ := exec_of_runs (startUnits_runs split nodup none d loop .serving
      (fun u _ pid answer => unused u pid answer) distinct)
    have attempts : CallsOnly [] trace := by
      rw [CallsOnly, labels, List.reverse_reverse, List.map_nil, List.sublist_nil, List.filter_eq_nil_iff]
      simp [Action.isAttempt]
    exact ⟨_, (Exec.single first).trans later, (CallsOnly.single _ root).append attempts⟩
  · have unknown := (Daemon.startProcess_spec split d root os).1 known
    cases call.symm.trans unknown
    exact ⟨[], .refl, List.nil_sublist _⟩

/-! ## The calls of the boot -/

theorem startPrograms_run {os : String → String → Option Nat} {programs : List String}
    (nodup : programs.Nodup) (d : Daemon) (loop : LoopPhase)
    (unused : ∀ root ∈ programs, ∀ u pid, os root u = some pid → d.Unused pid)
    (distinct : ∀ root u root' u' pid,
      os root u = some pid → os root' u' = some pid → root = root' ∧ u = u')
    {d' : Daemon} (starts : Daemon.startPrograms split os d programs = some d') : ∃ trace,
    Exec (step split) { toDaemon := d, loop } trace { toDaemon := d', loop } ∧ CallsOnly programs trace := by
  induction programs generalizing d with
  | nil =>
    cases starts
    exact ⟨[], .refl, List.nil_sublist _⟩
  | cons root rest ih =>
    obtain ⟨fresh, nodup⟩ := List.nodup_cons.mp nodup
    rw [Daemon.startPrograms] at starts
    split at starts
    · obtain ⟨trace, run, calls⟩ :=
        ih nodup d (fun root member => unused root (List.mem_cons_of_mem _ member)) starts
      exact ⟨trace, run, calls.trans (List.sublist_cons_self ..)⟩
    · split at starts
      · cases starts
      · rename_i result next call
        obtain ⟨first, begins, one⟩ := startProcess_run split loop call (unused root (List.mem_cons_self ..))
          fun u u' pid answer answer' => (distinct root u root u' pid answer answer').2
        have unused' : ∀ root' ∈ rest, ∀ u pid, os root' u = some pid → next.Unused pid := by
          intro root' member u pid answer
          refine (unused root' (List.mem_cons_of_mem _ member) u pid answer).startProcess (fun u' same => ?_) call
          exact fresh ((distinct root u' root' u pid same answer).1 ▸ member)
        obtain ⟨trace, later, more⟩ := ih nodup next unused' starts
        exact ⟨trace ++ first, begins.trans later, CallsOnly.append one more⟩

end System

/-- The run of the system that makes the boot. -/
theorem startup_run {platform : Platform} {cli : Option String} {config : GlobalConfig}
    {keys : List String} {os : String → String → Option Nat} {transports : List Transport} {d : Daemon}
    (comesUp : startup split platform cli config keys os = some (.ok (transports, d))) (nodup : keys.Nodup)
    (distinct : ∀ root u root' u' pid,
      os root u = some pid → os root' u' = some pid → root = root' ∧ u = u') :
    ∃ trace, Exec (System.step split) (System.boot config.program) trace { toDaemon := d } ∧
      CallsOnly (autostartPrograms (Daemon.loadFromConfig config.program).processes keys) trace := by
  simp only [startup] at comesUp
  split at comesUp
  · cases comesUp
  · obtain ⟨d', boots, same⟩ := Option.map_eq_some_iff.mp comesUp
    cases same
    have unused : ∀ pid, (Daemon.loadFromConfig config.program).Unused pid := by
      intro pid c member
      rw [(Daemon.loadFromConfig_fresh config.program).1] at member
      cases member
    exact System.startPrograms_run split (nodup.filter _) _ .sleeping (fun _ _ _ pid _ => unused pid) distinct boots

/-- Where the operating system gives no pid twice, what `startup` returns is a state that the system
    comes to, with the lock free and `main` about to serve. -/
theorem startup_reached {platform : Platform} {cli : Option String} {config : GlobalConfig}
    {keys : List String} {os : String → String → Option Nat} {transports : List Transport} {d : Daemon}
    (comesUp : startup split platform cli config keys os = some (.ok (transports, d))) (nodup : keys.Nodup)
    (distinct : ∀ root u root' u' pid,
      os root u = some pid → os root' u' = some pid → root = root' ∧ u = u') :
    System.Reached split { toDaemon := d } := by
  obtain ⟨trace, run, _⟩ := startup_run split comesUp nodup distinct
  exact ⟨config.program, trace, run⟩

/-- An operating system that grants one attempt of one call. -/
theorem distinct_single {called name : String} {given : Nat} (root u root' u' : String) (pid : Nat)
    (answer : (if root = called ∧ u = name then some given else none) = some pid)
    (answer' : (if root' = called ∧ u' = name then some given else none) = some pid) :
    root = root' ∧ u = u' := by
  obtain ⟨⟨rfl, rfl⟩, _⟩ := Option.ite_none_right_eq_some.mp answer
  obtain ⟨⟨rfl, rfl⟩, _⟩ := Option.ite_none_right_eq_some.mp answer'
  exact ⟨rfl, rfl⟩

/-- One of two programs comes up; the spawn of the other, which it is to come after, fails. -/
theorem startup_reached_one : ∃ transports d, startup oneWord {} none
      { transport := {}, program := [("web", { command := "web", autostart := true, after := some ["db"] }),
                                     ("db", { command := "db", autostart := true })] } ["web", "db"]
      (fun root u => if root = "web" ∧ u = "web" then some 7 else none) = some (.ok (transports, d)) ∧
    d.programs = ["web"] ∧ System.Reached oneWord { toDaemon := d } := by
  let config : GlobalConfig :=
    { transport := {}, program := [("web", { command := "web", autostart := true, after := some ["db"] }),
                                   ("db", { command := "db", autostart := true })] }
  let os (root u : String) : Option Nat := if root = "web" ∧ u = "web" then some 7 else none
  have comesUp : ∃ transports d, startup oneWord {} none config ["web", "db"] os = some (.ok (transports, d)) ∧
      d.programs = ["web"] := ⟨_, _, rfl, rfl⟩
  obtain ⟨transports, d, comesUp, programs⟩ := comesUp
  exact ⟨transports, d, comesUp, programs, startup_reached oneWord comesUp (by decide) distinct_single⟩

/-! ## Where a run begins -/

/-- The daemon with the configuration is in the state, and its boot has made calls for the programs
    listed at most: none as long as `main` has only loaded the programs, and once for each that is
    marked `autostart` when it has come up. -/
inductive ComesUp (config : GlobalConfig) : List String → System → Prop
  | loaded : ComesUp config [] (System.boot config.program)
  | booted {platform : Platform} {cli : Option String} {keys : List String} {os : String → String → Option Nat}
      {transports : List Transport} {d : Daemon}
      (comesUp : startup split platform cli config keys os = some (.ok (transports, d))) (nodup : keys.Nodup)
      (distinct : ∀ root u root' u' pid,
        os root u = some pid → os root' u' = some pid → root = root' ∧ u = u') :
      ComesUp config (autostartPrograms (Daemon.loadFromConfig config.program).processes keys)
        { toDaemon := d }

theorem ComesUp.run {config : GlobalConfig} {called : List String} {start : System}
    (up : ComesUp split config called start) : ∃ first,
    Exec (System.step split) (System.boot config.program) first start ∧ CallsOnly called first := by
  cases up with
  | loaded => exact ⟨[], .refl, List.nil_sublist _⟩
  | booted comesUp nodup distinct => exact startup_run split comesUp nodup distinct

end Ciron
