import Mathlib.Algebra.Order.BigOperators.Group.Finset
import Ciron.Data.Counting
import Ciron.Daemon.Boot
import Ciron.Daemon.Orders
import Ciron.Daemon.Restarts
import Ciron.Transition.Budget

/-! # What every spawn goes back to

A child is spawned as a unit of a `start_process`, at most once in each call.  A call is made by the
boot, for a request of a client, for the second half of a `restart_process`, or for a handled
`RestartRequested`; and the last go back to different children whose exits qualify.  So no program
has more children than the calls of the boot and the requests that pull it in, and the qualifying
exits of programs that pull it in: `spawns_paid`. -/

namespace Ciron

open Data Transition

variable {split : String → Option (List String)}

/-- The root of the call that an event leads to. -/
def ProcessEvent.restarts : ProcessEvent → Option String
  | .restartRequested root => some root
  | _ => none

/-- The call for `root` starts `name`, if it is not running. -/
def PullsIn (processes : ProcessTable) (root name : String) : Prop := name ∈ startUnitsOf processes root

instance (processes : ProcessTable) (root name : String) : Decidable (PullsIn processes root name) :=
  inferInstanceAs (Decidable (name ∈ startUnitsOf processes root))

theorem PullsIn.congr {processes processes' : ProcessTable} (h : configOf processes' = configOf processes)
    (root name : String) : PullsIn processes' root name ↔ PullsIn processes root name := by
  rw [PullsIn, PullsIn, mem_startUnitsOf, mem_startUnitsOf, Daemon.mem_congr h, InClosure.congr h]

/-- A child whose exit its program is restarted for, and `name` with it. -/
def Child.Revives (processes : ProcessTable) (name : String) (c : Child) : Prop :=
  (configOf processes c.program).any (fun config => c.qualifies config c.program) = true ∧
    PullsIn processes c.program name

instance (processes : ProcessTable) (name : String) (c : Child) : Decidable (c.Revives processes name) :=
  inferInstanceAs (Decidable (_ ∧ _))

namespace System

/-- The step is a call that starts `name`, that of a client or of the boot, or the request for one. -/
def AsksFor (processes : ProcessTable) (name : String) : Action → Bool
  | .startProcess root | .restartProcess root _ => decide (PullsIn processes root name)
  | _ => false

/-- What is under way that can still spawn `name`: a unit of the call that holds the lock, or the
    call that `restart_process` will make. -/
def underWay (processes : ProcessTable) (name : String) (s : System) : Nat :=
  s.lock.pending.count name +
    match s.lock with
    | .restarting root => if PullsIn processes root name then 1 else 0
    | _ => 0

variable {processes : ProcessTable} {name : String} {s t : System} {a : Action}

/-- The events handled that lead to a call which starts `name`. -/
def revivals (processes : ProcessTable) (name : String) (s : System) : Nat :=
  s.handled.countP fun m => m.event.restarts.any fun root => PullsIn processes root name

def spawned (name : String) (s : System) : Nat := s.children.countP fun c => c.program = name

theorem spawned_eq (name : String) (s : System) : s.spawned name = s.programs.countP fun p => p = name := by
  rw [spawned, Daemon.programs, List.countP_map]
  rfl

/-- Only an attempt spawns a child. -/
theorem step_spawned (h : s.step split a = some t) (name : String) : t.spawned name = s.spawned name ∨
    t.spawned name = s.spawned name + 1 ∧ ∃ pid, s.moveOf a = .start name (some pid) := by
  cases (step_moved h).effect with
  | keeps keeps => exact .inl (by rw [spawned_eq, spawned_eq, keeps.programs])
  | launches other process command pid attempt launches launched =>
    rw [spawned, spawned, launched, Daemon.launch_children, List.countP_append, List.countP_singleton]
    by_cases same : other = name
    · subst same
      exact .inr ⟨by simp, pid, attempt⟩
    · exact .inl (by simp [same])

theorem step_revivals (processes : ProcessTable) (name : String) (h : s.step split a = some t) :
    s.revivals processes name ≤ t.revivals processes name := by
  unfold revivals
  cases (step_moved h).traffic with
  | none _ handled | announces _ _ handled | requests _ _ _ _ handled | reports _ _ _ _ handled => rw [handled]
  | takes m _ _ _ handled =>
    rw [handled, List.countP_append]
    exact Nat.le_add_right ..

theorem underWay_resume {caller : Caller} {root : String} {rest : List String}
    (lock : s.lock = .resume caller root rest) : s.underWay processes name = rest.count name := by
  rw [underWay, lock]
  cases rest <;> cases caller <;> rfl

/-- A call has one unit for a program that it pulls in. -/
theorem units_count (configs : configOf s.processes = configOf processes) (root : String) :
    (startUnitsOf s.processes root).count name = if PullsIn processes root name then 1 else 0 := by
  rw [List.Nodup.count (startUnitsOf_nodup root)]
  exact if_congr (PullsIn.congr configs root name) rfl rfl

/-- The call begun is asked for, is the second half of a restart, or handles a
    `RestartRequested`. -/
theorem call_account (name : String) (configs : configOf s.processes = configOf processes)
    (h : s.step split a = some t) {root : String} (called : s.Calls a root) :
    t.underWay processes name + s.revivals processes name ≤
      s.underWay processes name + t.revivals processes name +
        if AsksFor processes name a = true then 1 else 0 := by
  obtain ⟨caller, lock⟩ := step_calls h called
  have grows := step_revivals processes name h
  rw [underWay_resume lock, units_count configs]
  cases a with
  | startProcess other =>
    obtain rfl : other = root := called
    simp only [AsksFor, decide_eq_true_eq]
    omega
  | restartWakes =>
    have held : s.lock = .restarting root := called
    simp only [underWay, held, AsksFor]
    omega
  | handleSingleEvent =>
    obtain ⟨sender, rest, queued⟩ := called
    have taken : t.handled = s.handled ++ [{ event := .restartRequested root, sender }] := by
      rw [(step_moved h).onHead queued]
      simp [Daemon.handled, Daemon.onReport, Daemon.receive, Note.handled?]
    have counted : t.revivals processes name =
        s.revivals processes name + if PullsIn processes root name then 1 else 0 := by
      simp [revivals, taken, ProcessEvent.restarts]
    omega
  | _ => cases called

/-- Where no unit is attempted no child is spawned. -/
theorem step_spawned_same (h : s.step split a = some t) (other : ∀ spawn, a ≠ .startUnit spawn)
    (name : String) : t.spawned name = s.spawned name :=
  (step_spawned h name).resolve_right fun ⟨_, pid, attempt⟩ => other (some pid) (moveOf_start attempt).1

/-- A spawn takes its unit out of what is under way, and what comes under way was asked for or
    comes from a handled `RestartRequested`. -/
theorem step_account (name : String) (configs : configOf s.processes = configOf processes)
    (h : s.step split a = some t) :
    t.spawned name + t.underWay processes name + s.revivals processes name ≤
      s.spawned name + s.underWay processes name + t.revivals processes name +
        if AsksFor processes name a = true then 1 else 0 := by
  have grows := step_revivals processes name h
  cases step_stepped h with
  | calls _ root _ called =>
    have call := call_account name configs h called
    have same := step_spawned_same h (fun spawn action => by rw [action] at called; exact called) name
    omega
  | attempts caller root unit rest spawn action held lock =>
    subst action
    have attempt : s.moveOf (.startUnit spawn) = .start unit spawn := by simp [moveOf, held]
    have before : s.underWay processes name = (unit :: rest).count name := by
      simp [underWay, held, Lock.pending]
    rw [underWay_resume lock, before, List.count_cons]
    cases step_spawned h name with
    | inl same => omega
    | inr spawned =>
      obtain ⟨one, pid, launched⟩ := spawned
      rw [attempt, Move.start.injEq] at launched
      rw [if_pos (by simp [launched.1])]
      omega
  | restarts other late action free _ lock =>
    have same := step_spawned_same h (by simp [action]) name
    have asked : t.underWay processes name = if AsksFor processes name a = true then 1 else 0 := by
      simp [underWay, lock, action, AsksFor, Lock.pending]
    omega
  | stays lock _ _ other =>
    have same := step_spawned_same h other name
    have kept : t.underWay processes name = s.underWay processes name := by rw [underWay, lock, underWay]
    omega
  | serversStop action _ lock | mainAborts action _ lock =>
    have same := step_spawned_same h (by simp [action]) name
    have kept : t.underWay processes name = s.underWay processes name := by rw [underWay, lock, underWay]
    omega
  | loopAcquires action _ lock | loopReleases action _ lock | mainAcquires action _ lock
  | shutdown _ action _ lock | stopNext _ _ _ action _ lock | mainReleases action _ lock =>
    have same := step_spawned_same h (by simp [action]) name
    have idle : t.underWay processes name = 0 := by simp [underWay, lock, Lock.pending]
    omega

/-- A handled `RestartRequested` goes back to a child of its program, each to another. -/
theorem Reached.revivals_le (reached : s.Reached split) (opened : s.closed = false) (name : String) :
    s.revivals s.processes name ≤ s.children.countP fun c => c.Revives s.processes name := by
  let roots := s.processes.keys.filter fun root => PullsIn s.processes root name
  have pulls : ∀ root, root ∈ roots ↔ PullsIn s.processes root name := by
    intro root
    rw [Finset.mem_filter, Finmap.mem_keys]
    exact and_iff_right_of_imp fun pulls => ((mem_startUnitsOf root).mp pulls).1
  let revived (c : Child) : Option String :=
    if (configOf s.processes c.program).any (fun config => c.qualifies config c.program) then some c.program
    else none
  calc s.revivals s.processes name
      = s.handled.countP fun m => m.event.restarts.any fun root => decide (root ∈ roots) := by
        simp only [revivals, pulls]
    _ = ∑ root ∈ roots, s.handled.countP fun m => decide (m.event.restarts = some root) :=
        countP_classes (fun m : Message => m.event.restarts) roots s.handled
    _ ≤ ∑ root ∈ roots, s.children.countP fun c => decide (revived c = some root) := by
        refine Finset.sum_le_sum fun root member => ?_
        have known : root ∈ s.processes := ((mem_startUnitsOf root).mp ((pulls root).mp member)).1
        obtain ⟨config, hconfig⟩ := mem_iff_configOf.mp known
        have account := reached.conserved opened root config hconfig
        have bound := reached.delivered.qualifying_le reached.reaped config root
        have requests : s.handled.countP (fun m => decide (m.event.restarts = some root)) =
            s.handled.countP (Message.requestsRestart root) := by
          refine List.countP_congr fun m _ => ?_
          cases h : m.event <;> simp [ProcessEvent.restarts, Message.requestsRestart, h]
        have children : s.children.countP (fun c => decide (revived c = some root)) =
            s.children.countP (Child.qualifies config root) := by
          refine List.countP_congr fun c _ => ?_
          simp only [revived, decide_eq_true_eq, Option.ite_none_right_eq_some, Option.some.injEq]
          constructor
          · rintro ⟨qualifies, rfl⟩
            simpa [hconfig] using qualifies
          · intro qualifies
            have same : c.program = root := by
              simp only [Child.qualifies, Bool.and_eq_true, decide_eq_true_eq] at qualifies
              exact qualifies.1
            subst same
            exact ⟨by simpa [hconfig] using qualifies, rfl⟩
        omega
    _ = s.children.countP fun c => (revived c).any fun root => decide (root ∈ roots) :=
        (countP_classes revived roots s.children).symm
    _ = s.children.countP fun c => c.Revives s.processes name := by
        refine List.countP_congr fun c _ => ?_
        simp only [revived]
        split <;> rename_i qualifies <;> simp [Child.Revives, pulls, qualifies]

/-- What the steps add up to over a run. -/
theorem run_account {program : List (String × ProgramConfig)} {trace : List (System × Action)}
    (configs : configOf (boot program).processes = configOf processes)
    (run : Exec (step split) (boot program) trace s) (name : String) :
    s.spawned name + s.underWay processes name ≤
      s.revivals processes name + tally (fun _ a => AsksFor processes name a) trace := by
  induction run with
  | refl =>
    obtain ⟨children, _⟩ := Daemon.loadFromConfig_fresh program
    simp [spawned, underWay, boot, children, Lock.pending]
  | @tail trace s t a earlier last ih =>
    have same : configOf s.processes = configOf processes :=
      (earlier.invariant (fun _ _ _ inv step => (step_configs step).trans inv) configs).1
    have moved := step_account name same last
    rw [tally_cons]
    omega

/-- While the channel is open, each child of a program goes back to a call of the boot or a request of
    a client whose call starts the program, or to a child, each to another, whose exit its policy
    restarts it for with a call that starts the program.  The calls of a boot that is over are
    `called`, those of one under way are steps of the run. -/
theorem spawns_paid {config : GlobalConfig} {called : List String} {trace : List (System × Action)}
    {start s : System} (up : ComesUp split config called start) (run : Exec (step split) start trace s)
    (opened : s.closed = false) (name : String) :
    (s.children.countP fun c => c.program = name) ≤
      (called.countP fun root => PullsIn s.processes root name) +
        tally (fun _ a => AsksFor s.processes name a) trace +
        s.children.countP fun c => c.Revives s.processes name := by
  obtain ⟨first, boots, calls⟩ := up.run
  have reached : s.Reached split := ⟨config.program, _, boots.trans run⟩
  have configs : configOf s.processes = configOf (boot config.program).processes :=
    ((boots.trans run).invariant (fun _ _ _ inv step => (step_configs step).trans inv) rfl).1
  have account := run_account configs.symm (boots.trans run) name
  have revived := reached.revivals_le opened name
  have booted : tally (fun _ a => AsksFor s.processes name a) first ≤
      called.countP fun root => PullsIn s.processes root name :=
    calls.tally_le (AsksFor s.processes name) fun _ => rfl
  rw [spawned, tally_append] at account
  omega

/-- The boot starts both programs with the call for `web`, and the exit of `web` is restarted. -/
theorem spawns_paid_restarted : ∃ transports d trace s,
    startup oneWord {} none
      { transport := {}, program := [
        ("web", { command := "web", autostart := true, restart := some "always", after := some ["db"] }),
        ("db", { command := "db" })] } ["web", "db"]
      (fun root u => if root = "web" ∧ u = "web" then some 8
        else if root = "web" ∧ u = "db" then some 7 else none) = some (.ok (transports, d)) ∧
    Exec (step oneWord) { toDaemon := d } trace s ∧ s.programs = ["db", "web", "web"] ∧
    (s.children.countP fun c => c.program = "web") ≤
      (["web"].countP fun root => PullsIn s.processes root "web") +
        tally (fun _ a => AsksFor s.processes "web" a) trace +
        s.children.countP fun c => c.Revives s.processes "web" := by
  let config : GlobalConfig :=
    { transport := {}, program := [
      ("web", { command := "web", autostart := true, restart := some "always", after := some ["db"] }),
      ("db", { command := "db" })] }
  let os (root u : String) : Option Nat :=
    if root = "web" ∧ u = "web" then some 8 else if root = "web" ∧ u = "db" then some 7 else none
  let actions : List Action := [.childExits 1 (some 1), .childReaped 1 none, .monitorSends 1, .handleSingleEvent,
    .handleSingleEvent, .handleSingleEvent, .timerFires "web", .handleSingleEvent, .startUnit none,
    .startUnit (some 9)]
  have comesUp : ∃ transports d, startup oneWord {} none config ["web", "db"] os = some (.ok (transports, d)) ∧
      (runs (step oneWord) { toDaemon := d } actions).map (fun s => (s.programs, s.closed)) =
        some (["db", "web", "web"], false) := ⟨_, _, rfl, by decide⟩
  obtain ⟨transports, d, comesUp, restarted⟩ := comesUp
  obtain ⟨s, ran, both⟩ := Option.map_eq_some_iff.mp restarted
  obtain ⟨programs, opened⟩ := Prod.ext_iff.mp both
  obtain ⟨trace, run, _⟩ := exec_of_runs ran
  have distinct : ∀ root u root' u' pid,
      os root u = some pid → os root' u' = some pid → root = root' ∧ u = u' := by
    intro root u root' u' pid answer answer'
    grind
  have once : autostartPrograms (Daemon.loadFromConfig config.program).processes ["web", "db"] = ["web"] := by
    decide
  have up : ComesUp oneWord config ["web"] { toDaemon := d } := once ▸ .booted comesUp (by decide) distinct
  exact ⟨transports, d, trace, s, comesUp, run, programs, spawns_paid up run opened "web"⟩

end System

end Ciron
