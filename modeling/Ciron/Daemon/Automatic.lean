import Ciron.Daemon.Draining
import Ciron.Daemon.Orders
import Ciron.Daemon.Restarts
import Ciron.Transition.Budget

/-! # Automatic starts

A step begins a call of `start_process` if it leaves units to start for a root where there were
none before.  A client or the boot has such a call begun by its request, or a client by the
`restart_process` whose second half makes it; any other call the daemon begins of itself.  These are, one for one, the
handled `RestartRequested`, so by the account of the restarts no more than the children whose exit
qualifies; and a call starts its program at most once: `restarts_conserved`. -/

namespace Ciron

open Transition

variable {split : String → Option (List String)}

/-- The root of the call that has a unit to start. -/
def Lock.root? : Lock → Option String
  | .starting _ root (_ :: _) => some root
  | _ => none

theorem Lock.root?_resume (caller : Caller) (root : String) {rest : List String} (left : rest ≠ []) :
    (Lock.resume caller root rest).root? = some root := by
  obtain ⟨unit, rest, rfl⟩ := List.exists_cons_of_ne_nil left
  rfl

theorem Lock.root?_eq_none {lock : Lock} (idle : lock.pending = []) : lock.root? = none := by
  cases lock with
  | starting caller root rest =>
    cases rest with
    | nil => rfl
    | cons => cases idle
  | free | restarting | draining | closing | stopping => rfl

namespace System

/-! ## The calls that begin -/

/-- The root of the call of `start_process` that the step begins. -/
def begins (split : String → Option (List String)) (s : System) (a : Action) : Option String :=
  if s.lock.pending = [] then (s.step split a).bind (·.lock.root?) else none

/-- The step begins a call for `name` that neither a client nor the boot asks for, and that is not the
    second half of a restart that a client asked for. -/
def beginsItself (split : String → Option (List String)) (name : String) (s : System) (a : Action) : Bool :=
  !a.isRequest && a ≠ .restartWakes && s.begins split a = some name

instance (split : String → Option (List String)) (s : System) (a : Action) (name : String) :
    Decidable (s.Spawns split a name) :=
  decidable_of_iff ((s.step split a).any (fun t => t.latest name = some s.children.length) = true)
    (by simp [Spawns, Option.any_eq_true])

/-- The root of the latest call of a run, if the daemon began it of itself. -/
def ownCall (split : String → Option (List String)) : List (System × Action) → Option String
  | [] => none
  | (s, a) :: earlier =>
    match s.begins split a with
    | some root => if s.beginsItself split root a then some root else none
    | none => ownCall split earlier

/-- The spawns of `name` in calls for it that the daemon began of itself. -/
def ownStarts (split : String → Option (List String)) (name : String) : List (System × Action) → Nat
  | [] => 0
  | (s, a) :: earlier => ownStarts split name earlier +
      if s.Spawns split a name ∧ ownCall split earlier = some name then 1 else 0

variable {s t : System} {a : Action} {name : String}

/-- A step begins the call of `start_process` that it makes for a configured program. -/
theorem begins_iff (h : s.step split a = some t) {root : String} :
    s.begins split a = some root ↔ s.Calls a root ∧ root ∈ s.processes := by
  have begun (before : s.lock.pending = []) : s.begins split a = t.lock.root? := by
    rw [begins, if_pos before, h, Option.bind_some]
  cases step_pending h with
  | same kept calm =>
    refine iff_of_false (fun begins => ?_) fun calls => calm root calls.1
    by_cases before : s.lock.pending = []
    · rw [begun before, Lock.root?_eq_none (kept.trans before)] at begins
      cases begins
    · rw [System.begins, if_neg before] at begins
      cases begins
  | attempts unit spawn attempt queued =>
    obtain ⟨rfl, _⟩ := moveOf_start attempt
    refine iff_of_false (fun begins => ?_) fun calls => calls.1
    rw [System.begins, if_neg (by simp [queued])] at begins
    cases begins
  | calls called calls before =>
    obtain ⟨caller, lock⟩ := step_calls h calls
    rw [begun before, lock]
    by_cases known : called ∈ s.processes
    · have listed : called ∈ startUnitsOf s.processes called := (mem_startUnitsOf called).mpr ⟨known, .refl⟩
      rw [Lock.root?_resume caller called (List.ne_nil_of_mem listed), Option.some.injEq]
      constructor
      · rintro rfl
        exact ⟨calls, known⟩
      · exact fun other => calls.unique other.1
    · rw [startUnitsOf_unknown known, Lock.root?_eq_none (Lock.resume_pending ..)]
      refine iff_of_false (by simp) fun other => ?_
      rw [← calls.unique other.1] at other
      exact known other.2

theorem beginsItself_iff (h : s.step split a = some t) (known : name ∈ s.processes) :
    s.beginsItself split name a = true ↔ a = .handleSingleEvent ∧ s.Calls a name := by
  simp only [beginsItself, Bool.and_eq_true, Bool.not_eq_true', decide_eq_true_eq, begins_iff h, known, and_true]
  constructor
  · rintro ⟨⟨unasked, other⟩, calls⟩
    refine ⟨?_, calls⟩
    cases a with
    | handleSingleEvent => rfl
    | startProcess => cases unasked
    | restartWakes => exact absurd rfl other
    | _ => cases calls
  · rintro ⟨rfl, calls⟩
    exact ⟨⟨rfl, by simp⟩, calls⟩

/-- The calls that the daemon begins of itself are the handled `RestartRequested`. -/
theorem step_requested (h : s.step split a = some t) (known : name ∈ s.processes) :
    t.handled.countP (Message.requestsRestart name) = s.handled.countP (Message.requestsRestart name) +
      if s.beginsItself split name a = true then 1 else 0 := by
  by_cases handles : a = .handleSingleEvent
  · subst handles
    obtain ⟨c, hcontrol, hmove, _⟩ := step_inv h
    rw [control_move hcontrol] at hmove
    obtain ⟨m, rest, queued⟩ := Daemon.apply_handle_inv hmove
    have taken : t.handled = s.handled ++ [m] := by
      rw [(step_moved h).onHead queued, Daemon.handled, Daemon.onReport_history]
      exact List.reverse_cons
    have own : s.beginsItself split name .handleSingleEvent = true ↔ m.requestsRestart name = true := by
      obtain ⟨event, sender⟩ := m
      rw [beginsItself_iff h known]
      simp [Calls, queued, Message.requestsRestart]
    rw [taken, List.countP_append, List.countP_singleton, if_congr own rfl rfl]
  · have other : ¬ s.beginsItself split name a = true := fun own => handles ((beginsItself_iff h known).mp own).1
    rw [if_neg other, (step_moved h).handled_same fun handle => handles (moveOf_handle handle), Nat.add_zero]

/-! ## What a call spawns -/

/-- A spawn is the attempt of the first unit of the call under way. -/
theorem Spawns.starting (h : s.Spawns split a name) : ∃ spawn caller root rest,
    a = .startUnit spawn ∧ s.lock = .starting caller root (name :: rest) := by
  obtain ⟨pid, _, _, attempt, _⟩ := h.inv
  obtain ⟨action, caller, root, rest, held⟩ := moveOf_start attempt
  exact ⟨_, caller, root, rest, action, held⟩

theorem Spawns.pending (h : s.Spawns split a name) (hstep : s.step split a = some t) :
    s.lock.pending = name :: t.lock.pending := by
  obtain ⟨pid, _, _, attempt, _⟩ := h.inv
  exact step_start hstep attempt

/-- A call that begins has each unit once. -/
theorem step_begun (h : s.step split a = some t) {root : String} (begun : s.begins split a = some root)
    (name : String) : ¬ s.Spawns split a name ∧ t.lock.pending.count name ≤ 1 := by
  obtain ⟨caller, lock⟩ := step_calls h ((begins_iff h).mp begun).1
  refine ⟨fun spawns => ?_, ?_⟩
  · rw [begins, if_neg (by simp [spawns.pending h])] at begun
    cases begun
  · rw [lock, Lock.resume_pending]
    exact List.nodup_iff_count_le_one.mp (startUnitsOf_nodup root) name

/-- Where no call begins, a spawn takes its unit out of those to start, and none comes to them. -/
theorem step_unbegun (h : s.step split a = some t) (quiet : s.begins split a = none) (name : String) :
    (if s.Spawns split a name then 1 else 0) + t.lock.pending.count name ≤ s.lock.pending.count name := by
  by_cases spawns : s.Spawns split a name
  · rw [if_pos spawns, spawns.pending h, List.count_cons_self]
    omega
  · rw [if_neg spawns, Nat.zero_add]
    cases step_pending h with
    | same kept => rw [kept]
    | attempts unit spawn attempt queued =>
      rw [queued]
      exact List.count_le_count_cons
    | calls root calls =>
      have unknown : root ∉ s.processes := fun known => by
        rw [(begins_iff h).mpr ⟨calls, known⟩] at quiet
        cases quiet
      obtain ⟨caller, lock⟩ := step_calls h calls
      rw [lock, startUnitsOf_unknown unknown, Lock.resume_pending, List.count_nil]
      exact Nat.zero_le _

/-! ## Over a run -/

variable {program : List (String × ProgramConfig)} {trace : List (System × Action)}

theorem run_requested (run : Exec (step split) (boot program) trace s) (known : name ∈ s.processes) :
    tally (beginsItself split name) trace = s.handled.countP (Message.requestsRestart name) := by
  induction run with
  | refl =>
    obtain ⟨_, _, _, _, history, _⟩ := Daemon.loadFromConfig_fresh program
    rw [boot, Daemon.handled, history]
    rfl
  | @tail trace s t a earlier last ih =>
    replace known := (Daemon.mem_congr (step_configs last) name).mp known
    rw [tally_cons, ih known, step_requested last known]

/-- A call of its own spawns the program at most once. -/
theorem run_ownStarts {start : System} (run : Exec (step split) start trace s) (name : String) :
    ownStarts split name trace + (if ownCall split trace = some name then s.lock.pending.count name else 0) ≤
      tally (beginsItself split name) trace := by
  induction run with
  | refl => simp [ownStarts, ownCall]
  | @tail trace s t a earlier last ih =>
    rw [tally_cons, ownStarts, ownCall]
    cases begun : s.begins split a with
    | none =>
      have unbegun := step_unbegun last begun name
      by_cases own : ownCall split trace = some name
      · simp only [own, and_true, if_true] at ih ⊢
        omega
      · simp only [own, and_false, if_false] at ih ⊢
        omega
    | some root =>
      obtain ⟨quiet, once⟩ := step_begun last begun name
      simp only [quiet, false_and, if_false]
      by_cases own : s.beginsItself split root a = true
      · by_cases same : root = name
        · subst same
          simp only [own, if_true]
          omega
        · simp only [own, if_true, Option.some.injEq, same, if_false]
          omega
      · simp only [own, if_false, reduceCtorEq]
        omega

/-- While the channel is open, the restart sleeps of a program, its queued and its handled
    `RestartRequested` are as many as its handled exits that the policy applies to.  The exits
    sent come from different children, each exited with the code sent.  The calls for the program
    that the daemon began of itself are its handled `RestartRequested`; every spawn is in a call;
    so the program was restarted by its policy at most once for each child with a qualifying
    exit. -/
theorem restarts_conserved (run : Exec (step split) (boot program) trace s) (opened : s.closed = false)
    {config : ProgramConfig} (hconfig : configOf s.processes name = some config) :
    (s.timers.count name + s.events.countP (Message.requestsRestart name) +
      s.handled.countP (Message.requestsRestart name) = s.handled.countP (Message.qualifies config name)) ∧
    (∀ code, config.shouldRestart code = true ↔
      config.restart = some "always" ∨ config.restart = some "on-failure" ∧ code ≠ 0) ∧
    (s.sent.filterMap (·.sender)).Nodup ∧
    (∀ m ∈ s.sent, ∀ code, m.event = .exited name code → ∃ task c status, m.sender = some task ∧
      s.children[task]? = some c ∧ c.program = name ∧ c.exit = some status ∧ status.getD (-1) = code) ∧
    (∀ p ∈ trace, ∀ unit, p.1.Spawns split p.2 unit → ∃ spawn caller root rest,
      p.2 = .startUnit spawn ∧ p.1.lock = .starting caller root (unit :: rest)) ∧
    tally (beginsItself split name) trace = s.handled.countP (Message.requestsRestart name) ∧
    ownStarts split name trace ≤ tally (beginsItself split name) trace ∧
    s.handled.countP (Message.requestsRestart name) ≤ s.children.countP (Child.qualifies config name) ∧
    (config.restart ≠ some "always" → config.restart ≠ some "on-failure" →
      s.handled.countP (Message.requestsRestart name) = 0) := by
  have reached : s.Reached split := ⟨program, trace, run⟩
  have account := reached.conserved opened name config hconfig
  have bound := reached.delivered.qualifying_le reached.reaped config name
  have starts := run_ownStarts run name
  refine ⟨account, config.shouldRestart_iff, reached.delivered.distinct,
    fun m member code event => reached.delivered.exited reached.reaped member event,
    fun p _ unit spawns => spawns.starting, run_requested run (mem_iff_configOf.mpr ⟨config, hconfig⟩),
    by omega, by omega, ?_⟩
  intro notAlways notOnFailure
  have none : s.handled.countP (Message.qualifies config name) = 0 := by
    refine List.countP_eq_zero.mpr fun m _ qualifies => ?_
    obtain ⟨code, _, applies⟩ := Message.qualifies_iff.mp qualifies
    exact ((config.shouldRestart_iff code).mp applies).elim notAlways fun both => notOnFailure both.1
  omega

/-- One failure: the restart that it begins is handled, and the daemon starts the program again of
    itself. -/
theorem restarts_conserved_failure : ∃ trace s,
    Exec (step oneWord) (boot [("web", { command := "web", restart := some "on-failure" })]) trace s ∧
    s.programs = ["web", "web"] ∧ ownStarts oneWord "web" trace = 1 ∧
    s.timers.count "web" + s.events.countP (Message.requestsRestart "web") +
        s.handled.countP (Message.requestsRestart "web") =
      s.handled.countP
        (Message.qualifies { command := "web", restart := some "on-failure" } "web") ∧
    tally (beginsItself oneWord "web") trace = s.handled.countP (Message.requestsRestart "web") ∧
    ownStarts oneWord "web" trace ≤ tally (beginsItself oneWord "web") trace ∧
    s.handled.countP (Message.requestsRestart "web") ≤
      s.children.countP (Child.qualifies { command := "web", restart := some "on-failure" } "web") := by
  let config : ProgramConfig := { command := "web", restart := some "on-failure" }
  let actions : List Action := [.startProcess "web", .startUnit (some 7), .childExits 0 (some 1),
    .childReaped 0 none, .monitorSends 0, .handleSingleEvent, .handleSingleEvent, .timerFires "web",
    .handleSingleEvent, .startUnit (some 8)]
  have failed : (ran oneWord [("web", config)] actions).isSome = true := by decide
  have run := exec_stepsOf (Option.some_get failed).symm
  have known : configOf ((ran oneWord _ _).get failed).processes "web" = some config := rfl
  have once : ownStarts oneWord "web" (stepsOf (step oneWord) (boot [("web", config)]) actions) = 1 := by decide
  obtain ⟨account, _, _, _, _, requested, own, automatic, _⟩ := restarts_conserved run rfl known
  exact ⟨_, _, run, rfl, once, account, requested, own, automatic⟩

end System

end Ciron
