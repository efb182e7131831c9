import Ciron.Daemon.Phases
import Ciron.Daemon.Reviving

/-! # What a stop leaves under way

A restart by the policy passes through four stages: a monitor whose child's exit would
qualify, the queued `Exited`, the restart sleep and the queued `RestartRequested`.  A stop
aborts the monitor of the current child and reaches nothing else.  Where nothing else is
under way, the program stays stopped until it is asked for again (`never_spawns`); anything
else under way can come to a spawn (`calm_of_never`). -/

namespace Ciron

open Transition

variable {split : String → Option (List String)}

/-- As it ages a child only loses statuses it may report. -/
theorem Child.Becomes.mayReport {c c' : Child} {code : Option Int} (ages : c.Becomes c')
    (h : c'.MayReport code) : c.MayReport code := by
  obtain ⟨exit, reaped⟩ := h
  constructor
  · cases hexit : c.exit with
    | none => exact .inl rfl
    | some status =>
      rw [ages.exit status hexit] at exit
      exact .inr (exit.resolve_left nofun)
  · cases hreaped : c.reaped with
    | none => exact .inl rfl
    | some result =>
      rw [ages.reaped result hreaped] at reaped
      exact .inr (reaped.resolve_left nofun)

namespace Daemon

/-- No restart of `name` is under way, monitors meeting `aborted` apart. -/
structure Calm (d : Daemon) (name : String) (config : ProgramConfig) (aborted : Nat → Child → Prop) :
    Prop where
  sleeps : name ∉ d.timers
  requests : ∀ m ∈ d.events, m.event ≠ .restartRequested name
  exits : ∀ m ∈ d.events, ∀ code, m.event = .exited name code → config.shouldRestart code = false
  monitors : ∀ (task : Nat) (c : Child) (code : Option Int), d.children[task]? = some c →
    c.program = name → c.monitor = .waiting → ¬ aborted task c → c.MayReport code →
    config.shouldRestart (code.getD (-1)) = false

/-- The stop of `name` aborts the monitor of child `task`. -/
def Aborts (d : Daemon) (name : String) (late : Bool) (task : Nat) (c : Child) : Prop :=
  d.isRunning name = true ∧ d.latest name = some task ∧ ¬ (late = true ∧ c.reaped.isSome = true)

variable {d d' : Daemon} {name : String} {config : ProgramConfig}

/-- `c'` is what the stop of `name` makes of child `task`. -/
structure Halts (d : Daemon) (name : String) (late : Bool) (task : Nat) (c c' : Child) : Prop where
  program : c'.program = c.program
  exit : c'.exit = c.exit
  reaped : c'.reaped = c.reaped
  monitor : c.program = name →
    (c'.monitor = .waiting ↔ c.monitor = .waiting ∧ ¬ d.Aborts name late task c)

/-- What a stop does to everything that a restart of the program can come from. -/
structure Stops (d d' : Daemon) (name : String) (late : Bool) : Prop where
  events : d'.events = d.events
  timers : d'.timers = d.timers
  stopped : d'.isRunning name = false
  forth : ∀ (task : Nat) (c : Child), d.children[task]? = some c →
    ∃ c', d'.children[task]? = some c' ∧ Halts d name late task c c'
  back : ∀ (task : Nat) (c' : Child), d'.children[task]? = some c' →
    ∃ c, d.children[task]? = some c ∧ Halts d name late task c c'

theorem Stops.refl {late : Bool} (idle : d.isRunning name = false) : Stops d d name late := by
  have halts (task : Nat) (c : Child) : Halts d name late task c c :=
    ⟨rfl, rfl, rfl, fun _ => by simp [Aborts, idle]⟩
  refine ⟨rfl, rfl, idle, ?_, ?_⟩
  · exact fun task c child => ⟨c, child, halts task c⟩
  · exact fun task c child => ⟨c, child, halts task c⟩

/-- The handle aborted is that of the program's latest child. -/
theorem Recorded.aborts_iff (recorded : Recorded d) {process : ManagedProcess}
    (found : d.processes.lookup name = some process) (running : process.running = true) (late : Bool)
    (task : Nat) (c : Child) : d.Aborts name late task c ↔
      process.monitorHandle = some task ∧ ¬ (late = true ∧ c.reaped.isSome = true) := by
  obtain ⟨last, _, latest, _, handle, _⟩ := recorded.current name process found running
  simp only [Aborts, isRunning_of_found found, running, latest, handle, Option.some.injEq, true_and]

theorem halted_halts (recorded : Recorded d) {process : ManagedProcess}
    (found : d.processes.lookup name = some process) (running : process.running = true) (late : Bool)
    (task : Nat) (c : Child) : Halts d name late task c (c.halted process late task) := by
  refine ⟨Child.halted_program .., Child.halted_exit .., Child.halted_reaped .., fun _ => ?_⟩
  rw [recorded.aborts_iff found running, Child.halted_monitor, Child.abort_monitor]
  by_cases handle : process.monitorHandle = some task
  · rw [if_pos handle]
    split
    · rename_i aborted
      simp [handle, aborted.2]
    · rename_i kept
      simp only [handle, true_and]
      tauto
  · simp [handle]

theorem stopProcess_stops (recorded : Recorded d) (name : String) (late : Bool) :
    Stops d (d.stopProcess name late).2 name late := by
  unfold stopProcess
  split
  · rename_i absent
    exact .refl (by simp [isRunning, absent])
  · rename_i process found
    cases running : process.running with
    | false => exact .refl (by rw [isRunning_of_found found, running])
    | true =>
      have halts := halted_halts recorded found running late
      refine ⟨halt_events .., halt_timers .., by simp [isRunning], fun task c child => ?_, fun task c' child' => ?_⟩
      · exact ⟨_, (halt_children ..).trans (by rw [child]; rfl), halts task c⟩
      · obtain ⟨c, child, rfl⟩ := Option.map_eq_some_iff.mp ((halt_children ..).symm.trans child')
        exact ⟨c, child, halts task c⟩

theorem Calm.stop {late : Bool} (h : Calm d name config (d.Aborts name late)) (recorded : Recorded d) :
    Calm (d.stopProcess name late).2 name config (fun _ _ => False) := by
  have stops := stopProcess_stops recorded name late
  refine ⟨by rw [stops.timers]; exact h.sleeps, by rw [stops.events]; exact h.requests,
    by rw [stops.events]; exact h.exits, fun task c' code child' program waiting' _ reports => ?_⟩
  obtain ⟨c, child, halts⟩ := stops.back task c' child'
  have program : c.program = name := halts.program.symm.trans program
  obtain ⟨waiting, kept⟩ := (halts.monitor program).mp waiting'
  refine h.monitors task c code child program waiting kept ?_
  rwa [Child.MayReport, ← halts.exit, ← halts.reaped]

theorem Calm.moved {move : Move} (h : Calm d name config (fun _ _ => False)) (dead : Reaped d)
    (hconfig : configOf d.processes name = some config)
    (other : ∀ pid, move ≠ .start name (some pid)) (moved : Moved split d move d') :
    Calm d' name config (fun _ _ => False) := by
  constructor
  · intro sleeps
    cases moved.traffic.sleeping sleeps with
    | inl before => exact h.sleeps before
    | inr begun =>
      obtain ⟨m, queued, code, event, restarts⟩ := begun
      rw [hconfig, Option.any_some, h.exits m queued code event] at restarts
      cases restarts
  · intro m member event
    cases moved.traffic.queued member with
    | old queued => exact h.requests m queued event
    | announced _ sent => rw [event] at sent; cases sent
    | requested fired _ sleeping sent =>
      rw [event] at sent
      cases sent
      exact h.sleeps sleeping
    | reported task c result _ _ _ sent =>
      rw [event] at sent
      cases result <;> cases sent
  · intro m member code event
    cases moved.traffic.queued member with
    | old queued => exact h.exits m queued code event
    | announced _ sent | requested _ _ _ sent => rw [event] at sent; cases sent
    | reported task c result child waiting reaped sent =>
      -- the monitor that has just reported was one of those that might
      rw [event] at sent
      cases result with
      | error => cases sent
      | status status =>
        cases sent
        exact h.monitors task c status child rfl waiting id ⟨.inr (dead task c status child reaped), .inr reaped⟩
  · intro task c' code child' program waiting' _ reports
    cases moved.effect with
    | keeps keeps =>
      obtain ⟨c, child, ages⟩ := keeps.back task c' child'
      exact h.monitors task c code child (by rw [← ages.program, program]) (ages.waiting waiting') id
        (ages.mayReport reports)
    | launches spawned process command pid attempt _ launched =>
      subst launched
      cases launch_child_cases child' with
      | inl old => exact h.monitors task c' code old program waiting' id reports
      | inr new =>
        -- the new child is of another program
        rw [new.2] at program
        subst program
        exact absurd attempt (other pid)

end Daemon

namespace System

/-- No restart of `name` is under way, and no call either that will come to start it. -/
structure Quiet (s : System) (name : String) (config : ProgramConfig) : Prop where
  known : configOf s.processes name = some config
  unlisted : ∀ other config', other ≠ name → configOf s.processes other = some config' → name ∉ config'.deps
  calm : s.Calm name config (fun _ _ => False)
  settled : name ∉ s.lock.pending
  awake : s.lock ≠ .restarting name

theorem Quiet.step {s t : System} {a : Action} {name : String} {config : ProgramConfig}
    (h : Quiet s name config) (reached : s.Reached split)
    (norequest : a.requests name = false)
    (hstep : s.step split a = some t) : Quiet t name config := by
  have settled : name ∉ t.lock.pending := by
    intro pending
    cases step_pending hstep with
    | same kept => exact h.settled (kept ▸ pending)
    | attempts unit spawn _ queued => exact h.settled (queued ▸ List.mem_cons_of_mem _ pending)
    | calls root called _ _ closure =>
      -- no other program pulls this one in, so the call is for itself
      obtain rfl := ((closure name).mp pending).2.eq_of_unlisted h.unlisted
      unfold Calls at called
      split at called
      · subst called
        simp [Action.requests] at norequest
      · exact h.awake called
      · obtain ⟨sender, rest, queued⟩ := called
        exact h.calm.requests _ (queued ▸ List.mem_cons_self ..) rfl
      · exact called
  refine ⟨by rw [step_configs hstep, h.known], by rw [step_configs hstep]; exact h.unlisted, ?_, settled, ?_⟩
  · refine h.calm.moved reached.reaped h.known (fun pid launched => ?_) (step_moved hstep)
    exact h.settled (step_start hstep launched ▸ List.mem_cons_self ..)
  · intro held
    cases step_restarting hstep held with
    | inl earlier => exact h.awake earlier
    | inr asked =>
      obtain ⟨late, action⟩ := asked
      simp [action, Action.requests] at norequest

theorem Quiet.not_spawns {s : System} {a : Action} {name : String} {config : ProgramConfig}
    (h : Quiet s name config) : ¬ s.Spawns split a name := by
  intro spawns
  obtain ⟨pid, _, _, attempt, _⟩ := spawns.inv
  obtain ⟨t, hstep, _⟩ := spawns
  exact h.settled (step_start hstep attempt ▸ List.mem_cons_self ..)

end System

end Ciron
