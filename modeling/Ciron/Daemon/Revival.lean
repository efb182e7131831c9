import Ciron.Daemon.Reviving
import Ciron.Daemon.Supervision

/-! # No program is left for dead

Wherever a run of the daemon has come to, a program with `restart = "always"` whose latest child is
dead can be spawned again by the tasks of the daemon alone (`Proceeds`): the monitor, the event
loop and the restart sleep.  What ends supervision for a reason is `Released`. -/

namespace Ciron

open Data Transition

variable {split : String → Option (List String)}

namespace System

/-- In any state that a run comes to, an `always` program whose latest child is dead can come to be
    spawned by nothing but monitors, the event loop and restart sleeps, unless its supervision has
    ended for a reason or waiting for the child has failed. -/
theorem always_revived {s : System} (reached : s.Reached split) (free : s.lock = .free)
    (serving : s.main = .serving) {name : String} {config : ProgramConfig} {command : Command}
    (hconfig : configOf s.processes name = some config) (always : config.restart = some "always")
    (built : buildCommand split name config = .ok command) {task : Nat} (latest : s.latest name = some task)
    {c : Child} {code : Option Int} (child : s.children[task]? = some c) (dead : c.exit = some code)
    (waited : ∀ e, c.reaped ≠ some (.error e)) (kept : ¬ s.Released name) : s.MayRevive split name := by
  have opened := reached.phases.opened (.inl serving)
  have restartable : s.Restartable split name config command := ⟨reached, free, serving, hconfig, built⟩
  have restarts (code : Int) : config.shouldRestart code = true :=
    (config.shouldRestart_iff code).mpr (.inl always)
  have program : c.program = name := by
    obtain ⟨last, child', program⟩ := Daemon.latest_child latest
    cases child.symm.trans child'
    exact program
  cases running : s.isRunning name with
  | true =>
    -- the monitor has still to report, or the report is in the queue
    obtain ⟨process, found, runs⟩ := Daemon.isRunning_iff.mp running
    obtain ⟨task', c', latest', child', _, watched⟩ := reached.watched opened found runs
    cases latest.symm.trans latest'
    cases child.symm.trans child'
    rcases watched with waiting | ⟨m, queued, sender, _⟩
    · cases reaped : c.reaped with
      | none => exact restartable.dead child program waiting dead (.inl reaped) (restarts _)
      | some result =>
        cases result with
        | status code' => exact restartable.reaped child program waiting reaped (restarts _)
        | error e => exact absurd reaped (waited e)
    · have sent : m ∈ s.sent := by
        rw [reached.delivered.fifo]
        exact List.mem_append_right _ queued
      obtain ⟨c'', result, child'', _, reaped, event⟩ := reached.delivered.reported m sent task sender
      cases child.symm.trans child''
      cases result with
      | status code' => exact restartable.exited queued (by rw [event, ← program]; rfl) (restarts _)
      | error e => exact absurd reaped (waited e)
  | false =>
    rcases (reached.supervising opened name config task hconfig always latest).resolve_left
      (by rw [free]; exact List.not_mem_nil) with runs | sleeps | ⟨m, queued, event⟩ | released
    · rw [running] at runs
      cases runs
    · exact restartable.sleeps running sleeps
    · exact restartable.requested running queued event
    · exact absurd released kept

/-- The child is dead, and its monitor has not noticed. -/
theorem always_revived_exited : ∃ s : System, s.isRunning "web" = true ∧
    s.children.map (·.exit) = [some (some 0)] ∧ s.MayRevive oneWord "web" := by
  let config : ProgramConfig := { command := "web", restart := some "always" }
  have exited : (ran oneWord [("web", config)]
      [.startProcess "web", .startUnit (some 7), .childExits 0 (some 0)]).isSome = true := by decide
  have policy : config.restart = some "always" := rfl
  refine ⟨_, rfl, rfl, always_revived (Reached.ran exited) rfl rfl rfl policy rfl rfl rfl rfl nofun ?_⟩
  rintro ⟨n, recent, reason⟩
  have started : n ∈ [Note.posted { event := .started "web" }] := recent
  rw [List.mem_singleton.mp started] at reason
  simp at reason

end System

end Ciron
