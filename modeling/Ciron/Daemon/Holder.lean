import Ciron.Daemon.Tracking

/-! # The holder of the lock

A step is either one of whoever holds the write lock, or one of what goes on beside it: children
exit, their monitors wait and send, restart sleeps end, and tasks come to the lock and wait.  What
goes on beside a held lock leaves the lock and the records alone. -/

namespace Ciron

open Transition

variable {split : String → Option (List String)}

/-- A move that is none of the manager's own. -/
def Move.Outside : Move → Prop
  | .idle | .exit .. | .reap .. | .send _ | .fire _ => True
  | .start .. | .stop .. | .handle | .close => False

namespace Daemon

variable {d d' : Daemon} {move : Move}

theorem Moved.outside_processes (moved : Moved split d move d') (outside : move.Outside) :
    d'.processes = d.processes := by
  cases moved with
  | unchanged | exits | reaps => rfl
  | sends => rw [sendReport, post_processes]
  | fires => rw [fire, post_processes]
  | _ => cases outside

/-- Only an attempt launches anything. -/
theorem Moved.keeps (moved : Moved split d move d') (other : ∀ name spawn, move ≠ .start name spawn) :
    Keeps d d' := by
  cases moved.effect with
  | keeps keeps => exact keeps
  | launches name _ _ pid attempt => exact absurd attempt (other name (some pid))

theorem Moved.outside_keeps (moved : Moved split d move d') (outside : move.Outside) : Keeps d d' :=
  moved.keeps fun name spawn attempt => by rw [attempt] at outside; exact outside

end Daemon

namespace System

variable {s t : System} {a : Action}

/-- The step is one of whoever holds the lock. -/
def Holds (s : System) : Action → Bool
  | .startUnit _ | .restartWakes | .loopReleases | .shutdown _ | .stopNext _ | .mainReleases => true
  | .handleSingleEvent => s.lock = .draining
  | _ => false

/-- Nobody but its holder changes the lock, or the records while it is held. -/
theorem step_bystander (held : s.lock ≠ .free) (other : s.Holds a = false) (h : s.step split a = some t) :
    t.lock = s.lock ∧ (s.moveOf a).Outside := by
  obtain ⟨c, hcontrol, _, lock, _⟩ := step_inv h
  have busy : ¬ s.serving = true := fun serves => held (serving_iff.mp serves).1
  rw [lock]
  cases a with
  | startUnit | restartWakes | loopReleases | shutdown | stopNext | mainReleases => cases other
  | startProcess | stopProcess | restartProcess =>
    exact absurd (Option.ite_none_right_eq_some.mp hcontrol).1 busy
  | loopAcquires => exact absurd (Option.ite_none_right_eq_some.mp hcontrol).1.1 held
  | mainAcquires => exact absurd (Option.ite_none_right_eq_some.mp hcontrol).1.2 held
  | handleSingleEvent =>
    cases control_handleSingleEvent hcontrol with
    | inl request => exact absurd request.1 busy
    | inr drains => exact absurd drains.1 (of_decide_eq_false other)
  | childExits | childReaped | monitorSends | timerFires =>
    cases hcontrol
    exact ⟨rfl, trivial⟩
  | loopWakes | loopQueues | loopCancelled | serversStop | mainAborts =>
    obtain ⟨_, same⟩ := Option.ite_none_right_eq_some.mp hcontrol
    cases same
    exact ⟨rfl, trivial⟩

end System

end Ciron
