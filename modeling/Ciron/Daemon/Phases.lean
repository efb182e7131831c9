import Ciron.Daemon.Control

/-! # The phases of `main` and of the event loop

Where `main` stands says whether the channel is closed and who may hold the lock; the event loop
holds the lock exactly in its drain, and is cancelled only by the abort. -/

namespace Ciron

variable {split : String → Option (List String)}

namespace System

/-! ## `main` -/

structure Phases (s : System) : Prop where
  opened : s.main = .serving ∨ s.main = .waiting → s.closed = false
  restarting : ∀ name, s.lock = .restarting name → s.main = .serving ∨ s.main = .waiting
  closing : s.lock = .closing → s.main = .holding
  stopping : ∀ rest, s.lock = .stopping rest → s.main = .holding ∧ s.closed = true
  ended : s.main = .released ∨ s.main = .aborted → s.closed = true

theorem moveOf_close {s : System} {a : Action} (h : s.moveOf a = .close) : ∃ names, a = .shutdown names := by
  cases a with
  | shutdown names => exact ⟨names, rfl⟩
  | startUnit | stopNext => simp only [moveOf] at h; split at h <;> cases h
  | _ => cases h

/-- Only `shutdown` closes the channel. -/
theorem step_closed {s t : System} {a : Action} (h : s.step split a = some t)
    (other : ∀ names, a ≠ .shutdown names) : t.closed = s.closed := by
  refine (step_moved h).closed fun closes => ?_
  obtain ⟨names, rfl⟩ := moveOf_close closes
  exact other names rfl

theorem step_shutdown {s t : System} {names : List String} (h : s.step split (.shutdown names) = some t) :
    t.toDaemon = { s.toDaemon with closed := true } := by
  obtain ⟨c, hcontrol, hmove, _⟩ := step_inv h
  rw [control_move hcontrol] at hmove
  exact (Option.some.inj hmove).symm

/-- A step by which neither `main` moves on nor the channel changes, and which leaves the lock
    with the same holder, or with none of those that the phases speak of. -/
theorem Phases.keeps {s t : System} (h : Phases s) (main : t.main = s.main) (closed : t.closed = s.closed)
    (lock : t.lock = s.lock ∨ (∀ name, t.lock ≠ .restarting name) ∧ t.lock ≠ .closing ∧
      ∀ rest, t.lock ≠ .stopping rest) : Phases t := by
  cases lock with
  | inl same =>
    exact ⟨by rw [main, closed]; exact h.opened, by rw [same, main]; exact h.restarting,
      by rw [same, main]; exact h.closing, by rw [same, main, closed]; exact h.stopping,
      by rw [main, closed]; exact h.ended⟩
  | inr other =>
    obtain ⟨notRestarting, notClosing, notStopping⟩ := other
    exact ⟨by rw [main, closed]; exact h.opened, fun name held => absurd held (notRestarting name),
      fun held => absurd held notClosing, fun rest held => absurd held (notStopping rest),
      by rw [main, closed]; exact h.ended⟩

theorem Phases.step {s t : System} {a : Action} (h : Phases s) (hstep : s.step split a = some t) :
    Phases t := by
  have closed := step_closed hstep
  cases step_stepped hstep with
  | calls caller root rest called _ lock main =>
    refine h.keeps main (closed ?_) (.inr (lock ▸ Lock.resume_quiet ..))
    rintro names rfl
    exact called
  | attempts caller root unit rest spawn action _ lock main =>
    exact h.keeps main (closed (by simp [action])) (.inr (lock ▸ Lock.resume_quiet ..))
  | stays lock main _ _ opened => exact h.keeps main (closed opened) (.inl lock)
  | loopAcquires action _ lock main | loopReleases action _ lock main =>
    exact h.keeps main (closed (by simp [action])) (.inr (by simp [lock]))
  | restarts name late action free serving lock main =>
    have closed := closed (by simp [action])
    exact ⟨fun _ => closed.trans (h.opened (.inl serving)), fun _ _ => .inl (main.trans serving),
      by simp [lock], by simp [lock], by simp [main, serving]⟩
  | serversStop action serving lock main =>
    have closed := closed (by simp [action])
    refine ⟨fun _ => closed.trans (h.opened (.inl serving)), fun _ _ => .inr main, fun held => ?_,
      fun rest held => ?_, by simp [main]⟩
    · have holding := h.closing (lock ▸ held)
      rw [serving] at holding; cases holding
    · have holding := (h.stopping rest (lock ▸ held)).1
      rw [serving] at holding; cases holding
  | mainAcquires action free lock main =>
    exact ⟨by simp [main], by simp [lock], fun _ => main, by simp [lock], by simp [main]⟩
  | shutdown names action held lock main =>
    subst action
    have holding := main.trans (h.closing held)
    have closed : t.closed = true := by rw [step_shutdown hstep]
    exact ⟨by simp [holding], by simp [lock], by simp [lock], fun _ _ => ⟨holding, closed⟩, fun _ => closed⟩
  | stopNext name rest late action held lock main =>
    obtain ⟨holding, wasClosed⟩ := h.stopping _ held
    have closed := (closed (by simp [action])).trans wasClosed
    exact ⟨by simp [main, holding], by simp [lock], by simp [lock], fun _ _ => ⟨main.trans holding, closed⟩,
      fun _ => closed⟩
  | mainReleases action held lock main =>
    have closed := (closed (by simp [action])).trans (h.stopping _ held).2
    exact ⟨by simp [main], by simp [lock], by simp [lock], by simp [lock], fun _ => closed⟩
  | mainAborts action released lock main =>
    have closed := (closed (by simp [action])).trans (h.ended (.inl released))
    refine ⟨by simp [main], fun name held => ?_, fun held => ?_, fun rest held => ?_, fun _ => closed⟩
    · cases h.restarting name (lock ▸ held) with
      | inl serving => rw [released] at serving; cases serving
      | inr waiting => rw [released] at waiting; cases waiting
    · have holding := h.closing (lock ▸ held)
      rw [released] at holding; cases holding
    · have holding := (h.stopping rest (lock ▸ held)).1
      rw [released] at holding; cases holding

theorem Reached.phases {s : System} (h : s.Reached split) : s.Phases := by
  refine h.invariant Phases ?_ fun s a t _ phases hstep => phases.step hstep
  intro program
  exact ⟨fun _ => (Daemon.loadFromConfig_fresh program).2.2.1, nofun, nofun, nofun, nofun⟩

/-! ## The event loop -/

/-- The event loop in its drain holds the lock, perhaps inside a `start_process`; it has ended only
    if it was aborted. -/
structure LoopPhases (lock : Lock) (loop : LoopPhase) (main : MainPhase) : Prop where
  holding : loop = .holding → lock = .draining ∨ ∃ root rest, lock = .starting .eventLoop root rest
  ended : loop = .ended → main = .aborted

variable {lock : Lock} {loop : LoopPhase} {main : MainPhase}

theorem LoopPhases.notHolding (h : LoopPhases lock loop main) (other : lock ≠ .draining)
    (idle : ∀ root rest, lock ≠ .starting .eventLoop root rest) : loop ≠ .holding := by
  intro holding
  cases h.holding holding with
  | inl drains => exact other drains
  | inr starts =>
    obtain ⟨root, rest, held⟩ := starts
    exact idle root rest held

/-- The loop has not moved and does not hold the lock. -/
theorem LoopPhases.away (h : LoopPhases lock loop main) (notHolding : loop ≠ .holding) (lock' : Lock)
    {main' : MainPhase} (forth : main = .aborted → main' = .aborted) : LoopPhases lock' loop main' :=
  ⟨fun holding => absurd holding notHolding, fun ended => forth (h.ended ended)⟩

/-- A `start_process` for the event loop. -/
theorem LoopPhases.starts (h : LoopPhases lock loop main) (root : String) (rest : List String) :
    LoopPhases (.resume .eventLoop root rest) loop main := by
  refine ⟨fun _ => ?_, h.ended⟩
  cases rest with
  | nil => exact .inl rfl
  | cons unit rest => exact .inr ⟨root, unit :: rest, rfl⟩

theorem control_loopPhases {s : System} {a : Action} {c : Control} (phases : s.Phases)
    (h : LoopPhases s.lock s.loop s.main) (hcontrol : s.control a = some c) : LoopPhases c.lock c.loop c.main := by
  have free (held : s.lock = .free) : s.loop ≠ .holding := h.notHolding (by simp [held]) (by simp [held])
  cases a with
  | startProcess name =>
    obtain ⟨serves, hbegin⟩ := Option.ite_none_right_eq_some.mp hcontrol
    obtain ⟨_, loop, main, _⟩ := beginStart_inv hbegin
    rw [loop, main]
    exact h.away (free (serving_iff.mp serves).1) _ id
  | restartWakes =>
    obtain ⟨name, held, hbegin⟩ := control_restartWakes hcontrol
    obtain ⟨_, loop, main, _⟩ := beginStart_inv hbegin
    rw [loop, main]
    exact h.away (h.notHolding (by simp [held]) (by simp [held])) _ id
  | handleSingleEvent =>
    cases control_handleSingleEvent hcontrol with
    | inl request =>
      obtain ⟨_, loop, main, _⟩ := beginHandle_inv request.2
      rw [loop, main]
      exact h.away (free (serving_iff.mp request.1).1) _ id
    | inr drains =>
      -- in the drain of the event loop, which holds the lock through a `start_process` it begins
      obtain ⟨_, loop, main, begun⟩ := beginHandle_inv drains.2
      cases begun with
      | inl starts =>
        obtain ⟨root, _, _, _, hbegin⟩ := starts
        obtain ⟨_, _, _, rest, lock, _⟩ := beginStart_inv hbegin
        rw [lock, loop, main]
        exact h.starts root rest
      | inr stays =>
        rw [stays.1]
        exact h
  | startUnit spawn =>
    obtain ⟨caller, root, unit, rest, held, rfl⟩ := control_startUnit hcontrol
    cases caller with
    | request => exact h.away (h.notHolding (by simp [held]) (by simp [held])) _ id
    | eventLoop => exact h.starts root rest
  | restartProcess name late =>
    obtain ⟨serves, hstop⟩ := Option.ite_none_right_eq_some.mp hcontrol
    have away := free (serving_iff.mp serves).1
    split at hstop <;> cases hstop
    · exact h
    · exact h.away away _ id
  | stopNext late =>
    obtain ⟨name, rest, held, rfl⟩ := control_stopNext hcontrol
    exact h.away (h.notHolding (by simp [held]) (by simp [held])) _ id
  | stopProcess =>
    obtain ⟨_, same⟩ := Option.ite_none_right_eq_some.mp hcontrol
    cases same
    exact h
  | childExits | childReaped | monitorSends | timerFires =>
    cases hcontrol
    exact h
  | loopWakes | loopQueues | loopReleases =>
    obtain ⟨_, same⟩ := Option.ite_none_right_eq_some.mp hcontrol
    cases same
    exact ⟨by simp, by simp⟩
  | loopAcquires =>
    obtain ⟨_, same⟩ := Option.ite_none_right_eq_some.mp hcontrol
    cases same
    exact ⟨fun _ => .inl rfl, fun ended => by cases ended⟩
  | loopCancelled =>
    obtain ⟨possible, same⟩ := Option.ite_none_right_eq_some.mp hcontrol
    cases same
    exact ⟨by simp, fun _ => possible.1⟩
  | serversStop =>
    obtain ⟨possible, same⟩ := Option.ite_none_right_eq_some.mp hcontrol
    cases same
    exact ⟨h.holding, fun ended => by rw [h.ended ended] at possible; cases possible.1⟩
  | mainAcquires =>
    obtain ⟨possible, same⟩ := Option.ite_none_right_eq_some.mp hcontrol
    cases same
    exact h.away (free possible.2) _ fun aborted => by rw [aborted] at possible; cases possible.1
  | shutdown names =>
    obtain ⟨possible, same⟩ := Option.ite_none_right_eq_some.mp hcontrol
    cases same
    exact h.away (h.notHolding (by simp [possible.1]) (by simp [possible.1])) _ id
  | mainReleases =>
    obtain ⟨held, same⟩ := Option.ite_none_right_eq_some.mp hcontrol
    cases same
    refine h.away (h.notHolding (by simp [held]) (by simp [held])) _ fun aborted => ?_
    have holding := (phases.stopping [] held).1
    rw [aborted] at holding; cases holding
  | mainAborts =>
    obtain ⟨_, same⟩ := Option.ite_none_right_eq_some.mp hcontrol
    cases same
    exact ⟨h.holding, fun _ => rfl⟩

theorem Reached.loopPhases {s : System} (h : s.Reached split) : LoopPhases s.lock s.loop s.main := by
  refine h.invariant (fun s => LoopPhases s.lock s.loop s.main) ?_ ?_
  · exact fun _ => ⟨by simp [boot], by simp [boot]⟩
  · intro s a t reached phases hstep
    obtain ⟨c, hcontrol, _, lock, loop, main⟩ := step_inv hstep
    rw [lock, loop, main]
    exact control_loopPhases reached.phases phases hcontrol

end System

end Ciron
