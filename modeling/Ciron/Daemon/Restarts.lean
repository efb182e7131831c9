import Ciron.Daemon.Control
import Ciron.Daemon.Delivery

/-! # Restart conservation

Every restart sleep is begun by a handled `Exited` that the policy applies to, becomes one
`RestartRequested`, and this is handled once: the three stages together hold as many restarts
as qualifying exits were handled.  The exits handled are those of different children. -/

namespace Ciron

open Data

variable {split : String → Option (List String)}

theorem ProgramConfig.shouldRestart_iff (config : ProgramConfig) (code : Int) :
    config.shouldRestart code = true ↔
      config.restart = some "always" ∨ config.restart = some "on-failure" ∧ code ≠ 0 := by
  unfold shouldRestart
  split
  · simp_all
  · rename_i policy
    simp [policy]
  · rename_i always onFailure
    exact iff_of_false Bool.false_ne_true fun policy => policy.elim always fun both => onFailure both.1

namespace Message

def requestsRestart (name : String) (m : Message) : Bool := m.event = .restartRequested name

/-- An exit of `name` that the policy restarts it for. -/
def qualifies (config : ProgramConfig) (name : String) (m : Message) : Bool :=
  match m.event with
  | .exited other code => other = name && config.shouldRestart code
  | _ => false

theorem qualifies_iff {config : ProgramConfig} {name : String} {m : Message} :
    m.qualifies config name = true ↔
      ∃ code, m.event = .exited name code ∧ config.shouldRestart code = true := by
  unfold qualifies
  cases m.event <;> simp [and_assoc]

end Message

/-- The child's exit is one that the policy restarts `name` for. -/
def Child.qualifies (config : ProgramConfig) (name : String) (c : Child) : Bool :=
  c.program = name && c.exit.any fun code => config.shouldRestart (code.getD (-1))

namespace Daemon

/-! ## The account -/

def Conserved (d : Daemon) : Prop :=
  d.closed = false → ∀ (name : String) (config : ProgramConfig), configOf d.processes name = some config →
    d.timers.count name + d.events.countP (Message.requestsRestart name) +
      d.handled.countP (Message.requestsRestart name) = d.handled.countP (Message.qualifies config name)

/-- Handling an event begins a sleep exactly when it is a qualifying exit. -/
theorem onReport_timers_count (d : Daemon) (m : Message) (name : String) (config : ProgramConfig)
    (hconfig : configOf d.processes name = some config) : (d.onReport m.event).timers.count name =
      d.timers.count name + if m.qualifies config name = true then 1 else 0 := by
  obtain ⟨event, sender⟩ := m
  cases event with
  | started | restartRequested => rfl
  | failed other error => simp [onReport, Message.qualifies]
  | exited other code =>
    rw [onReport, onExited_timers]
    by_cases same : other = name
    · subst same
      cases restarts : config.shouldRestart code <;> simp [hconfig, restarts, Message.qualifies]
    · split <;> simp [Message.qualifies, same]

theorem Conserved.moved {d d' : Daemon} {move : Move} (h : Conserved d) (moved : Moved split d move d') :
    Conserved d' := by
  intro opened name config hconfig
  have opened := moved.opened opened
  rw [moved.configs] at hconfig
  have account := h opened name config hconfig
  cases moved.traffic with
  | none _ handled events timers =>
    cases timers with
    | inl timers => rw [handled, events, timers, account]
    | inr fired =>
      obtain ⟨closed, _⟩ := fired
      rw [opened] at closed; cases closed
  | announces other _ handled events timers =>
    rw [handled, events, timers, List.countP_append, ← account]
    simp [Message.requestsRestart]
  | requests other _ sleeping _ handled events timers =>
    rw [handled, events, timers, List.countP_append, ← account]
    by_cases same : other = name
    · subst same
      -- one sleep less, one message more
      have positive := List.count_pos_iff.mpr sleeping
      simp only [List.count_erase_self, List.countP_cons, List.countP_nil, Message.requestsRestart,
        decide_true, if_true]
      omega
    · simp [Message.requestsRestart, List.count_erase_of_ne (Ne.symm same), same]
  | reports task c result _ handled events _ _ _ _ timers =>
    rw [handled, events, timers, List.countP_append, ← account]
    cases result <;> simp [Message.requestsRestart, Child.report]
  | takes m rest queued _ handled events timers =>
    -- the message moves from the queue to the handled ones, and a qualifying exit begins a sleep
    rw [queued, List.countP_cons] at account
    rw [handled, events, timers, onReport_timers_count d m name config hconfig, List.countP_append,
      List.countP_append, List.countP_singleton, List.countP_singleton]
    omega

/-! ## Exits are those of children that have exited -/

/-- The exit handled or queued is that of the child whose monitor sent it. -/
theorem Delivered.exited {d : Daemon} (h : Delivered d) (reaped : Reaped d) {m : Message}
    (member : m ∈ d.sent) {name : String} {code : Int} (event : m.event = .exited name code) :
    ∃ task c status, m.sender = some task ∧ d.children[task]? = some c ∧ c.program = name ∧
      c.exit = some status ∧ status.getD (-1) = code := by
  cases sender : m.sender with
  | none =>
    have := h.anonymous m member sender
    rw [event] at this; cases this
  | some task =>
    obtain ⟨c, result, child, _, hreaped, hevent⟩ := h.reported m member task sender
    rw [event] at hevent
    cases result with
    | error => cases hevent
    | status status =>
      cases hevent
      exact ⟨task, c, status, rfl, child, rfl, reaped task c status child hreaped, rfl⟩

/-- Handled exits that qualify are no more than the children whose exit qualifies. -/
theorem Delivered.qualifying_le {d : Daemon} (h : Delivered d) (reaped : Reaped d)
    (config : ProgramConfig) (name : String) : d.handled.countP (Message.qualifies config name) ≤
      d.children.countP (Child.qualifies config name) := by
  -- the exits have different senders, and each sender's child has exited as its message says
  let exits := d.handled.filter (Message.qualifies config name)
  have sublist : exits.Sublist d.sent := List.filter_sublist.trans (h.fifo ▸ List.sublist_append_left ..)
  have child : ∀ m ∈ exits, ∃ task c, m.sender = some task ∧ d.children[task]? = some c ∧
      c.qualifies config name = true := by
    intro m member
    obtain ⟨code, event, applies⟩ := Message.qualifies_iff.mp (List.mem_filter.mp member).2
    obtain ⟨task, c, status, sender, child, rfl, exit, rfl⟩ := h.exited reaped (sublist.subset member) event
    exact ⟨task, c, sender, child, by simp [Child.qualifies, exit, applies]⟩
  calc d.handled.countP (Message.qualifies config name) = exits.length := List.countP_eq_length_filter
    _ = (exits.filterMap (·.sender)).length := by
      refine (List.filterMap_length_eq_length.mpr fun m member => ?_).symm
      obtain ⟨task, _, sender, _⟩ := child m member
      rw [sender]; rfl
    _ ≤ d.children.countP (Child.qualifies config name) := by
      refine length_le_countP ((sublist.filterMap _).nodup h.distinct) fun task member => ?_
      obtain ⟨m, exit, sender⟩ := List.mem_filterMap.mp member
      obtain ⟨task', c, sender', hchild, qualifies⟩ := child m exit
      rw [sender', Option.some.injEq] at sender
      exact ⟨c, sender ▸ hchild, qualifies⟩

theorem loadFromConfig_conserved (program : List (String × ProgramConfig)) :
    Conserved (loadFromConfig program) := by
  obtain ⟨_, hevents, _, htimers, hhistory, _⟩ := loadFromConfig_fresh program
  intro _ name config _
  rw [handled, hevents, htimers, hhistory]
  rfl

end Daemon

namespace System

theorem Reached.conserved {s : System} (h : s.Reached split) : s.toDaemon.Conserved :=
  h.daemon_invariant Daemon.loadFromConfig_conserved
    fun _ _ _ conserved happly => conserved.moved (Daemon.apply_moved happly)

end System

end Ciron
