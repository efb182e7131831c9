import Ciron.Data.History
import Ciron.Daemon.Holder

/-! # The order of the events

While the channel is open the `Started` events name the children in the order in which they were
spawned.  A child's monitor comes after its spawn, so its report finds the child's own `Started`
in the channel; and what the channel hands out comes in the order in which it was sent. -/

namespace Ciron

open Data

variable {split : String → Option (List String)}

/-- The program that a `Started` names. -/
def Message.started? (m : Message) : Option String :=
  match m.event with
  | .started name => some name
  | _ => none

namespace Daemon

variable {d d' : Daemon} {move : Move}

/-- A move spawns a child and announces it if the channel takes it, or sends at most one other
    message, a report only of a child that is there. -/
theorem Moved.announces (moved : Moved split d move d') :
    (∃ name, d'.programs = d.programs ++ [name] ∧
      d'.sent = if d.closed then d.sent else d.sent ++ [{ event := .started name }]) ∨
    d'.programs = d.programs ∧ (d'.sent = d.sent ∨ d.closed = false ∧ ∃ m, d'.sent = d.sent ++ [m] ∧
      m.started? = none ∧ ∀ task, m.sender = some task → task < d.children.length) := by
  have kept (other : ∀ name spawn, move ≠ .start name spawn) : d'.programs = d.programs :=
    (moved.keeps other).programs
  cases moved with
  | unchanged | spawnFails => exact .inr ⟨rfl, .inl rfl⟩
  | closes | exits | reaps => exact .inr ⟨kept (by simp), .inl rfl⟩
  | @launches name =>
    exact .inl ⟨name, by rw [programs, launch_children, List.map_append]; rfl, launch_sent⟩
  | @halts name late process =>
    refine .inr ⟨kept (by simp), .inl ?_⟩
    rw [sent, halt_history]
    cases process.pid <;> rfl
  | @handles m =>
    refine .inr ⟨kept (by simp), .inl ?_⟩
    rw [sent, onReport_history]
    rfl
  | @sends task c result child =>
    refine .inr ⟨kept (by simp), ?_⟩
    rw [sendReport, post_sent]
    split
    · exact .inl rfl
    · rename_i opened
      refine .inr ⟨Bool.eq_false_of_not_eq_true opened, _, rfl, by cases result <;> rfl, fun other sender => ?_⟩
      cases sender
      exact (List.getElem?_eq_some_iff.mp child).1
  | @fires name =>
    refine .inr ⟨kept (by simp), ?_⟩
    rw [fire, post_sent]
    split
    · exact .inl rfl
    · rename_i opened
      exact .inr ⟨Bool.eq_false_of_not_eq_true opened, _, rfl, rfl, by simp⟩

/-- The `Started` events sent are those of the first children, of all while the channel is open,
    and each report comes after as many of them as there are children up to its own. -/
structure Announced (d : Daemon) : Prop where
  order : d.sent.filterMap Message.started? <+: d.programs
  all : d.closed = false → d.sent.filterMap Message.started? = d.programs
  before : ∀ before m after, d.sent = before ++ m :: after →
    ∀ task, m.sender = some task → task < (before.filterMap Message.started?).length

theorem Announced.moved (h : Announced d) (moved : Moved split d move d') : Announced d' := by
  rcases moved.announces with ⟨name, programs, sent⟩ | ⟨programs, same | ⟨opened, m, sent, other, sender⟩⟩
  · cases closed : d.closed with
    | true =>
      rw [if_pos closed] at sent
      refine ⟨?_, fun opened => ?_, by rw [sent]; exact h.before⟩
      · rw [sent, programs]
        exact h.order.trans (List.prefix_append ..)
      · rw [moved.opened opened] at closed
        cases closed
    | false =>
      rw [if_neg (by simp [closed])] at sent
      have all : d'.sent.filterMap Message.started? = d'.programs := by
        rw [sent, programs, List.filterMap_append, h.all closed]
        rfl
      refine ⟨all ▸ List.prefix_refl _, fun _ => all, ?_⟩
      rw [sent, forall_before_concat]
      exact ⟨h.before, nofun⟩
  · refine ⟨by rw [same, programs]; exact h.order, fun opened => ?_, by rw [same]; exact h.before⟩
    rw [same, programs, h.all (moved.opened opened)]
  · have kept : d'.sent.filterMap Message.started? = d.sent.filterMap Message.started? := by
      simp [sent, other]
    refine ⟨by rw [kept, programs]; exact h.order, fun _ => by rw [kept, programs, h.all opened], ?_⟩
    rw [sent, forall_before_concat]
    refine ⟨h.before, fun task own => ?_⟩
    rw [h.all opened, Daemon.programs, List.length_map]
    exact sender task own

theorem loadFromConfig_announced (program : List (String × ProgramConfig)) :
    Announced (loadFromConfig program) := by
  obtain ⟨children, _, _, _, history, _⟩ := loadFromConfig_fresh program
  have sent : (loadFromConfig program).sent = [] := by rw [sent, history]; rfl
  have programs : (loadFromConfig program).programs = [] := by rw [programs, children]; rfl
  refine ⟨by rw [sent, programs]; exact List.prefix_refl _, fun _ => by rw [sent, programs]; rfl, ?_⟩
  rw [sent]
  intro before m after order
  exact absurd order.symm (by simp)

end Daemon

namespace System

theorem Reached.announced {s : System} (h : s.Reached split) : s.toDaemon.Announced :=
  h.daemon_invariant Daemon.loadFromConfig_announced
    fun _ _ _ announced happly => announced.moved (Daemon.apply_moved happly)

/-- The `Started` events handled and queued name the children in the order of their spawns, all of
    them while the channel is open; and what is handled before a child's exit or failure, or stands
    before it in the queue, has the child's own `Started` at the child's place among them. -/
theorem started_first {s : System} (reached : s.Reached split) :
    ((s.handled ++ s.events).filterMap Message.started? <+: s.programs) ∧
    (s.closed = false → (s.handled ++ s.events).filterMap Message.started? = s.programs) ∧
    ∀ before m after, s.handled ++ s.events = before ++ m :: after → ∀ task, m.sender = some task →
      ∃ c, s.children[task]? = some c ∧ m.event.reports c.program = true ∧
        (before.filterMap Message.started?)[task]? = some c.program := by
  have announced := reached.announced
  have delivered := reached.delivered
  rw [← delivered.fifo]
  refine ⟨announced.order, announced.all, fun before m after order task sender => ?_⟩
  obtain ⟨c, result, child, _, _, event⟩ := delivered.reported m (by simp [order]) task sender
  have earlier := announced.before before m after order task sender
  -- those before `m` name the first children, and are more than the child's number
  have first : before.filterMap Message.started? <+: s.programs := by
    refine List.IsPrefix.trans ?_ announced.order
    rw [order, List.filterMap_append]
    exact List.prefix_append ..
  refine ⟨c, child, by simp [event], ?_⟩
  rw [List.getElem?_eq_getElem earlier, first.getElem earlier, ← List.getElem?_eq_getElem]
  exact Daemon.programs_getElem? child

/-- The `Started` of the first child and that of the second, and then the exit of the first. -/
theorem started_first_exit : ∃ s : System, s.handled.length = 1 ∧ s.events.length = 2 ∧
    ((s.handled ++ s.events).filterMap Message.started? <+: s.programs) ∧
    (s.closed = false → (s.handled ++ s.events).filterMap Message.started? = s.programs) ∧
    ∀ before m after, s.handled ++ s.events = before ++ m :: after → ∀ task, m.sender = some task →
      ∃ c, s.children[task]? = some c ∧ m.event.reports c.program = true ∧
        (before.filterMap Message.started?)[task]? = some c.program :=
  have exited : (ran oneWord [("web", { command := "web" }), ("db", { command := "db" })] [.startProcess "web",
    .startUnit (some 7), .handleSingleEvent, .startProcess "db", .startUnit (some 8), .childExits 0 (some 0),
    .childReaped 0 none, .monitorSends 0]).isSome = true := by decide
  ⟨_, rfl, rfl, started_first (Reached.ran exited)⟩

end System

end Ciron
