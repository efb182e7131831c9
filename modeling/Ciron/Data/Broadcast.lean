import Mathlib.Data.List.Basic

/-! # Broadcast channels of bounded room

A channel keeps the latest `room` values that were sent.  A receiver has a cursor, the number of
values sent before the one it will get next.  When that value is not kept any more the receiver
is told how many it lost, and the cursor goes to the oldest value there is.

`Heard` is what a receiver knows of the values sent since it subscribed: it has got them in
order, each once, but for as many as it was told that it lost. -/

namespace Ciron.Data

universe u

variable {α : Type u}

inductive Received (α : Type u) where
  | value (x : α)
  | lagged (missed : Nat)
deriving DecidableEq, Repr

/-- How far the receiver is behind. -/
def behind (sent : List α) (cursor : Nat) : Nat := sent.length - cursor

/-- What the receiver gets, and the cursor after it; `none` while there is nothing to get. -/
def recv (room : Nat) (sent : List α) (cursor : Nat) : Option (Received α × Nat) :=
  if room < behind sent cursor then
    some (.lagged (behind sent cursor - room), cursor + (behind sent cursor - room))
  else sent[cursor]?.map fun x => (.value x, cursor + 1)

/-- The receiver subscribed at `since`, is at `cursor` now, and has got `heard`. -/
structure Heard (sent : List α) (since cursor : Nat) (heard : List α) (lost : Nat) : Prop where
  order : heard.Sublist ((sent.take cursor).drop since)
  counted : cursor = since + heard.length + lost
  within : cursor ≤ sent.length

section

variable {sent heard : List α} {room since cursor cursor' lost : Nat}

theorem Heard.subscribe (sent : List α) : Heard sent sent.length sent.length [] 0 :=
  ⟨List.nil_sublist _, rfl, Nat.le_refl _⟩

theorem Heard.send (h : Heard sent since cursor heard lost) (more : List α) :
    Heard (sent ++ more) since cursor heard lost := by
  refine ⟨?_, h.counted, ?_⟩
  · rw [List.take_append_of_le_length h.within]
    exact h.order
  · rw [List.length_append]
    exact Nat.le_add_right_of_le h.within

/-- The cursor moves on; what it passes is lost unless it is heard. -/
theorem take_drop_add (later : since ≤ cursor) (within : cursor ≤ sent.length) (n : Nat) :
    (sent.take (cursor + n)).drop since = (sent.take cursor).drop since ++ (sent.drop cursor).take n := by
  rw [List.take_add, List.drop_append_of_le_length]
  rw [List.length_take]
  omega

theorem recv_value {x : α} (h : recv room sent cursor = some (.value x, cursor')) :
    behind sent cursor ≤ room ∧ sent[cursor]? = some x ∧ cursor' = cursor + 1 := by
  simp only [recv] at h
  split at h
  · cases h
  · rename_i near
    obtain ⟨y, found, same⟩ := Option.map_eq_some_iff.mp h
    cases same
    exact ⟨Nat.le_of_not_lt near, found, rfl⟩

theorem recv_lagged {missed : Nat} (h : recv room sent cursor = some (.lagged missed, cursor')) :
    room < behind sent cursor ∧ missed = behind sent cursor - room ∧ cursor' = cursor + missed := by
  simp only [recv] at h
  split at h
  · rename_i far
    cases h
    exact ⟨far, rfl, rfl⟩
  · obtain ⟨_, _, same⟩ := Option.map_eq_some_iff.mp h
    cases same

theorem Heard.value {x : α} (h : Heard sent since cursor heard lost)
    (received : recv room sent cursor = some (.value x, cursor')) :
    Heard sent since cursor' (heard ++ [x]) lost := by
  obtain ⟨_, found, rfl⟩ := recv_value received
  have counted := h.counted
  obtain ⟨bound, rfl⟩ := List.getElem?_eq_some_iff.mp found
  refine ⟨?_, ?_, bound⟩
  · rw [take_drop_add (by omega) h.within 1, List.drop_eq_getElem_cons bound]
    exact h.order.append (List.Sublist.refl _)
  · rw [List.length_append, List.length_singleton]
    omega

theorem Heard.lagged {missed : Nat} (h : Heard sent since cursor heard lost)
    (received : recv room sent cursor = some (.lagged missed, cursor')) :
    Heard sent since cursor' heard (lost + missed) := by
  obtain ⟨far, rfl, rfl⟩ := recv_lagged received
  have counted := h.counted
  refine ⟨?_, by omega, ?_⟩
  · rw [take_drop_add (by omega) h.within]
    exact h.order.trans (List.sublist_append_left ..)
  · rw [behind] at far ⊢
    omega

/-- A receiver lost nothing if and only if it has got everything. -/
theorem Heard.all_iff (h : Heard sent since cursor heard lost) :
    heard = (sent.take cursor).drop since ↔ lost = 0 := by
  have counted := h.counted
  have within := h.within
  have passed : ((sent.take cursor).drop since).length = heard.length + lost := by
    rw [List.length_drop, List.length_take]
    omega
  constructor
  · intro all
    rw [← all] at passed
    omega
  · intro none
    rw [none] at passed
    exact h.order.eq_of_length passed.symm

end

end Ciron.Data
