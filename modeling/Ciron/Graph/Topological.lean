import Mathlib.Data.Finset.Basic
import Mathlib.Data.Fintype.Pigeonhole
import Mathlib.Logic.Relation

/-! # Cycles and topological orders

`r u d` says that `d` has to come before `u`.

* `reachesCycle_of_closed`: in a finite set where every node has such a `d` in the set,
  every node reaches a cycle.
* `Ordered.not_reachesCycle`: a node of a topologically ordered list reaches none.
-/

namespace Ciron.Graph

open Relation

variable {α : Type*} {r : α → α → Prop}

/-! ## Reaching a cycle -/

/-- A path from `u`, possibly empty, ends on a cycle. -/
def ReachesCycle (r : α → α → Prop) (u : α) : Prop :=
  ∃ v, ReflTransGen r u v ∧ TransGen r v v

theorem ReachesCycle.head {u d : α} (edge : r u d) (h : ReachesCycle r d) : ReachesCycle r u := by
  obtain ⟨v, path, cycle⟩ := h
  exact ⟨v, .head edge path, cycle⟩

/-- The first step of the path, or of the cycle when the path is empty. -/
theorem ReachesCycle.next {u : α} (h : ReachesCycle r u) : ∃ d, r u d ∧ ReachesCycle r d := by
  obtain ⟨v, path, cycle⟩ := h
  cases ReflTransGen.cases_head path with
  | inl same =>
    subst same
    obtain ⟨d, edge, back⟩ := TransGen.head'_iff.mp cycle
    exact ⟨d, edge, u, back, cycle⟩
  | inr step =>
    obtain ⟨d, edge, rest⟩ := step
    exact ⟨d, edge, v, rest, cycle⟩

theorem ReachesCycle.mono {r' : α → α → Prop} (h : ∀ u d, r u d → r' u d) {u : α}
    (reaches : ReachesCycle r u) : ReachesCycle r' u := by
  obtain ⟨v, path, cycle⟩ := reaches
  exact ⟨v, ReflTransGen.mono h u v path, TransGen.mono h v v cycle⟩

theorem reachesCycle_of_closed {nodes : Finset α} (closed : ∀ u ∈ nodes, ∃ d ∈ nodes, r u d)
    {u : α} (hu : u ∈ nodes) : ReachesCycle r u := by
  have choice : ∀ x : nodes, ∃ d : nodes, r x d := fun x => by
    obtain ⟨d, member, edge⟩ := closed x x.2
    exact ⟨⟨d, member⟩, edge⟩
  choose next hnext using choice
  have walk : ∀ (x : nodes) (n : Nat), ReflTransGen r x (next^[n] x) := by
    intro x n
    induction n with
    | zero => exact .refl
    | succ n ih =>
      rw [Function.iterate_succ_apply']
      exact ih.tail (hnext _)
  -- the walk from `u` comes back to a node it has left
  obtain ⟨i, j, before, again⟩ : ∃ i j, i < j ∧ next^[i] ⟨u, hu⟩ = next^[j] ⟨u, hu⟩ := by
    obtain ⟨i, j, different, same⟩ :=
      Finite.exists_ne_map_eq_of_infinite fun n => next^[n] (⟨u, hu⟩ : nodes)
    cases Nat.lt_or_gt_of_ne different with
    | inl before => exact ⟨i, j, before, same⟩
    | inr after => exact ⟨j, i, after, same.symm⟩
  refine ⟨next^[i] ⟨u, hu⟩, walk ⟨u, hu⟩ i, ?_⟩
  obtain ⟨k, rfl⟩ := Nat.exists_eq_add_of_lt before
  rw [Nat.add_assoc, Nat.add_comm i, Function.iterate_add_apply, Function.iterate_succ_apply'] at again
  have around := TransGen.tail' (walk (next^[i] ⟨u, hu⟩) k) (hnext _)
  rwa [← again] at around

/-! ## Topological orders -/

/-- Everything that has to come before a node of the list does. -/
def Ordered (r : α → α → Prop) (l : List α) : Prop :=
  ∀ earlier u later, l = earlier ++ u :: later → ∀ d, r u d → d ∈ earlier

theorem ordered_nil : Ordered r [] := by
  intro earlier u later split
  simp at split

theorem Ordered.concat {l : List α} {u : α} (h : Ordered r l) (hu : ∀ d, r u d → d ∈ l) :
    Ordered r (l ++ [u]) := by
  intro earlier x later split d edge
  cases List.eq_nil_or_concat' later with
  | inl last =>
    -- the node is the one appended
    subst last
    obtain ⟨rfl, heq⟩ := List.append_inj' split rfl
    cases heq
    exact hu d edge
  | inr more =>
    obtain ⟨rest, last, rfl⟩ := more
    rw [← List.cons_append, ← List.append_assoc] at split
    obtain ⟨inside, _⟩ := List.append_inj' split rfl
    exact h earlier x rest inside d edge

theorem Ordered.of_append {l rest : List α} (h : Ordered r (l ++ rest)) : Ordered r l := by
  intro earlier u later split
  exact h earlier u (later ++ rest) (by rw [split, List.append_assoc, List.cons_append])

theorem Ordered.mono {r' : α → α → Prop} {l : List α} (h : Ordered r l)
    (sub : ∀ u ∈ l, ∀ d, r' u d → r u d) : Ordered r' l := by
  intro earlier u later split d edge
  exact h earlier u later split d (sub u (by simp [split]) d edge)

/-- Appending a topological order without the nodes the list has already. -/
theorem Ordered.append_filter {l order : List α} {p : α → Bool} (h : Ordered r l)
    (horder : Ordered r order) (passed : ∀ u ∈ order, p u = false → u ∈ l) :
    Ordered r (l ++ order.filter p) := by
  induction order using List.reverseRecOn with
  | nil => simpa using h
  | append_singleton order u ih =>
    have earlier := ih horder.of_append fun v member => passed v (List.mem_append_left _ member)
    rw [List.filter_append, ← List.append_assoc]
    cases hu : p u with
    | false => simpa [hu] using earlier
    | true =>
      rw [List.filter_cons_of_pos hu, List.filter_nil]
      refine earlier.concat fun v edge => ?_
      have before := horder order u [] rfl v edge
      rw [List.mem_append, List.mem_filter]
      cases hv : p v with
      | false => exact .inl (passed v (List.mem_append_left _ before) hv)
      | true => exact .inr ⟨before, rfl⟩

theorem Ordered.sublist {l : List α} (h : Ordered r l) {u d : α} (hu : u ∈ l) (edge : r u d) :
    [d, u].Sublist l := by
  obtain ⟨earlier, later, split⟩ := List.append_of_mem hu
  have before := h earlier u later split d edge
  rw [split, ← List.singleton_append, ← List.singleton_append]
  exact (List.singleton_sublist.mpr before).append (List.sublist_append_left ..)

/-- From the end: what the last node has to wait for reaches no cycle, so neither does it. -/
theorem Ordered.not_reachesCycle {l : List α} (h : Ordered r l) {u : α} (hu : u ∈ l) :
    ¬ ReachesCycle r u := by
  induction l using List.reverseRecOn generalizing u with
  | nil => cases hu
  | append_singleton l x ih =>
    have inside : ∀ u ∈ l, ¬ ReachesCycle r u := fun u member => ih h.of_append member
    cases List.mem_append.mp hu with
    | inl old => exact inside u old
    | inr last =>
      obtain rfl := List.mem_singleton.mp last
      intro reaches
      obtain ⟨d, edge, onward⟩ := reaches.next
      exact inside d (h l u [] rfl d edge) onward

end Ciron.Graph
