import Mathlib.Data.List.Infix
import Ciron.Graph.Search
import Ciron.Graph.Kahn

/-! # The order of discovery

`breadthFirst` says what breadth-first order is without a queue.
`Search.run_breadthFirst`: a search that ends with an empty queue has found its nodes in
that order. -/

namespace Ciron.Graph

variable {α : Type*} [DecidableEq α]

/-- The nodes at most `n` steps from `root`: the root, and then the successors of the nodes
    at most `n - 1` steps away, in the order of those nodes, each where it is first met. -/
def breadthFirst (successors : α → List α) (root : α) : Nat → List α
  | 0 => [root]
  | n + 1 => appendMissing [root] ((breadthFirst successors root n).flatMap successors)

theorem breadthFirst_succ (successors : α → List α) (root : α) (n : Nat) :
    breadthFirst successors root n <+: breadthFirst successors root (n + 1) := by
  induction n with
  | zero => exact prefix_appendMissing ..
  | succ n ih => exact appendMissing_prefix _ (ih.flatMap _)

theorem breadthFirst_mono (successors : α → List α) (root : α) {m n : Nat} (h : m ≤ n) :
    breadthFirst successors root m <+: breadthFirst successors root n := by
  induction n, h using Nat.le_induction with
  | base => exact List.prefix_refl _
  | succ n _ ih => exact ih.trans (breadthFirst_succ successors root n)

/-- A list that already holds the successors of all its nodes holds every ring. -/
theorem breadthFirst_within {successors : α → List α} {root : α} {l : List α}
    (closed : l = appendMissing [root] (l.flatMap successors)) (n : Nat) :
    breadthFirst successors root n <+: l := by
  induction n with
  | zero =>
    rw [closed]
    exact prefix_appendMissing ..
  | succ n ih =>
    rw [closed]
    exact appendMissing_prefix _ (ih.flatMap _)

namespace Search

/-- The known names on the list of a node. -/
def children (successors : α → Option (List α)) (known : α → Bool) (a : α) : List α :=
  (listed successors a).filter known

variable {successors : α → Option (List α)} {known : α → Bool}

/-- What one list of successors adds stands at the end of both lists. -/
theorem visits_appendMissing (known : α → Bool) {s : Search α} (h : s.Consistent) (deps : List α) :
    (deps.foldl (visit known) s).discovered = appendMissing s.discovered (deps.filter known) ∧
      ∃ added, (deps.foldl (visit known) s).discovered = s.discovered ++ added ∧
        (deps.foldl (visit known) s).queue = s.queue ++ added := by
  induction deps generalizing s with
  | nil => exact ⟨rfl, [], by simp, by simp⟩
  | cons dep deps ih =>
    have visited : (visit known s dep).Consistent := visit_consistent h dep
    obtain ⟨hfound, added, hdiscovered, hqueue⟩ := ih visited
    rw [List.foldl_cons, hfound, hqueue]
    rw [hfound] at hdiscovered
    rw [hdiscovered]
    have member := h.mem_seen dep
    by_cases hknown : known dep = true
    · rw [List.filter_cons_of_pos hknown, appendMissing, List.foldl_cons, ← appendMissing]
      by_cases hseen : dep ∈ s.seen
      · simp only [visit, hknown, hseen, member.mp hseen, if_true] at hdiscovered ⊢
        exact ⟨hdiscovered.symm, added, rfl, rfl⟩
      · simp only [visit, hknown, hseen, if_true, if_false, mt member.mpr hseen] at hdiscovered ⊢
        exact ⟨hdiscovered.symm, dep :: added, by simp, by simp⟩
    · rw [List.filter_cons_of_neg hknown]
      simp only [visit, hknown] at hdiscovered ⊢
      exact ⟨hdiscovered.symm, added, rfl, rfl⟩

/-- The queue is the end of the discovery order, which lists the successors of the nodes
    before it, and lies within the first `n` rings. -/
structure Rings (successors : α → Option (List α)) (known : α → Bool) (root : α) (n : Nat)
    (s : Search α) : Prop where
  order : ∃ done, s.discovered = done ++ s.queue ∧
    s.discovered = appendMissing [root] (done.flatMap (children successors known))
  within : s.discovered <+: breadthFirst (children successors known) root n

theorem start_rings (root : α) : Rings successors known root 0 (start root) :=
  ⟨⟨[], rfl, rfl⟩, List.prefix_refl _⟩

theorem Rings.expand {root : α} {n : Nat} {s : Search α} (h : Rings successors known root n s)
    (consistent : s.Consistent) {current : α} {rest deps : List α}
    (hqueue : s.queue = current :: rest) (hdeps : successors current = some deps) :
    Rings successors known root (n + 1) (deps.foldl (visit known) { s with queue := rest }) := by
  obtain ⟨done, hdone, hlisted⟩ := h.order
  obtain ⟨hfound, added, hdiscovered, hqueued⟩ :=
    visits_appendMissing known (consistent.pop hqueue) deps
  have hchildren : children successors known current = deps.filter known := by
    simp [children, listed, hdeps]
  have hnext : (deps.foldl (visit known) { s with queue := rest }).discovered =
      appendMissing [root] ((done ++ [current]).flatMap (children successors known)) := by
    rw [List.flatMap_append, List.flatMap_singleton, appendMissing_append, ← hlisted, hchildren, hfound]
  refine ⟨⟨done ++ [current], ?_, hnext⟩, ?_⟩
  · rw [hdiscovered, hqueued, hdone, hqueue]
    simp
  · -- the nodes taken off the queue so far lie in the first `n` rings
    have expanded : done ++ [current] <+: breadthFirst (children successors known) root n := by
      refine .trans ⟨rest, ?_⟩ h.within
      rw [hdone, hqueue, List.append_assoc, List.singleton_append]
    rw [hnext]
    exact appendMissing_prefix _ (expanded.flatMap _)

theorem run_rings {root : α} (fuel n : Nat) {s s' : Search α} (h : Rings successors known root n s)
    (consistent : s.Consistent) (hrun : run successors known fuel s = some s') :
    Rings successors known root (n + fuel) s' := by
  induction fuel generalizing n s with
  | zero =>
    cases hrun
    exact h
  | succ fuel ih =>
    rw [run] at hrun
    split at hrun
    · cases hrun
      exact ⟨h.order, h.within.trans (breadthFirst_mono _ _ (by omega))⟩
    · rename_i current rest hqueue
      split at hrun
      · cases hrun
      · rename_i deps hdeps
        have next := ih (n + 1) (h.expand consistent hqueue hdeps)
          (visits_consistent (consistent.pop hqueue) deps) hrun
        rwa [Nat.add_assoc, Nat.add_comm 1] at next

/-- From `fuel` rings on there is nothing more to find. -/
theorem run_breadthFirst {root : α} {fuel : Nat} {s : Search α}
    (hrun : run successors known fuel (start root) = some s) (empty : s.queue = [])
    {n : Nat} (hn : fuel ≤ n) : s.discovered = breadthFirst (children successors known) root n := by
  have h := run_rings fuel 0 (start_rings root) (start_consistent root) hrun
  rw [Nat.zero_add] at h
  obtain ⟨done, hdone, hlisted⟩ := h.order
  rw [empty, List.append_nil] at hdone
  subst hdone
  have forward := h.within.trans (breadthFirst_mono (children successors known) root hn)
  exact forward.eq_of_length_le (breadthFirst_within hlisted n).length_le

end Search

end Ciron.Graph
