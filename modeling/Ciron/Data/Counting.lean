import Mathlib.Algebra.BigOperators.Group.Finset.Piecewise
import Mathlib.Algebra.GroupWithZero.Nat

/-! # Sums and counts over a list

What becomes of a sum over the entries of a list when one entry is replaced or all of them shrink,
and a count split up by classes. -/

namespace Ciron.Data

universe u v

variable {α : Type u} {ι : Type v}

/-- One entry of a sum replaced. -/
theorem sum_map_set (f : α → Nat) {l : List α} {i : Nat} {x : α} (a : α) (h : l[i]? = some x) :
    ((l.set i a).map f).sum + f x = (l.map f).sum + f a := by
  induction l generalizing i with
  | nil => cases h
  | cons y l ih =>
    cases i with
    | zero =>
      obtain rfl : y = x := by simpa using h
      simp only [List.set_cons_zero, List.map_cons, List.sum_cons]
      omega
    | succ i =>
      have rest := ih (by simpa using h)
      simp only [List.set_cons_succ, List.map_cons, List.sum_cons]
      omega

/-- Sums compared entry by entry. -/
theorem sum_map_le {f : α → Nat} {l l' : List α}
    (h : ∀ (i : Nat) (x' : α), l'[i]? = some x' → ∃ x, l[i]? = some x ∧ f x' ≤ f x) :
    (l'.map f).sum ≤ (l.map f).sum := by
  induction l' generalizing l with
  | nil => simp
  | cons y l' ih =>
    obtain ⟨x, first, le⟩ := h 0 y rfl
    cases l with
    | nil => cases first
    | cons z l =>
      obtain rfl : z = x := by simpa using first
      have rest := ih (l := l) fun i x' entry => by simpa using h (i + 1) x' (by simpa using entry)
      simp only [List.map_cons, List.sum_cons]
      omega

/-- A count over classes is the sum of the counts of each class. -/
theorem countP_classes [DecidableEq ι] (f : α → Option ι) (classes : Finset ι) (l : List α) :
    l.countP (fun x => (f x).any fun i => decide (i ∈ classes)) =
      ∑ i ∈ classes, l.countP fun x => decide (f x = some i) := by
  induction l with
  | nil => simp
  | cons x l ih =>
    simp only [List.countP_cons, Finset.sum_add_distrib, ih]
    congr 1
    cases f x with
    | none => simp
    | some i => simp [Finset.sum_ite_eq]

end Ciron.Data
