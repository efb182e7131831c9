import Mathlib.Data.List.Induction
import Mathlib.Data.List.Perm.Subperm

/-! # Lists that record what happened

`lastIndex a l` is the last position of `a` in a list that grows at its end, and
`length_le_countP` counts entries of such a list by their positions.
`since p l` is the part of a newest-first list that is newer than its latest entry
meeting `p`, and all of it when there is none. -/

namespace Ciron.Data

universe u

variable {α : Type u}

/-! ## The last position of a value -/

def lastIndex [DecidableEq α] (a : α) : List α → Option Nat
  | [] => none
  | x :: xs =>
    match lastIndex a xs with
    | some i => some (i + 1)
    | none => if x = a then some 0 else none

theorem lastIndex_append [DecidableEq α] (a x : α) (l : List α) :
    lastIndex a (l ++ [x]) = if x = a then some l.length else lastIndex a l := by
  induction l with
  | nil => simp [lastIndex]
  | cons y l ih =>
    rw [List.cons_append, lastIndex, ih, lastIndex]
    by_cases hx : x = a <;> simp [hx]

theorem lastIndex_getElem? [DecidableEq α] {a : α} {l : List α} {i : Nat}
    (h : lastIndex a l = some i) : l[i]? = some a := by
  induction l generalizing i with
  | nil => cases h
  | cons x l ih =>
    rw [lastIndex] at h
    split at h
    · rename_i j hj
      cases h
      simpa using ih hj
    · split at h
      · rename_i hx
        cases h
        simp [hx]
      · cases h

theorem le_lastIndex [DecidableEq α] {a : α} {l : List α} {j : Nat} (h : l[j]? = some a) :
    ∃ i, lastIndex a l = some i ∧ j ≤ i := by
  induction l generalizing j with
  | nil => simp at h
  | cons x l ih =>
    rw [lastIndex]
    cases j with
    | zero =>
      -- `a` is at the head: a later one only raises the index
      have hx : x = a := by simpa using h
      cases lastIndex a l <;> simp [hx]
    | succ j =>
      obtain ⟨i, hi, hle⟩ := ih (by simpa using h)
      exact ⟨i + 1, by rw [hi], Nat.succ_le_succ hle⟩

/-! ## Positions -/

theorem getElem?_set_here {l : List α} {i : Nat} {x : α} (a : α) (h : l[i]? = some x) :
    (l.set i a)[i]? = some a :=
  List.getElem?_set_self (List.getElem?_eq_some_iff.mp h).1

theorem getElem?_set_cases {l : List α} {i j : Nat} {a x : α} (h : (l.set i a)[j]? = some x) :
    (i = j ∧ x = a) ∨ (i ≠ j ∧ l[j]? = some x) := by
  rw [List.getElem?_set] at h
  split at h
  · rename_i same
    split at h
    · cases h; exact .inl ⟨same, rfl⟩
    · cases h
  · rename_i different
    exact .inr ⟨different, h⟩

theorem length_filter_range (p : α → Bool) (l : List α) :
    ((List.range l.length).filter fun i => l[i]?.any p).length = l.countP p := by
  -- from the end, where these lists grow: earlier positions keep their entries
  induction l using List.reverseRecOn with
  | nil => rfl
  | append_singleton l x ih =>
    have earlier : ((List.range l.length).filter fun i => (l ++ [x])[i]?.any p) =
        (List.range l.length).filter fun i => l[i]?.any p := by
      refine List.filter_congr fun i member => ?_
      rw [List.getElem?_append_left (List.mem_range.mp member)]
    rw [List.length_append, List.length_singleton, List.range_succ, List.filter_append, earlier,
      List.length_append, ih, List.countP_append]
    congr 1
    cases hx : p x <;> simp [hx]

/-- Different positions of entries meeting `p` are no more than the entries meeting `p`. -/
theorem length_le_countP {p : α → Bool} {l : List α} {positions : List Nat} (distinct : positions.Nodup)
    (h : ∀ i ∈ positions, ∃ x, l[i]? = some x ∧ p x = true) : positions.length ≤ l.countP p := by
  rw [← length_filter_range]
  refine (List.Nodup.subperm distinct fun i member => ?_).length_le
  obtain ⟨x, entry, meets⟩ := h i member
  rw [List.mem_filter, List.mem_range]
  exact ⟨(List.getElem?_eq_some_iff.mp entry).1, by simp [entry, meets]⟩

theorem concat_prefix_iff {l received : List α} {x : α} :
    received ++ [x] <+: l ↔ received <+: l ∧ l[received.length]? = some x := by
  constructor
  · rintro ⟨rest, rfl⟩
    exact ⟨⟨x :: rest, by simp⟩, by simp⟩
  · rintro ⟨⟨rest, rfl⟩, next⟩
    cases rest with
    | nil => simp at next
    | cons y rest =>
      obtain rfl : y = x := by simpa using next
      exact ⟨rest, by simp⟩

/-! ## What stands before an entry -/

/-- What holds of each entry and of what stands before it, in a list with one entry more. -/
theorem forall_before_concat {P : List α → α → Prop} {l : List α} {x : α} :
    (∀ before y after, l ++ [x] = before ++ y :: after → P before y) ↔
      (∀ before y after, l = before ++ y :: after → P before y) ∧ P l x := by
  constructor
  · intro h
    refine ⟨fun before y after order => h before y (after ++ [x]) ?_, h l x [] rfl⟩
    rw [order, List.append_assoc, List.cons_append]
  · rintro ⟨earlier, last⟩ before y after order
    rcases List.eq_nil_or_concat' after with rfl | ⟨after, z, rfl⟩
    · obtain ⟨rfl, same⟩ := List.append_inj' order rfl
      cases same
      exact last
    · rw [← List.cons_append, ← List.append_assoc] at order
      exact earlier before y after (List.append_inj' order rfl).1

/-! ## What is newer than an entry -/

def since (p : α → Bool) (l : List α) : List α := l.takeWhile fun x => !p x

theorem since_cons (p : α → Bool) (x : α) (l : List α) :
    since p (x :: l) = if p x = true then [] else x :: since p l := by
  cases h : p x <;> simp [since, h]

theorem since_cons_of_neg {p : α → Bool} {x : α} (h : p x = false) (l : List α) :
    since p (x :: l) = x :: since p l := by
  rw [since_cons, h]; rfl

theorem since_append {p : α → Bool} {new : List α} (h : ∀ x ∈ new, p x = false) (l : List α) :
    since p (new ++ l) = new ++ since p l := by
  induction new with
  | nil => rfl
  | cons x new ih =>
    rw [List.cons_append, since_cons_of_neg (h x (List.mem_cons_self ..)),
      ih fun y member => h y (List.mem_cons_of_mem _ member), List.cons_append]

end Ciron.Data
