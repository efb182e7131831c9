import Mathlib.Data.Finset.Basic
import Mathlib.Data.Finset.Card
import Mathlib.Logic.Relation

/-! # Worklist search of a graph given by adjacency lists

`successors x` lists the successors of the node `x`, in order and with repetitions; it is
partial, and looking up a node that has no list is a fault (`none`).  Names on a list
that are not `known` are passed over.  `Search.run` keeps the nodes found so far in the
order in which they were found, the same nodes as a set, and the queue of those whose
successors have not been looked at.

* `Search.run_inv`: the search never faults.
* `Search.run_spec`: with as much fuel as there are known nodes it empties its queue, and finds
  exactly the nodes reachable from the root, once each.
* `Search.run_congr`: what the visits pass over may stand on the lists or not.
-/

namespace Ciron.Graph

open Relation

variable {α : Type*} [DecidableEq α]

structure Search (α : Type*) where
  discovered : List α
  seen : Finset α
  queue : List α

namespace Search

def start (root : α) : Search α :=
  { discovered := [root], seen := {root}, queue := [root] }

/-- Look at one name on the list of the current node. -/
def visit (known : α → Bool) (s : Search α) (dep : α) : Search α :=
  if known dep then
    if dep ∈ s.seen then s
    else { discovered := s.discovered ++ [dep], seen := insert dep s.seen, queue := s.queue ++ [dep] }
  else s

/-- Take nodes off the front of the queue until it is empty. -/
def run (successors : α → Option (List α)) (known : α → Bool) : Nat → Search α → Option (Search α)
  | 0, s => some s
  | fuel + 1, s =>
    match s.queue with
    | [] => some s
    | current :: rest =>
      match successors current with
      | none => none
      | some deps => run successors known fuel (deps.foldl (visit known) { s with queue := rest })

/-- `b` is known and stands on the list of `a`. -/
def Edge (successors : α → Option (List α)) (known : α → Bool) (a b : α) : Prop :=
  ∃ deps, successors a = some deps ∧ b ∈ deps ∧ known b = true

variable {successors : α → Option (List α)} {known : α → Bool}

/-! ## Looking at one list of successors -/

/-- The bookkeeping that every visit keeps: the found nodes are listed once, and the queue
    holds only nodes already found. -/
structure Consistent (s : Search α) : Prop where
  nodup : s.discovered.Nodup
  seen_eq : s.seen = s.discovered.toFinset
  queued : ∀ x ∈ s.queue, x ∈ s.discovered

theorem Consistent.mem_seen {s : Search α} (h : s.Consistent) (x : α) :
    x ∈ s.seen ↔ x ∈ s.discovered := by
  rw [h.seen_eq, List.mem_toFinset]

theorem Consistent.pop {s : Search α} (h : s.Consistent) {current : α} {rest : List α}
    (hqueue : s.queue = current :: rest) : Consistent { s with queue := rest } :=
  ⟨h.nodup, h.seen_eq, fun x member => h.queued x (by rw [hqueue]; exact List.mem_cons_of_mem _ member)⟩

theorem start_consistent (root : α) : (start root).Consistent where
  nodup := List.nodup_singleton root
  seen_eq := rfl
  queued := fun _ member => member

theorem visit_consistent {s : Search α} (h : s.Consistent) (dep : α) :
    (visit known s dep).Consistent := by
  unfold visit
  split
  · split
    · exact h
    · rename_i unseen
      rw [h.mem_seen] at unseen
      refine ⟨?_, ?_, ?_⟩
      · exact h.nodup.append (List.nodup_singleton dep) (by simpa using unseen)
      · rw [h.seen_eq]; ext x; simp
      · intro x member
        cases List.mem_append.mp member with
        | inl queued => exact List.mem_append_left _ (h.queued x queued)
        | inr added => exact List.mem_append_right _ added
  · exact h

theorem mem_visit {s : Search α} (h : s.Consistent) (dep x : α) :
    x ∈ (visit known s dep).discovered ↔ x ∈ s.discovered ∨ (x = dep ∧ known dep = true) := by
  unfold visit
  split
  · split
    · rename_i hknown seen
      rw [h.mem_seen] at seen
      constructor
      · exact Or.inl
      · rintro (member | ⟨rfl, _⟩)
        · exact member
        · exact seen
    · rename_i hknown _
      simp [hknown]
  · rename_i hknown
    simp [hknown]

/-- A visit adds to the queue exactly what it finds. -/
theorem mem_visit_queue {s : Search α} (h : s.Consistent) (dep x : α) :
    x ∈ (visit known s dep).queue ↔
      x ∈ s.queue ∨ (x ∈ (visit known s dep).discovered ∧ x ∉ s.discovered) := by
  unfold visit
  split
  · split
    · simp
    · rename_i unseen
      rw [h.mem_seen] at unseen
      simp only [List.mem_append, List.mem_singleton]
      constructor
      · rintro (queued | rfl)
        · exact .inl queued
        · exact .inr ⟨.inr rfl, unseen⟩
      · rintro (queued | ⟨member | added, new⟩)
        · exact .inl queued
        · exact absurd member new
        · exact .inr added
  · simp

/-- What is still to be found, plus what is still to be looked at. -/
def measure (nodes : Finset α) (s : Search α) : Nat :=
  (nodes \ s.seen).card + s.queue.length

theorem visit_measure {nodes : Finset α} (hnodes : ∀ x, known x = true → x ∈ nodes)
    (s : Search α) (dep : α) : measure nodes (visit known s dep) = measure nodes s := by
  unfold visit
  split
  · split
    · rfl
    · rename_i hknown unseen
      have member : dep ∈ nodes \ s.seen := Finset.mem_sdiff.mpr ⟨hnodes dep hknown, unseen⟩
      -- a node moves from those still to be found to those still to be looked at
      have hcard := Finset.card_erase_add_one member
      have hset : nodes \ insert dep s.seen = (nodes \ s.seen).erase dep := by
        ext x
        simp only [Finset.mem_sdiff, Finset.mem_insert, Finset.mem_erase]
        tauto
      simp only [measure, hset, List.length_append, List.length_singleton]
      omega
  · rfl

theorem visits_consistent {s : Search α} (h : s.Consistent) (deps : List α) :
    (deps.foldl (visit known) s).Consistent := by
  induction deps generalizing s with
  | nil => exact h
  | cons dep deps ih => exact ih (visit_consistent h dep)

theorem mem_visits {s : Search α} (h : s.Consistent) (deps : List α) (x : α) :
    x ∈ (deps.foldl (visit known) s).discovered ↔
      x ∈ s.discovered ∨ (x ∈ deps ∧ known x = true) := by
  induction deps generalizing s with
  | nil => simp
  | cons dep deps ih =>
    rw [List.foldl_cons, ih (visit_consistent h dep), mem_visit h]
    constructor
    · rintro ((member | ⟨rfl, hknown⟩) | ⟨member, hknown⟩)
      · exact .inl member
      · exact .inr ⟨List.mem_cons_self .., hknown⟩
      · exact .inr ⟨List.mem_cons_of_mem _ member, hknown⟩
    · rintro (member | ⟨member, hknown⟩)
      · exact .inl (.inl member)
      · cases List.mem_cons.mp member with
        | inl same =>
          subst same
          exact .inl (.inr ⟨rfl, hknown⟩)
        | inr member => exact .inr ⟨member, hknown⟩

theorem mem_visits_queue {s : Search α} (h : s.Consistent) (deps : List α) (x : α) :
    x ∈ (deps.foldl (visit known) s).queue ↔
      x ∈ s.queue ∨ (x ∈ (deps.foldl (visit known) s).discovered ∧ x ∉ s.discovered) := by
  induction deps generalizing s with
  | nil => simp
  | cons dep deps ih =>
    have later : x ∈ (deps.foldl (visit known) (visit known s dep)).discovered ↔ _ :=
      mem_visits (visit_consistent h dep) deps x
    rw [List.foldl_cons, ih (visit_consistent h dep), mem_visit_queue h]
    -- what one visit finds the later ones do not lose
    have grows : x ∈ s.discovered → x ∈ (visit known s dep).discovered :=
      fun member => (mem_visit h dep x).mpr (.inl member)
    tauto

theorem visits_measure {nodes : Finset α} (hnodes : ∀ x, known x = true → x ∈ nodes)
    (s : Search α) (deps : List α) :
    measure nodes (deps.foldl (visit known) s) = measure nodes s := by
  induction deps generalizing s with
  | nil => rfl
  | cons dep deps ih => rw [List.foldl_cons, ih, visit_measure hnodes]

/-! ## The whole search -/

/-- The invariant of the outer loop: only reachable nodes are found, and the successors of
    every found node that has left the queue are found too. -/
structure Inv (successors : α → Option (List α)) (known : α → Bool) (root : α)
    (s : Search α) : Prop extends s.Consistent where
  root_mem : root ∈ s.discovered
  sound : ∀ x ∈ s.discovered, known x = true ∧ ReflTransGen (Edge successors known) root x
  closed : ∀ x ∈ s.discovered, x ∉ s.queue → ∀ y, Edge successors known x y → y ∈ s.discovered

theorem start_inv {root : α} (hroot : known root = true) :
    Inv successors known root (start root) where
  toConsistent := start_consistent root
  root_mem := List.mem_singleton_self root
  sound := by
    intro x member
    rw [List.mem_singleton.mp member]
    exact ⟨hroot, .refl⟩
  closed := fun x member unqueued => absurd member unqueued

/-- Looking at the successors of the node at the front of the queue keeps the invariant. -/
theorem Inv.expand {root : α} {s : Search α} (h : Inv successors known root s)
    {current : α} {rest deps : List α} (hqueue : s.queue = current :: rest)
    (hdeps : successors current = some deps) :
    Inv successors known root (deps.foldl (visit known) { s with queue := rest }) := by
  have popped := h.toConsistent.pop hqueue
  have found : ∀ x, x ∈ (deps.foldl (visit known) { s with queue := rest }).discovered ↔ _ :=
    mem_visits popped deps
  have queued : ∀ x, x ∈ (deps.foldl (visit known) { s with queue := rest }).queue ↔ _ :=
    mem_visits_queue popped deps
  have currentFound : current ∈ s.discovered := h.queued current (by rw [hqueue]; exact List.mem_cons_self ..)
  refine ⟨visits_consistent popped deps, (found root).mpr (.inl h.root_mem), ?_, ?_⟩
  · intro x member
    cases (found x).mp member with
    | inl old => exact h.sound x old
    | inr new =>
      obtain ⟨listed, hknown⟩ := new
      exact ⟨hknown, (h.sound current currentFound).2.tail ⟨deps, hdeps, listed, hknown⟩⟩
  · intro x member unqueued y edge
    by_cases hx : x = current
    · -- the node just expanded: all its known successors have been visited
      subst hx
      obtain ⟨deps', hdeps', listed, hknown⟩ := edge
      rw [hdeps, Option.some.injEq] at hdeps'
      subst hdeps'
      exact (found y).mpr (.inr ⟨listed, hknown⟩)
    · -- any other node off the queue left it earlier, or it would have been queued when found
      have old : x ∈ s.discovered := by
        by_contra new
        exact unqueued ((queued x).mpr (.inr ⟨member, new⟩))
      have unqueuedBefore : x ∉ s.queue := by
        rw [hqueue]
        intro inQueue
        cases List.mem_cons.mp inQueue with
        | inl same =>
          subst same
          exact hx rfl
        | inr inRest => exact unqueued ((queued x).mpr (.inl inRest))
      exact (found y).mpr (.inl (h.closed x old unqueuedBefore y edge))

theorem run_inv {nodes : Finset α} {root : α}
    (hsuccessors : ∀ x, known x = true → (successors x).isSome)
    (hnodes : ∀ x, known x = true → x ∈ nodes)
    (fuel : Nat) (s : Search α) (h : Inv successors known root s) :
    ∃ s', run successors known fuel s = some s' ∧ Inv successors known root s' ∧
      (measure nodes s ≤ fuel → s'.queue = []) := by
  induction fuel generalizing s with
  | zero =>
    refine ⟨s, rfl, h, fun hfuel => ?_⟩
    -- with a measure of zero nothing is left to look at
    exact List.eq_nil_of_length_eq_zero (by simp only [measure] at hfuel; omega)
  | succ fuel ih =>
    rw [run]
    split
    · rename_i empty
      exact ⟨s, rfl, h, fun _ => empty⟩
    · rename_i current rest hqueue
      -- only found nodes are queued and only known ones are found, so the lookup does not fault
      have hknown : known current = true :=
        (h.sound current (h.queued current (by rw [hqueue]; exact List.mem_cons_self ..))).1
      obtain ⟨deps, hdeps⟩ := Option.isSome_iff_exists.mp (hsuccessors current hknown)
      rw [hdeps]
      obtain ⟨s', hrun, h', empty⟩ := ih _ (h.expand hqueue hdeps)
      refine ⟨s', hrun, h', fun hfuel => empty ?_⟩
      rw [visits_measure hnodes]
      simp only [measure, hqueue, List.length_cons] at hfuel ⊢
      omega

/-- More fuel changes nothing once the queue is empty. -/
theorem run_mono {fuel more : Nat} {s s' : Search α} (hfuel : fuel ≤ more)
    (hrun : run successors known fuel s = some s') (empty : s'.queue = []) :
    run successors known more s = some s' := by
  induction fuel generalizing more s with
  | zero =>
    cases hrun
    cases more with
    | zero => rfl
    | succ more => rw [run, empty]
  | succ fuel ih =>
    obtain ⟨more, rfl⟩ := Nat.exists_eq_add_of_le' (Nat.le_trans (Nat.succ_le_succ (Nat.zero_le fuel)) hfuel)
    rw [run] at hrun ⊢
    split at hrun
    · exact hrun
    · split at hrun
      · cases hrun
      · exact ih (Nat.le_of_succ_le_succ hfuel) hrun

/-- With fuel for every known node the search ends with an empty queue, having found exactly
    the nodes reachable from the root, each once. -/
theorem run_spec {nodes : Finset α} {root : α}
    (hsuccessors : ∀ x, known x = true → (successors x).isSome)
    (hnodes : ∀ x, known x = true → x ∈ nodes) (hroot : known root = true)
    {fuel : Nat} (hfuel : nodes.card ≤ fuel) :
    ∃ s, run successors known fuel (start root) = some s ∧ s.queue = [] ∧ s.discovered.Nodup ∧
      s.seen = s.discovered.toFinset ∧ (∀ x ∈ s.discovered, known x = true) ∧
      ∀ x, x ∈ s.discovered ↔ ReflTransGen (Edge successors known) root x := by
  -- the root has been found already but not looked at
  have hmeasure : measure nodes (start root) ≤ fuel := by
    have hcard := Finset.card_erase_add_one (hnodes root hroot)
    simp only [measure, start, Finset.sdiff_singleton_eq_erase, List.length_singleton]
    omega
  obtain ⟨s, hrun, h, hempty⟩ := run_inv hsuccessors hnodes fuel _ (start_inv hroot)
  have empty := hempty hmeasure
  refine ⟨s, hrun, empty, h.nodup, h.seen_eq, fun x member => (h.sound x member).1, fun x => ?_⟩
  refine ⟨fun member => (h.sound x member).2, fun reaches => ?_⟩
  -- along the path: with an empty queue the found nodes are closed under successors
  induction reaches with
  | refl => exact h.root_mem
  | tail _ edge ih => exact h.closed _ ih (by simp [empty]) _ edge

/-! ## Unknown and repeated names -/

/-- An unknown name and one that was found before are passed over. -/
theorem visit_eq_self {s : Search α} {dep : α} (passed : known dep = true → dep ∈ s.seen) :
    visit known s dep = s := by
  unfold visit
  split
  · rename_i hknown
    rw [if_pos (passed hknown)]
  · rfl

theorem mem_seen_visit {s : Search α} {dep name : α} (member : name ∈ s.seen) :
    name ∈ (visit known s dep).seen := by
  unfold visit
  split
  · split
    · exact member
    · exact Finset.mem_insert_of_mem member
  · exact member

theorem visit_seen (s : Search α) {dep : α} (hknown : known dep = true) : dep ∈ (visit known s dep).seen := by
  unfold visit
  rw [if_pos hknown]
  split
  · assumption
  · exact Finset.mem_insert_self ..

theorem visits_filter_known (s : Search α) (deps : List α) :
    (deps.filter known).foldl (visit known) s = deps.foldl (visit known) s := by
  induction deps generalizing s with
  | nil => rfl
  | cons dep deps ih =>
    by_cases hknown : known dep = true
    · rw [List.filter_cons_of_pos hknown, List.foldl_cons, List.foldl_cons, ih]
    · rw [List.filter_cons_of_neg hknown, List.foldl_cons, ih, visit_eq_self fun h => absurd h hknown]

theorem visits_filter_ne {s : Search α} {name : α} (passed : known name = true → name ∈ s.seen) (deps : List α) :
    (deps.filter fun dep => !dep == name).foldl (visit known) s = deps.foldl (visit known) s := by
  induction deps generalizing s with
  | nil => rfl
  | cons dep deps ih =>
    by_cases same : dep = name
    · subst same
      rw [List.filter_cons_of_neg (by simp), List.foldl_cons, visit_eq_self passed, ih passed]
    · rw [List.filter_cons_of_pos (by simpa using same), List.foldl_cons, List.foldl_cons,
        ih fun hknown => mem_seen_visit (passed hknown)]

/-- Of a repeated name the first occurrence counts. -/
theorem visits_eraseDups (s : Search α) (deps : List α) :
    deps.eraseDups.foldl (visit known) s = deps.foldl (visit known) s := by
  induction hlength : deps.length using Nat.strong_induction_on generalizing deps s with
  | _ length ih =>
    cases deps with
    | nil => rfl
    | cons dep deps =>
      have shorter : (deps.filter fun other => !other == dep).length < length := by
        rw [← hlength, List.length_cons]
        exact Nat.lt_succ_of_le (List.length_filter_le ..)
      rw [List.eraseDups_cons, List.foldl_cons, List.foldl_cons, ih _ shorter _ _ rfl]
      exact visits_filter_ne (visit_seen s) deps

/-- The search reads the lists only through the visits they lead to. -/
theorem run_congr {successors' : α → Option (List α)}
    (h : ∀ a s, (successors' a).map (fun deps => deps.foldl (visit known) s) =
      (successors a).map fun deps => deps.foldl (visit known) s)
    (fuel : Nat) (s : Search α) : run successors' known fuel s = run successors known fuel s := by
  induction fuel generalizing s with
  | zero => rfl
  | succ fuel ih =>
    rw [run, run]
    split
    · rfl
    · rename_i current rest hqueue
      have visits := h current { s with queue := rest }
      cases hnew : successors' current with
      | none =>
        rw [hnew, Option.map_none, eq_comm, Option.map_eq_none_iff] at visits
        rw [visits]
      | some deps' =>
        rw [hnew, Option.map_some, eq_comm, Option.map_eq_some_iff] at visits
        obtain ⟨deps, hold, same⟩ := visits
        rw [hold]
        dsimp only
        rw [same, ih]

end Search

end Ciron.Graph
