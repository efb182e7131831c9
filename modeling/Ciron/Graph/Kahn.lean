import Mathlib.Algebra.BigOperators.Group.Finset.Piecewise
import Mathlib.Data.Finset.Card
import Mathlib.Data.List.Count
import Ciron.Graph.Topological

/-! # Kahn's topological sort with counted edges

`after u` lists, with repetitions, the nodes that must come before `u`.  The algorithm
works on the nodes of a set `seen`: it counts for every node the entries of its list that
are in `seen`, keeps for every node the list of its dependents, and then takes nodes whose
count has dropped to zero off a queue.  Lookups of a missing key and a decrement below
zero are faults (`none`).

The graph is an arbitrary directed multigraph; what is left out of the sorted list when
the queue runs empty is appended in the order the nodes were given.

* `degrees_spec`: what the two maps hold, also in which order (`listing`).
* `Sorting.Inv`: every count equals the number of edges still to be released, so no
  count is decremented below zero and every node is queued at most once.
* `Sorting.run_spec`: the loop meets no fault, with fuel for every node the queue runs empty,
  and the sorted list is a topological order.
* `Sorting.Inv.reachesCycle`: a node that is left out reaches a cycle.
* `Sorting.sort_spec`: the two passes together.
-/

namespace Ciron.Graph

variable {α : Type*} [DecidableEq α]

/-! ## Counting the edges -/

structure Degrees (α : Type*) where
  inDegree : α → Option Nat
  dependents : α → List α

/-- One entry of the list of `unit`. -/
def addEdge (seen : Finset α) (unit : α) (g : Degrees α) (dep : α) : Option (Degrees α) :=
  if dep ∈ seen then
    match g.inDegree unit with
    | none => none
    | some degree => some
        { inDegree := Function.update g.inDegree unit (some (degree + 1))
          dependents := Function.update g.dependents dep (g.dependents dep ++ [unit]) }
  else some g

/-- The whole list of `unit`. -/
def addUnit (after : α → Option (List α)) (seen : Finset α) (g : Degrees α) (unit : α) :
    Option (Degrees α) :=
  match after unit with
  | none => none
  | some deps => deps.foldlM (addEdge seen unit) g

def degrees (after : α → Option (List α)) (seen : Finset α) (units : List α) : Option (Degrees α) :=
  units.foldlM (addUnit after seen)
    { inDegree := fun unit => if unit ∈ units then some 0 else none
      dependents := fun _ => [] }

/-- The list of `unit`, empty where there is none. -/
def listed (after : α → Option (List α)) (unit : α) : List α := (after unit).getD []

theorem addEdges_spec (seen : Finset α) (unit : α) (deps : List α) (g : Degrees α) (degree : Nat)
    (hdegree : g.inDegree unit = some degree) :
    ∃ g', deps.foldlM (addEdge seen unit) g = some g' ∧
      g'.inDegree = Function.update g.inDegree unit (some (degree + deps.countP (· ∈ seen))) ∧
      ∀ dep, g'.dependents dep =
        g.dependents dep ++ if dep ∈ seen then List.replicate (deps.count dep) unit else [] := by
  induction deps generalizing g degree with
  | nil => exact ⟨g, rfl, by simp [← hdegree], by simp⟩
  | cons head deps ih =>
    by_cases hseen : head ∈ seen
    · obtain ⟨g', hrun, hin, hdependents⟩ := ih
        { inDegree := Function.update g.inDegree unit (some (degree + 1))
          dependents := Function.update g.dependents head (g.dependents head ++ [unit]) }
        (degree + 1) (by simp)
      refine ⟨g', by simp [addEdge, hseen, hdegree, hrun], ?_, ?_⟩
      · rw [hin, Function.update_idem, List.countP_cons_of_pos (by simpa using hseen)]
        congr 2
        omega
      · intro dep
        rw [hdependents]
        by_cases hdep : dep = head
        · subst hdep
          simp [hseen, List.replicate_succ]
        · simp [hdep, Ne.symm hdep]
    · -- an entry outside the set changes neither map
      obtain ⟨g', hrun, hin, hdependents⟩ := ih g degree hdegree
      refine ⟨g', by simp [addEdge, hseen, hrun], ?_, ?_⟩
      · rw [hin, List.countP_cons_of_neg (by simpa using hseen)]
      · intro dep
        rw [hdependents]
        by_cases hdep : dep = head
        · subst hdep; simp [hseen]
        · simp [Ne.symm hdep]

/-- Every node as often as it lists `dep`, in the order of the nodes. -/
def listing (after : α → Option (List α)) (units : List α) (dep : α) : List α :=
  units.flatMap fun u => List.replicate ((listed after u).count dep) u

theorem addUnits_spec {after : α → Option (List α)} (seen : Finset α) (units : List α)
    (hnodup : units.Nodup) (hafter : ∀ u ∈ units, (after u).isSome) (g : Degrees α)
    (hzero : ∀ u ∈ units, g.inDegree u = some 0) :
    ∃ g', units.foldlM (addUnit after seen) g = some g' ∧
      (∀ u, g'.inDegree u =
        if u ∈ units then some ((listed after u).countP (· ∈ seen)) else g.inDegree u) ∧
      ∀ dep, g'.dependents dep = g.dependents dep ++ if dep ∈ seen then listing after units dep else [] := by
  induction units generalizing g with
  | nil => exact ⟨g, rfl, by simp, by simp [listing]⟩
  | cons unit units ih =>
    obtain ⟨fresh, hnodup⟩ := List.nodup_cons.mp hnodup
    obtain ⟨deps, hdeps⟩ := Option.isSome_iff_exists.mp (hafter unit (List.mem_cons_self ..))
    have hlisted : listed after unit = deps := by simp [listed, hdeps]
    obtain ⟨g1, hrun1, hin1, hdependents1⟩ :=
      addEdges_spec seen unit deps g 0 (hzero unit (List.mem_cons_self ..))
    -- one list raises the count of its own node only
    have hzero1 : ∀ u ∈ units, g1.inDegree u = some 0 := by
      intro u member
      have hne : u ≠ unit := fun heq => fresh (heq ▸ member)
      rw [hin1, Function.update_of_ne hne]
      exact hzero u (List.mem_cons_of_mem _ member)
    obtain ⟨g2, hrun2, hin2, hdependents2⟩ :=
      ih hnodup (fun u member => hafter u (List.mem_cons_of_mem _ member)) g1 hzero1
    refine ⟨g2, by simp [addUnit, hdeps, hrun1, hrun2], ?_, ?_⟩
    · intro u
      rw [hin2, hin1]
      by_cases hu : u = unit
      · subst hu; simp [fresh, hlisted]
      · simp [hu]
    · intro dep
      rw [hdependents2, hdependents1]
      by_cases hdep : dep ∈ seen
      · simp [hdep, listing, hlisted]
      · simp [hdep]

/-- Every count is the number of entries within `seen`, and the dependents of `dep` are those
    that list it. -/
theorem degrees_spec {after : α → Option (List α)} (seen : Finset α) (units : List α)
    (hnodup : units.Nodup) (hafter : ∀ u ∈ units, (after u).isSome) :
    ∃ g, degrees after seen units = some g ∧
      (∀ u ∈ units, g.inDegree u = some ((listed after u).countP (· ∈ seen))) ∧
      ∀ dep, g.dependents dep = if dep ∈ seen then listing after units dep else [] := by
  obtain ⟨g, hrun, hin, hdependents⟩ := addUnits_spec seen units hnodup hafter
    { inDegree := fun unit => if unit ∈ units then some 0 else none, dependents := fun _ => [] }
    (fun u member => by simp [member])
  exact ⟨g, hrun, fun u member => by simp [hin, member], fun dep => by simp [hdependents]⟩

theorem mem_listing {after : α → Option (List α)} {units : List α} {dep u : α} :
    u ∈ listing after units dep ↔ u ∈ units ∧ dep ∈ listed after u := by
  simp only [listing, List.mem_flatMap, List.mem_replicate, ← List.count_pos_iff (a := dep), Nat.pos_iff_ne_zero]
  constructor
  · rintro ⟨v, member, often, rfl⟩
    exact ⟨member, often⟩
  · rintro ⟨member, often⟩
    exact ⟨u, member, often, rfl⟩

/-- `u` stands among the dependents of `dep` as often as `dep` stands on the list of `u`. -/
theorem count_listing {after : α → Option (List α)} {units : List α} (hnodup : units.Nodup) {dep u : α}
    (hu : u ∈ units) : (listing after units dep).count u = (listed after u).count dep := by
  induction units with
  | nil => cases hu
  | cons unit units ih =>
    obtain ⟨fresh, hnodup⟩ := List.nodup_cons.mp hnodup
    rw [listing, List.flatMap_cons, List.count_append, ← listing, List.count_replicate]
    by_cases same : unit = u
    · subst same
      have later : (listing after units dep).count unit = 0 :=
        List.count_eq_zero.mpr fun member => fresh (mem_listing.mp member).1
      simp [later]
    · rw [ih hnodup ((List.mem_cons.mp hu).resolve_left (Ne.symm same))]
      simp [same]

/-- The entries of a list that lie in a set, counted node by node. -/
theorem sum_count_eq_countP (seen : Finset α) (deps : List α) :
    ∑ dep ∈ seen, deps.count dep = deps.countP (· ∈ seen) := by
  induction deps with
  | nil => simp
  | cons head deps ih =>
    simp only [List.count_cons, Finset.sum_add_distrib, ih, List.countP_cons, beq_iff_eq,
      decide_eq_true_eq]
    rw [Finset.sum_ite_eq seen head]

/-! ## Releasing the nodes -/

structure Sorting (α : Type*) where
  inDegree : α → Option Nat
  ready : List α
  sorted : List α

namespace Sorting

/-- The nodes of a list whose count is zero; every one of them must have a count. -/
def readyUnits (inDegree : α → Option Nat) : List α → Option (List α)
  | [] => some []
  | unit :: units =>
    match inDegree unit with
    | none => none
    | some degree => (readyUnits inDegree units).map fun rest =>
        if degree = 0 then unit :: rest else rest

/-- One edge to `dependent` is no longer in the way. -/
def release (s : Sorting α) (dependent : α) : Option (Sorting α) :=
  match s.inDegree dependent with
  | none => none
  | some 0 => none
  | some (degree + 1) => some
      { s with
        inDegree := Function.update s.inDegree dependent (some degree)
        ready := if degree = 0 then s.ready ++ [dependent] else s.ready }

def run (dependents : α → List α) : Nat → Sorting α → Option (Sorting α)
  | 0, s => some s
  | fuel + 1, s =>
    match s.ready with
    | [] => some s
    | unit :: rest =>
      ((dependents unit).foldlM release { s with ready := rest, sorted := s.sorted ++ [unit] }).bind
        (run dependents fuel)

omit [DecidableEq α] in
theorem readyUnits_spec (inDegree : α → Option Nat) (units : List α)
    (hcounted : ∀ u ∈ units, (inDegree u).isSome) :
    readyUnits inDegree units = some (units.filter fun u => inDegree u = some 0) := by
  induction units with
  | nil => rfl
  | cons unit units ih =>
    obtain ⟨degree, hdegree⟩ := Option.isSome_iff_exists.mp (hcounted unit (List.mem_cons_self ..))
    rw [readyUnits, hdegree, ih fun u member => hcounted u (List.mem_cons_of_mem _ member)]
    by_cases hzero : degree = 0 <;> simp [hdegree, hzero]

/-- The edges into `u` from nodes not sorted yet. -/
def pending (seen : Finset α) (dependents : α → List α) (sorted : List α) (u : α) : Nat :=
  ∑ dep ∈ seen \ sorted.toFinset, (dependents dep).count u

/-- The invariant of both loops.  `owed` are the dependents of the node just sorted whose
    edges are still to be released; it is empty between two nodes. -/
structure Inv (seen : Finset α) (dependents : α → List α) (owed : List α) (s : Sorting α) :
    Prop where
  nodup : (s.sorted ++ s.ready).Nodup
  subset : ∀ u ∈ s.sorted ++ s.ready, u ∈ seen
  degree : ∀ u ∈ seen, s.inDegree u = some (pending seen dependents s.sorted u + owed.count u)
  placed : ∀ u ∈ seen,
    (u ∈ s.sorted ++ s.ready ↔ pending seen dependents s.sorted u + owed.count u = 0)

variable {seen : Finset α} {dependents : α → List α}

theorem Inv.release {owed : List α} {s : Sorting α} {dependent : α}
    (h : Inv seen dependents (dependent :: owed) s) (hmem : dependent ∈ seen) :
    ∃ s', s.release dependent = some s' ∧ Inv seen dependents owed s' := by
  have hdegree := h.degree dependent hmem
  rw [List.count_cons_self, ← Nat.add_assoc] at hdegree
  -- an edge to it is owed, so it has been neither sorted nor queued
  have hplaced : dependent ∉ s.sorted ++ s.ready := by
    rw [h.placed dependent hmem, List.count_cons_self]
    omega
  refine ⟨_, by rw [Sorting.release, hdegree], ?_⟩
  have others : ∀ u, u ≠ dependent → (dependent :: owed).count u = owed.count u :=
    fun u hne => List.count_cons_of_ne (Ne.symm hne)
  constructor
  · dsimp only
    split
    · rw [← List.append_assoc]
      exact h.nodup.append (List.nodup_singleton _) (by simpa using hplaced)
    · exact h.nodup
  · dsimp only
    intro u member
    split at member
    · rw [← List.append_assoc, List.mem_append, List.mem_singleton] at member
      cases member with
      | inl member => exact h.subset u member
      | inr same =>
        subst same
        exact hmem
    · exact h.subset u member
  · intro u husen
    by_cases hu : u = dependent
    · subst hu; simp
    · simp only [Function.update_of_ne hu]
      rw [h.degree u husen, others u hu]
  · dsimp only
    intro u husen
    by_cases hu : u = dependent
    · subst hu
      split <;> simp_all
    · have before := h.placed u husen
      rw [others u hu] at before
      rw [← before]
      split
      · rw [← List.append_assoc, List.mem_append, List.mem_singleton]
        exact ⟨fun member => member.resolve_right hu, Or.inl⟩
      · rfl

theorem release_sorted {s s' : Sorting α} {dependent : α} (h : s.release dependent = some s') :
    s'.sorted = s.sorted := by
  unfold release at h
  split at h <;> cases h
  rfl

theorem Inv.releases {owed : List α} {s : Sorting α} (h : Inv seen dependents owed s)
    (hmem : ∀ u ∈ owed, u ∈ seen) :
    ∃ s', owed.foldlM Sorting.release s = some s' ∧ Inv seen dependents [] s' ∧
      s'.sorted = s.sorted := by
  induction owed generalizing s with
  | nil => exact ⟨s, rfl, h, rfl⟩
  | cons dependent owed ih =>
    obtain ⟨s1, hrelease, h1⟩ := h.release (hmem dependent (List.mem_cons_self ..))
    obtain ⟨s2, hrest, h2, hsorted⟩ := ih h1 fun u member => hmem u (List.mem_cons_of_mem _ member)
    exact ⟨s2, by simp [hrelease, hrest], h2, hsorted.trans (release_sorted hrelease)⟩

/-- Sorting the node at the front of the queue makes its dependents the edges owed. -/
theorem Inv.pop {s : Sorting α} (h : Inv seen dependents [] s) {unit : α} {rest : List α}
    (hready : s.ready = unit :: rest) :
    Inv seen dependents (dependents unit)
      { s with ready := rest, sorted := s.sorted ++ [unit] } := by
  have happend : s.sorted ++ [unit] ++ rest = s.sorted ++ s.ready := by
    rw [hready, List.append_assoc, List.singleton_append]
  have hunit : unit ∈ seen := h.subset unit (by rw [hready]; simp)
  -- a node is queued once, so its edges have not been taken away before
  have unsorted : unit ∉ s.sorted := by
    have hnodup := h.nodup
    rw [hready] at hnodup
    exact fun member => (List.nodup_append.mp hnodup).2.2 unit member unit (List.mem_cons_self ..) rfl
  have hpending : ∀ u, pending seen dependents s.sorted u =
      pending seen dependents (s.sorted ++ [unit]) u + (dependents unit).count u := by
    intro u
    have hset : seen \ (s.sorted ++ [unit]).toFinset = (seen \ s.sorted.toFinset).erase unit := by
      ext x
      simp only [Finset.mem_sdiff, List.mem_toFinset, List.mem_append, List.mem_singleton,
        Finset.mem_erase]
      tauto
    rw [pending, pending, hset, Finset.sum_erase_add _ _ (by simp [hunit, unsorted])]
  constructor
  · simpa only [happend] using h.nodup
  · simpa only [happend] using h.subset
  · intro u husen
    rw [h.degree u husen, hpending u]
    rfl
  · intro u husen
    rw [happend, h.placed u husen, hpending u]
    simp

theorem Inv.sorted_length {owed : List α} {s : Sorting α} (h : Inv seen dependents owed s) :
    s.sorted.length + s.ready.length ≤ seen.card := by
  rw [← List.length_append, ← List.toFinset_card_of_nodup h.nodup]
  exact Finset.card_le_card fun u member => h.subset u (List.mem_toFinset.mp member)

/-- `dep` has an edge to `u`. -/
def Blocks (seen : Finset α) (dependents : α → List α) (u dep : α) : Prop :=
  dep ∈ seen ∧ u ∈ dependents dep

theorem pending_eq_zero {sorted : List α} {u : α} :
    pending seen dependents sorted u = 0 ↔ ∀ dep, Blocks seen dependents u dep → dep ∈ sorted := by
  rw [pending, Finset.sum_eq_zero_iff]
  constructor
  · intro none dep blocks
    by_contra unsorted
    exact absurd (none dep (by simp [blocks.1, unsorted])) (List.count_pos_iff.mpr blocks.2).ne'
  · intro released dep member
    obtain ⟨hseen, unsorted⟩ := Finset.mem_sdiff.mp member
    exact List.count_eq_zero.mpr fun blocks => unsorted (by simpa using released dep ⟨hseen, blocks⟩)

/-- A node is queued only when all that blocks it has been sorted. -/
theorem Inv.pop_ordered {s : Sorting α} (h : Inv seen dependents [] s) {unit : α} {rest : List α}
    (hready : s.ready = unit :: rest) (ordered : Ordered (Blocks seen dependents) s.sorted) :
    Ordered (Blocks seen dependents) (s.sorted ++ [unit]) := by
  have member : unit ∈ s.sorted ++ s.ready := by rw [hready]; simp
  have hpending := (h.placed unit (h.subset unit member)).mp member
  exact ordered.concat (pending_eq_zero.mp (by simpa using hpending))

theorem run_spec (hdependents : ∀ dep ∈ seen, ∀ u ∈ dependents dep, u ∈ seen)
    (fuel : Nat) (s : Sorting α) (h : Inv seen dependents [] s) :
    ∃ s', run dependents fuel s = some s' ∧ Inv seen dependents [] s' ∧
      (seen.card ≤ fuel + s.sorted.length → s'.ready = []) ∧
      (Ordered (Blocks seen dependents) s.sorted → Ordered (Blocks seen dependents) s'.sorted) := by
  induction fuel generalizing s with
  | zero =>
    refine ⟨s, rfl, h, fun hfuel => ?_, id⟩
    -- all nodes have been sorted
    have hlength := h.sorted_length
    exact List.eq_nil_of_length_eq_zero (by omega)
  | succ fuel ih =>
    rw [run]
    split
    · rename_i empty
      exact ⟨s, rfl, h, fun _ => empty, id⟩
    · rename_i unit rest hready
      have hunit : unit ∈ seen := h.subset unit (by rw [hready]; simp)
      obtain ⟨s1, hreleases, h1, hsorted⟩ := (h.pop hready).releases (hdependents unit hunit)
      rw [hreleases, Option.bind_some]
      obtain ⟨s', hrun, h', empty, hordered⟩ := ih s1 h1
      refine ⟨s', hrun, h', fun hfuel => empty ?_, fun ordered => hordered ?_⟩
      · simp only [hsorted, List.length_append, List.length_singleton]
        omega
      · rw [hsorted]
        exact h.pop_ordered hready ordered

/-- More fuel changes nothing once the queue is empty. -/
theorem run_mono {fuel more : Nat} {s s' : Sorting α} (hfuel : fuel ≤ more)
    (hrun : run dependents fuel s = some s') (empty : s'.ready = []) :
    run dependents more s = some s' := by
  induction fuel generalizing more s with
  | zero =>
    cases hrun
    cases more with
    | zero => rfl
    | succ more => rw [run, empty]
  | succ fuel ih =>
    obtain ⟨more, rfl⟩ := Nat.exists_eq_add_of_le' (Nat.le_trans (Nat.succ_le_succ (Nat.zero_le fuel)) hfuel)
    rw [run] at hrun ⊢
    split at hrun
    · exact hrun
    · rw [Option.bind_eq_some_iff] at hrun ⊢
      obtain ⟨next, hreleases, hrest⟩ := hrun
      exact ⟨next, hreleases, ih (Nat.le_of_succ_le_succ hfuel) hrest⟩

/-- With an empty queue an unsorted node is blocked by an unsorted node. -/
theorem Inv.reachesCycle {s : Sorting α} (h : Inv seen dependents [] s) (empty : s.ready = [])
    {u : α} (hu : u ∈ seen) (unsorted : u ∉ s.sorted) : ReachesCycle (Blocks seen dependents) u := by
  have member : u ∈ seen \ s.sorted.toFinset := by simp [hu, unsorted]
  refine reachesCycle_of_closed ?_ member
  intro x member
  obtain ⟨hseen, unsorted⟩ := Finset.mem_sdiff.mp member
  have blocked : ¬ ∀ dep, Blocks seen dependents x dep → dep ∈ s.sorted := by
    rw [← pending_eq_zero]
    have hplaced := h.placed x hseen
    simp only [empty, List.append_nil, List.count_nil, Nat.add_zero] at hplaced
    exact fun zero => unsorted (List.mem_toFinset.mpr (hplaced.mpr zero))
  push Not at blocked
  obtain ⟨dep, blocks, hdep⟩ := blocked
  exact ⟨dep, Finset.mem_sdiff.mpr ⟨blocks.1, by simpa using hdep⟩, blocks⟩

/-- The queue of the nodes without a pending edge starts the loop. -/
theorem start_inv {units : List α} (hnodup : units.Nodup) (hseen : ∀ u, u ∈ seen ↔ u ∈ units)
    {inDegree : α → Option Nat}
    (hdegree : ∀ u ∈ seen, inDegree u = some (pending seen dependents [] u)) :
    Inv seen dependents []
      { inDegree := inDegree, ready := units.filter fun u => inDegree u = some 0, sorted := [] } := by
  constructor
  · exact hnodup.filter _
  · intro u member
    exact (hseen u).mpr (List.mem_of_mem_filter member)
  · intro u husen
    simpa using hdegree u husen
  · intro u husen
    simp [(hseen u).mp husen, hdegree u husen]

/-! ## The whole sort -/

/-- `dep` is one of the nodes to sort and stands on the list of `u`. -/
def Requires (after : α → Option (List α)) (units : List α) (u dep : α) : Prop :=
  dep ∈ units ∧ dep ∈ listed after u

/-- What the first pass over `units` leaves in its two maps. -/
structure Counted (after : α → Option (List α)) (units : List α) (g : Degrees α) : Prop where
  degree : ∀ u ∈ units, g.inDegree u = some (pending units.toFinset g.dependents [] u)
  dependents : ∀ dep ∈ units, g.dependents dep = listing after units dep
  blocks : ∀ u dep, Blocks units.toFinset g.dependents u dep ↔ u ∈ units ∧ Requires after units u dep

theorem degrees_counted {after : α → Option (List α)} {units : List α} (hnodup : units.Nodup)
    (hafter : ∀ u ∈ units, (after u).isSome) :
    ∃ g, degrees after units.toFinset units = some g ∧ Counted after units g := by
  obtain ⟨g, hg, hin, hdependents⟩ := degrees_spec units.toFinset units hnodup hafter
  refine ⟨g, hg, fun u member => ?_, fun dep member => ?_, fun u dep => ?_⟩
  · rw [hin u member, pending, ← sum_count_eq_countP]
    congr 1
    refine Finset.sum_congr (by simp) fun dep hdep => ?_
    rw [hdependents, if_pos (Finset.mem_sdiff.mp hdep).1, count_listing hnodup member]
  · rw [hdependents, if_pos (List.mem_toFinset.mpr member)]
  · rw [Blocks, Requires, hdependents]
    constructor
    · rintro ⟨inside, member⟩
      rw [if_pos inside, mem_listing] at member
      exact ⟨member.1, List.mem_toFinset.mp inside, member.2⟩
    · rintro ⟨member, inside, lists⟩
      rw [← List.mem_toFinset] at inside
      rw [if_pos inside, mem_listing]
      exact ⟨inside, member, lists⟩

/-- The state in which the loop begins. -/
def first (g : Degrees α) (units : List α) : Sorting α :=
  { inDegree := g.inDegree, ready := units.filter fun u => g.inDegree u = some 0, sorted := [] }

section

variable {after : α → Option (List α)} {units : List α} {g : Degrees α}

theorem Counted.ready (h : Counted after units g) : readyUnits g.inDegree units = some (first g units).ready :=
  readyUnits_spec g.inDegree units fun u member => by simp [h.degree u member]

theorem Counted.inv (h : Counted after units g) (hnodup : units.Nodup) :
    Inv units.toFinset g.dependents [] (first g units) :=
  start_inv hnodup (fun _ => List.mem_toFinset) fun u member => h.degree u (List.mem_toFinset.mp member)

/-- Every dependent was counted, so a release never looks up a missing key. -/
theorem Counted.within (h : Counted after units g) :
    ∀ dep ∈ units.toFinset, ∀ u ∈ g.dependents dep, u ∈ units.toFinset :=
  fun dep hdep u member => List.mem_toFinset.mpr ((h.blocks u dep).mp ⟨hdep, member⟩).1

end

/-- The sort ends within a turn for each node.  It lists nodes without repetition, each after
    the nodes that it requires; those it leaves out reach a cycle. -/
theorem sort_spec {after : α → Option (List α)} {units : List α} (hnodup : units.Nodup)
    (hafter : ∀ u ∈ units, (after u).isSome) :
    ∃ g ready done, degrees after units.toFinset units = some g ∧
      readyUnits g.inDegree units = some ready ∧
      (∀ turns, units.length ≤ turns →
        run g.dependents turns { inDegree := g.inDegree, ready, sorted := [] } = some done) ∧
      done.ready = [] ∧ done.sorted.Nodup ∧ (∀ u ∈ done.sorted, u ∈ units) ∧
      Ordered (Requires after units) done.sorted ∧
      ∀ u ∈ units, u ∉ done.sorted → ReachesCycle (Requires after units) u := by
  obtain ⟨g, hg, counted⟩ := degrees_counted hnodup hafter
  obtain ⟨done, hdone, hinv, hempty, hordered⟩ := run_spec counted.within units.length _ (counted.inv hnodup)
  have empty := hempty (by rw [List.toFinset_card_of_nodup hnodup]; exact Nat.le_add_right ..)
  have hsubset : ∀ u ∈ done.sorted, u ∈ units :=
    fun u member => List.mem_toFinset.mp (hinv.subset u (List.mem_append_left _ member))
  refine ⟨g, _, done, hg, counted.ready, fun turns hturns => run_mono hturns hdone empty, empty,
    (List.nodup_append.mp hinv.nodup).1, hsubset, ?_, fun u member unsorted => ?_⟩
  · exact (hordered ordered_nil).mono fun u member dep edge =>
      (counted.blocks u dep).mpr ⟨hsubset u member, edge⟩
  · exact (hinv.reachesCycle empty (List.mem_toFinset.mpr member) unsorted).mono
      fun x dep blocks => ((counted.blocks x dep).mp blocks).2

end Sorting

/-! ## Appending the leftovers -/

/-- Append the nodes of `units` that are not in the list yet. -/
def appendMissing (sorted units : List α) : List α :=
  units.foldl (fun acc unit => if unit ∈ acc then acc else acc ++ [unit]) sorted

theorem mem_appendMissing (sorted units : List α) (x : α) :
    x ∈ appendMissing sorted units ↔ x ∈ sorted ∨ x ∈ units := by
  induction units generalizing sorted with
  | nil => simp [appendMissing]
  | cons unit units ih =>
    rw [appendMissing, List.foldl_cons, ← appendMissing, ih, List.mem_cons]
    split
    · rename_i present
      constructor
      · rintro (member | member)
        · exact .inl member
        · exact .inr (.inr member)
      · rintro (member | rfl | member)
        · exact .inl member
        · exact .inl present
        · exact .inr member
    · rw [List.mem_append, List.mem_singleton, or_assoc]

theorem appendMissing_nodup {sorted : List α} (hnodup : sorted.Nodup) (units : List α) :
    (appendMissing sorted units).Nodup := by
  induction units generalizing sorted with
  | nil => exact hnodup
  | cons unit units ih =>
    rw [appendMissing, List.foldl_cons, ← appendMissing]
    apply ih
    split
    · exact hnodup
    · rename_i fresh
      exact hnodup.append (List.nodup_singleton _) (by simpa using fresh)

theorem appendMissing_append (sorted units more : List α) :
    appendMissing sorted (units ++ more) = appendMissing (appendMissing sorted units) more :=
  List.foldl_append ..

theorem prefix_appendMissing (sorted units : List α) : sorted <+: appendMissing sorted units := by
  induction units generalizing sorted with
  | nil => exact List.prefix_refl sorted
  | cons unit units ih =>
    rw [appendMissing, List.foldl_cons, ← appendMissing]
    refine .trans ?_ (ih _)
    split
    · exact List.prefix_refl sorted
    · exact List.prefix_append ..

theorem appendMissing_prefix (sorted : List α) {units units' : List α} (h : units <+: units') :
    appendMissing sorted units <+: appendMissing sorted units' := by
  obtain ⟨more, rfl⟩ := h
  rw [appendMissing_append]
  exact prefix_appendMissing ..

/-- Without repetitions among `units`, one look at the list before the first append decides. -/
theorem appendMissing_of_nodup {units : List α} (hnodup : units.Nodup) (sorted : List α) :
    appendMissing sorted units = sorted ++ units.filter (· ∉ sorted) := by
  induction units generalizing sorted with
  | nil => simp [appendMissing]
  | cons unit units ih =>
    obtain ⟨fresh, hnodup⟩ := List.nodup_cons.mp hnodup
    rw [appendMissing, List.foldl_cons, ← appendMissing, ih hnodup]
    split
    · rename_i present
      rw [List.filter_cons_of_neg (by simpa using present)]
    · rename_i absent
      rw [List.filter_cons_of_pos (by simpa using absent), List.append_assoc, List.singleton_append]
      congr 2
      -- what follows does not contain the unit just appended
      refine List.filter_congr fun x member => ?_
      have different : x ≠ unit := fun same => fresh (same ▸ member)
      simp [different]

end Ciron.Graph
