import Ciron.Graph.Kahn

/-! # The ready queue

Which nodes enter the queue of the sort, and when.

* `entries_nodup`: however far the loop gets, no node has entered the queue twice.
* `sort_peel`: the loop, which counts entries of lists, sorts as `peel` does, which knows only
  what each node requires.  So repetitions on the lists do not show in the result.
-/

namespace Ciron.Graph.Sorting

variable {α : Type*} [DecidableEq α] {seen : Finset α} {dependents : α → List α}

/-! ## Entering the queue -/

/-- The nodes whose count drops to zero while the edges `owed` are released. -/
def pushes : Sorting α → List α → List α
  | _, [] => []
  | s, dependent :: owed =>
    match s.release dependent with
    | none => []
    | some next => (if s.inDegree dependent = some 1 then [dependent] else []) ++ pushes next owed

/-- The nodes that the loop puts into the queue, in order. -/
def entries (dependents : α → List α) : Nat → Sorting α → List α
  | 0, _ => []
  | fuel + 1, s =>
    match s.ready with
    | [] => []
    | unit :: rest =>
      let popped := { s with ready := rest, sorted := s.sorted ++ [unit] }
      pushes popped (dependents unit) ++
        match (dependents unit).foldlM release popped with
        | none => []
        | some next => entries dependents fuel next

theorem release_ready {s s' : Sorting α} {dependent : α} (h : s.release dependent = some s') :
    s'.ready = s.ready ++ if s.inDegree dependent = some 1 then [dependent] else [] := by
  unfold release at h
  split at h
  · cases h
  · cases h
  · rename_i degree counted
    cases h
    rw [counted]
    by_cases last : degree = 0
    · simp [last]
    · simp [last]

theorem releases_pushes {owed : List α} {s s' : Sorting α} (h : owed.foldlM release s = some s') :
    s'.ready = s.ready ++ pushes s owed := by
  induction owed generalizing s with
  | nil =>
    cases h
    simp [pushes]
  | cons dependent owed ih =>
    rw [List.foldlM_cons, Option.bind_eq_bind, Option.bind_eq_some_iff] at h
    obtain ⟨next, hrelease, hrest⟩ := h
    rw [ih hrest, release_ready hrelease, pushes, hrelease, List.append_assoc]

/-- What has entered the queue waits in it or has been sorted. -/
theorem run_entries {fuel : Nat} {s s' : Sorting α} (hdependents : ∀ dep ∈ seen, ∀ u ∈ dependents dep, u ∈ seen)
    (h : Inv seen dependents [] s) (hrun : run dependents fuel s = some s') :
    s'.sorted ++ s'.ready = s.sorted ++ s.ready ++ entries dependents fuel s := by
  induction fuel generalizing s with
  | zero =>
    cases hrun
    simp [entries]
  | succ fuel ih =>
    rw [run] at hrun
    rw [entries]
    split at hrun
    · rename_i empty
      cases hrun
      simp [empty]
    · rename_i unit rest hready
      have hunit : unit ∈ seen := h.subset unit (by rw [hready]; simp)
      obtain ⟨next, hreleases, hnext, hsorted⟩ := (h.pop hready).releases (hdependents unit hunit)
      rw [hreleases, Option.bind_some] at hrun
      rw [hready]
      dsimp only
      rw [hreleases, ih hnext hrun, hsorted, releases_pushes hreleases]
      simp only [List.append_assoc, List.cons_append, List.nil_append]

/-- No node enters the queue twice, or after it was there from the start. -/
theorem entries_nodup (hdependents : ∀ dep ∈ seen, ∀ u ∈ dependents dep, u ∈ seen) (fuel : Nat)
    {s : Sorting α} (h : Inv seen dependents [] s) :
    (s.sorted ++ s.ready ++ entries dependents fuel s).Nodup := by
  obtain ⟨s', hrun, h', _⟩ := run_spec hdependents fuel s h
  rw [← run_entries hdependents h hrun]
  exact h'.nodup

/-! ## The order of the queue -/

/-- The loop without counts: a node enters the queue when the last node that it requires has
    been sorted, and nodes that enter together do so in the order of `units`. -/
def peel (requires : α → α → Prop) [DecidableRel requires] (units : List α) : Nat → List α → List α → List α
  | 0, _, sorted => sorted
  | _ + 1, [], sorted => sorted
  | fuel + 1, unit :: rest, sorted =>
    let entering := units.filter fun u =>
      requires u unit ∧ ∀ dep ∈ units, requires u dep → dep ∈ sorted ++ [unit]
    peel requires units fuel (rest ++ entering) (sorted ++ [unit])

/-- The releases of one dependent: its count drops, and at zero it enters the queue. -/
theorem releases_block {unit : α} (often : Nat) {left : Nat} {s : Sorting α}
    (hdegree : s.inDegree unit = some (left + often)) :
    ∃ s', (List.replicate often unit).foldlM release s = some s' ∧
      (∀ u, u ≠ unit → s'.inDegree u = s.inDegree u) ∧
      s'.ready = s.ready ++ if 0 < often ∧ left = 0 then [unit] else [] := by
  induction often generalizing s with
  | zero => exact ⟨s, rfl, fun _ _ => rfl, by simp⟩
  | succ often ih =>
    have hrelease : s.release unit = some
        { s with
          inDegree := Function.update s.inDegree unit (some (left + often))
          ready := if left + often = 0 then s.ready ++ [unit] else s.ready } := by
      rw [release, hdegree, ← Nat.add_assoc]
    obtain ⟨s', hrun, hothers, hready⟩ := ih (s := { s with
      inDegree := Function.update s.inDegree unit (some (left + often))
      ready := if left + often = 0 then s.ready ++ [unit] else s.ready }) (Function.update_self ..)
    refine ⟨s', ?_, fun u different => ?_, ?_⟩
    · rw [List.replicate_succ, List.foldlM_cons, hrelease]
      exact hrun
    · rw [hothers u different]
      exact Function.update_of_ne different ..
    · rw [hready]
      by_cases last : left + often = 0
      · -- the last of the releases
        obtain ⟨rfl, rfl⟩ := Nat.add_eq_zero_iff.mp last
        simp
      · by_cases more : often = 0
        · subst more
          simp [show left ≠ 0 from last]
        · have positive := Nat.pos_of_ne_zero more
          simp only [if_neg last, positive, Nat.zero_lt_succ, true_and]

/-- The dependents of one node: those whose count comes to zero enter the queue in the order of
    `units`. -/
theorem releases_blocks {units : List α} (hnodup : units.Nodup) (often left : α → Nat) {s : Sorting α}
    (hdegree : ∀ u ∈ units, s.inDegree u = some (left u + often u)) :
    ∃ s', (units.flatMap fun u => List.replicate (often u) u).foldlM release s = some s' ∧
      s'.ready = s.ready ++ units.filter fun u => 0 < often u ∧ left u = 0 := by
  induction units generalizing s with
  | nil => exact ⟨s, rfl, by simp⟩
  | cons unit units ih =>
    obtain ⟨fresh, hnodup⟩ := List.nodup_cons.mp hnodup
    obtain ⟨mid, hblock, hothers, hmid⟩ := releases_block (often unit) (hdegree unit (List.mem_cons_self ..))
    have hdegree' : ∀ u ∈ units, mid.inDegree u = some (left u + often u) := by
      intro u member
      have different : u ≠ unit := fun same => fresh (same ▸ member)
      rw [hothers u different]
      exact hdegree u (List.mem_cons_of_mem _ member)
    obtain ⟨s', hrest, hready⟩ := ih hnodup hdegree'
    refine ⟨s', ?_, ?_⟩
    · rw [List.flatMap_cons, List.foldlM_append, hblock]
      exact hrest
    · rw [hready, hmid, List.append_assoc, List.filter_cons]
      split <;> simp_all

instance (after : α → Option (List α)) (units : List α) : DecidableRel (Requires after units) :=
  fun _ _ => inferInstanceAs (Decidable (_ ∧ _))

section

variable {after : α → Option (List α)} {units : List α} {g : Degrees α}

theorem Counted.run_peel (counted : Counted after units g) (hnodup : units.Nodup) (fuel : Nat) {s s' : Sorting α}
    (h : Inv units.toFinset g.dependents [] s) (hrun : run g.dependents fuel s = some s') :
    s'.sorted = peel (Requires after units) units fuel s.ready s.sorted := by
  induction fuel generalizing s with
  | zero =>
    cases hrun
    rfl
  | succ fuel ih =>
    rw [run] at hrun
    split at hrun
    · rename_i empty
      cases hrun
      rw [empty, peel]
    · rename_i unit rest hready
      have hunit : unit ∈ units := List.mem_toFinset.mp (h.subset unit (by rw [hready]; simp))
      have popped := h.pop hready
      obtain ⟨next, hreleases, hnext, hsorted⟩ :=
        popped.releases (counted.within unit (List.mem_toFinset.mpr hunit))
      rw [hreleases, Option.bind_some] at hrun
      have hdegree : ∀ u ∈ units, s.inDegree u =
          some (pending units.toFinset g.dependents (s.sorted ++ [unit]) u + (listed after u).count unit) := by
        intro u member
        have degree := popped.degree u (List.mem_toFinset.mpr member)
        rw [counted.dependents unit hunit, count_listing hnodup member] at degree
        exact degree
      obtain ⟨next', hreleases', hnextReady⟩ := releases_blocks
        (s := { s with ready := rest, sorted := s.sorted ++ [unit] }) hnodup
        (fun u => (listed after u).count unit) _ hdegree
      rw [← listing, ← counted.dependents unit hunit, hreleases, Option.some.injEq] at hreleases'
      subst hreleases'
      rw [ih hnext hrun, hsorted, hnextReady, hready, peel]
      congr 2
      refine List.filter_congr fun u member => ?_
      rw [decide_eq_decide, List.count_pos_iff, pending_eq_zero]
      constructor
      · rintro ⟨lists, released⟩
        refine ⟨⟨hunit, lists⟩, fun dep _ requires => ?_⟩
        exact released dep ((counted.blocks u dep).mpr ⟨member, requires⟩)
      · rintro ⟨⟨_, lists⟩, released⟩
        refine ⟨lists, fun dep blocks => ?_⟩
        have requires := ((counted.blocks u dep).mp blocks).2
        exact released dep requires.1 requires

/-- The order in which the nodes are sorted. -/
def sortedBy (requires : α → α → Prop) [DecidableRel requires] (units : List α) : List α :=
  peel requires units units.length (units.filter fun u => ∀ dep ∈ units, ¬ requires u dep) []

theorem sortedBy_congr {r r' : α → α → Prop} [DecidableRel r] [DecidableRel r'] (h : ∀ u dep, r u dep ↔ r' u dep)
    (units : List α) : sortedBy r units = sortedBy r' units := by
  obtain rfl : r = r' := by
    funext u dep
    exact propext (h u dep)
  congr

theorem Counted.sorted_eq (counted : Counted after units g) (hnodup : units.Nodup) {done : Sorting α}
    (hrun : run g.dependents units.length (first g units) = some done) :
    done.sorted = sortedBy (Requires after units) units := by
  rw [counted.run_peel hnodup units.length (counted.inv hnodup) hrun, sortedBy]
  congr 1
  refine List.filter_congr fun u member => ?_
  rw [counted.degree u member, decide_eq_decide, Option.some.injEq, pending_eq_zero]
  constructor
  · intro released dep _ requires
    exact absurd (released dep ((counted.blocks u dep).mpr ⟨member, requires⟩)) List.not_mem_nil
  · intro none dep blocks
    have requires := ((counted.blocks u dep).mp blocks).2
    exact absurd requires (none dep requires.1)

/-- The sort of nodes without repetition depends on what each of them requires, and not on how
    often a list says so. -/
theorem sort_peel (hnodup : units.Nodup) (hafter : ∀ u ∈ units, (after u).isSome) :
    ∃ g ready done, degrees after units.toFinset units = some g ∧
      readyUnits g.inDegree units = some ready ∧
      run g.dependents units.length { inDegree := g.inDegree, ready, sorted := [] } = some done ∧
      done.sorted = sortedBy (Requires after units) units := by
  obtain ⟨g, hg, counted⟩ := degrees_counted hnodup hafter
  obtain ⟨done, hdone, _⟩ := run_spec counted.within units.length _ (counted.inv hnodup)
  exact ⟨g, _, done, hg, counted.ready, hdone, counted.sorted_eq hnodup hdone⟩

/-- No pass meets a fault, however far the loop gets, and no node enters the queue twice. -/
theorem sort_safe (hnodup : units.Nodup) (hafter : ∀ u ∈ units, (after u).isSome) :
    ∃ g ready, degrees after units.toFinset units = some g ∧ readyUnits g.inDegree units = some ready ∧
      ∀ turns, (run g.dependents turns { inDegree := g.inDegree, ready, sorted := [] }).isSome ∧
        (ready ++ entries g.dependents turns { inDegree := g.inDegree, ready, sorted := [] }).Nodup := by
  obtain ⟨g, hg, counted⟩ := degrees_counted hnodup hafter
  refine ⟨g, _, hg, counted.ready, fun turns => ⟨?_, ?_⟩⟩
  · obtain ⟨s', hrun, _⟩ := run_spec counted.within turns _ (counted.inv hnodup)
    exact Option.isSome_iff_exists.mpr ⟨s', hrun⟩
  · exact entries_nodup counted.within turns (counted.inv hnodup)

end

end Ciron.Graph.Sorting
