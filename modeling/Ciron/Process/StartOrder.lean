import Ciron.Graph.Search
import Ciron.Graph.Kahn
import Ciron.Process.Manager

/-! # The start order

`resolve_start_order` in three passes: breadth-first discovery along `after` and `wants`,
a topological sort by `after`, and the fallback that appends what a cycle kept back.  The
outer `Option` is `none` where the code would panic: at a lookup or an `unwrap` that finds
no entry, and at a decrement of a zero count.

`resolveStartOrder_known`: for a configured root no pass panics, and the order lists
exactly the known programs reachable from the root, each once.
-/

namespace Ciron

open Relation Ciron.Graph

variable (processes : ProcessTable)

/-- `self.processes[unit].config.after.iter().flatten()`. -/
def afterOf (name : String) : Option (List String) :=
  (configOf processes name).map (·.afterList)

def depsOf (name : String) : Option (List String) :=
  (configOf processes name).map (·.deps)

def discover (name : String) : Option (Search String) :=
  Search.run (depsOf processes) (fun dep => dep ∈ processes) processes.keys.card (Search.start name)

def sortByAfter (found : Search String) : Option (List String) := do
  let g ← degrees (afterOf processes) found.seen found.discovered
  let ready ← Sorting.readyUnits g.inDegree found.discovered
  let done ← Sorting.run g.dependents found.discovered.length
    { inDegree := g.inDegree, ready, sorted := [] }
  return done.sorted

/-- A cycle leaves programs out of `sorted`; they follow in discovery order. -/
def breakCycles (discovered sorted : List String) : List String :=
  if sorted.length ≠ discovered.length then appendMissing sorted discovered else sorted

def resolveStartOrder (name : String) : Option (Except String (List String)) :=
  if name ∈ processes then do
    let found ← discover processes name
    let sorted ← sortByAfter processes found
    return .ok (breakCycles found.discovered sorted)
  else some (.error (notFound name))

/-! ## The closure of a program -/

/-- `dep` is configured and listed in the `after` or `wants` of `name`. -/
def Pulls (name dep : String) : Prop :=
  ∃ config, configOf processes name = some config ∧ dep ∈ config.deps ∧ dep ∈ processes

/-- The known closure of `root` along `after` and `wants`. -/
def InClosure (root name : String) : Prop := ReflTransGen (Pulls processes) root name

/-- `dep` is configured and listed in the `after` of `name`. -/
def Afters (name dep : String) : Prop :=
  ∃ config, configOf processes name = some config ∧ dep ∈ config.afterList ∧ dep ∈ processes

variable {processes}

theorem Afters.pulls {name dep : String} (h : Afters processes name dep) : Pulls processes name dep := by
  obtain ⟨config, hconfig, listed, hknown⟩ := h
  exact ⟨config, hconfig, List.mem_append_left _ listed, hknown⟩

theorem afters_iff {name dep : String} :
    Afters processes name dep ↔ dep ∈ listed (afterOf processes) name ∧ dep ∈ processes := by
  cases hconfig : configOf processes name <;> simp [Afters, listed, afterOf, hconfig]

theorem edge_eq_pulls :
    Search.Edge (depsOf processes) (fun dep => dep ∈ processes) = Pulls processes := by
  funext name dep
  simp [Search.Edge, Pulls, depsOf]

theorem depsOf_isSome {name : String} (known : name ∈ processes) : (depsOf processes name).isSome := by
  simpa [depsOf, configOf, Finmap.lookup_isSome] using known

theorem afterOf_isSome {name : String} (known : name ∈ processes) : (afterOf processes name).isSome := by
  simpa [afterOf, configOf, Finmap.lookup_isSome] using known

theorem discover_known {name : String} (hname : name ∈ processes) :
    ∃ found, discover processes name = some found ∧ found.queue = [] ∧ found.discovered.Nodup ∧
      found.seen = found.discovered.toFinset ∧ (∀ u ∈ found.discovered, u ∈ processes) ∧
      ∀ u, u ∈ found.discovered ↔ InClosure processes name u := by
  have hlists : ∀ u, decide (u ∈ processes) = true → (depsOf processes u).isSome := fun u member =>
    depsOf_isSome (of_decide_eq_true member)
  have hkeys : ∀ u, decide (u ∈ processes) = true → u ∈ processes.keys := fun u member =>
    Finmap.mem_keys.mpr (of_decide_eq_true member)
  obtain ⟨found, hrun, empty, hnodup, hseen, hknown, hmem⟩ :=
    Search.run_spec hlists hkeys (decide_eq_true hname) (Nat.le_refl _)
  refine ⟨found, hrun, empty, hnodup, hseen, fun u member => by simpa using hknown u member, fun u => ?_⟩
  rw [hmem u, edge_eq_pulls, InClosure]

/-- The passes of `sortByAfter` with its loop bounded by `turns`. -/
def sortWithin (processes : ProcessTable) (found : Search String) (turns : Nat) :
    Option (Sorting String) := do
  let g ← degrees (afterOf processes) found.seen found.discovered
  let ready ← Sorting.readyUnits g.inDegree found.discovered
  Sorting.run g.dependents turns { inDegree := g.inDegree, ready, sorted := [] }

/-- The topological sort lists discovered programs only, none of them twice, each after the
    discovered programs on its `after` list; those it leaves out reach a cycle. -/
theorem sortWithin_spec {found : Search String} (hnodup : found.discovered.Nodup)
    (hseen : found.seen = found.discovered.toFinset)
    (hknown : ∀ u ∈ found.discovered, u ∈ processes) :
    ∃ done, (∀ turns, found.discovered.length ≤ turns → sortWithin processes found turns = some done) ∧
      done.ready = [] ∧ done.sorted.Nodup ∧ (∀ u ∈ done.sorted, u ∈ found.discovered) ∧
      Ordered (fun u dep => Afters processes u dep ∧ dep ∈ found.discovered) done.sorted ∧
      ∀ u ∈ found.discovered, u ∉ done.sorted → ReachesCycle (Afters processes) u := by
  obtain ⟨g, ready, done, hg, hready, hrun, empty, hsorted, hsubset, hordered, hcycle⟩ :=
    Sorting.sort_spec hnodup fun u member => afterOf_isSome (hknown u member)
  refine ⟨done, fun turns hturns => ?_, empty, hsorted, hsubset, ?_, fun u member unsorted => ?_⟩
  · simp [sortWithin, hseen, hg, hready, hrun turns hturns]
  · exact hordered.mono fun u _ dep edge => ⟨edge.2, (afters_iff.mp edge.1).1⟩
  · exact (hcycle u member unsorted).mono fun x dep edge => afters_iff.mpr ⟨edge.2, hknown dep edge.1⟩

theorem sortByAfter_eq (found : Search String) :
    sortByAfter processes found = (sortWithin processes found found.discovered.length).map (·.sorted) := by
  simp [sortByAfter, sortWithin, Option.map_eq_bind, Option.bind_assoc]

/-- A sort of the same length has left nothing out. -/
theorem perm_of_length {discovered sorted : List String} (hnodup : sorted.Nodup)
    (hsubset : ∀ u ∈ sorted, u ∈ discovered) (hlength : ¬ sorted.length ≠ discovered.length) :
    sorted.Perm discovered :=
  (hnodup.subperm hsubset).perm_of_length_le (Nat.le_of_eq (not_not.mp hlength).symm)

theorem breakCycles_spec {discovered sorted : List String} (hnodup : sorted.Nodup)
    (hsubset : ∀ u ∈ sorted, u ∈ discovered) :
    (breakCycles discovered sorted).Nodup ∧
      ∀ u, u ∈ breakCycles discovered sorted ↔ u ∈ discovered := by
  unfold breakCycles
  split
  · refine ⟨appendMissing_nodup hnodup discovered, fun u => ?_⟩
    rw [mem_appendMissing]
    exact ⟨fun member => member.elim (hsubset u) id, Or.inr⟩
  · rename_i hlength
    exact ⟨hnodup, fun u => (perm_of_length hnodup hsubset hlength).mem_iff⟩

theorem resolveStartOrder_known {name : String} (hname : name ∈ processes) :
    ∃ order, resolveStartOrder processes name = some (.ok order) ∧ order.Nodup ∧
      ∀ u, u ∈ order ↔ InClosure processes name u := by
  obtain ⟨found, hfound, _, hnodup, hseen, hknown, hmem⟩ := discover_known hname
  obtain ⟨done, hdone, _, hsortedNodup, hsubset, _⟩ := sortWithin_spec hnodup hseen hknown
  obtain ⟨horder, hsame⟩ := breakCycles_spec hsortedNodup hsubset
  refine ⟨_, by simp [resolveStartOrder, hname, hfound, sortByAfter_eq, hdone], horder, fun u => ?_⟩
  rw [hsame, hmem]

theorem resolveStartOrder_unknown {name : String} (hname : name ∉ processes) :
    resolveStartOrder processes name = some (.error (notFound name)) := by
  simp [resolveStartOrder, hname]

theorem InClosure.known {root name : String} (hroot : root ∈ processes)
    (h : InClosure processes root name) : name ∈ processes := by
  cases h with
  | refl => exact hroot
  | tail _ pulled =>
    obtain ⟨_, _, _, hknown⟩ := pulled
    exact hknown

/-- What a list of programs came from, if it is a start order. -/
theorem resolveStartOrder_ok {name : String} {order : List String}
    (resolved : resolveStartOrder processes name = some (.ok order)) :
    name ∈ processes ∧ order.Nodup ∧ ∀ u, u ∈ order ↔ InClosure processes name u := by
  by_cases known : name ∈ processes
  · obtain ⟨order', resolved', hnodup, hmem⟩ := resolveStartOrder_known known
    rw [resolved, Option.some.injEq, Except.ok.injEq] at resolved'
    rw [resolved']
    exact ⟨known, hnodup, hmem⟩
  · rw [resolveStartOrder_unknown known] at resolved
    cases resolved

theorem length_le_card {names : List String} (hnodup : names.Nodup) (hknown : ∀ u ∈ names, u ∈ processes) :
    names.length ≤ processes.keys.card := by
  rw [← List.toFinset_card_of_nodup hnodup]
  exact Finset.card_le_card fun u member => Finmap.mem_keys.mpr (hknown u (List.mem_toFinset.mp member))

/-- The closure depends on the configurations alone. -/
theorem InClosure.congr {processes processes' : ProcessTable}
    (h : configOf processes' = configOf processes) : InClosure processes' = InClosure processes := by
  have same : Pulls processes' = Pulls processes := by
    funext name dep
    simp only [Pulls, mem_iff_configOf, h]
  funext root name
  rw [InClosure, same, InClosure]

/-- A program that no other program lists is in its own closure only. -/
theorem InClosure.eq_of_unlisted {root name : String} (h : InClosure processes root name)
    (unlisted : ∀ other config, other ≠ name → configOf processes other = some config →
      name ∉ config.deps) : name = root := by
  induction h with
  | refl => rfl
  | @tail last name _ pulled ih =>
    obtain ⟨config, hconfig, listed, _⟩ := pulled
    by_cases hlast : last = name
    · subst hlast; exact ih unlisted
    · exact absurd listed (unlisted last config hlast hconfig)

end Ciron
