import Ciron.Graph.ReadyQueue
import Ciron.Process.OrderShape
import Ciron.Process.Start

/-! # The resolver does not panic

`resolve_start_order` indexes three maps, unwraps two lookups and decrements counters, and
`start_process` expects a result for its root.  Each of these yields `none` in the model where
the code would panic.  `startProcess_safe`: none of them does, however far the loops have got.
-/

namespace Ciron

open Ciron.Graph

/-- The passes of the resolver, each with the partial operations it consists of. -/
structure ResolvesSafely (processes : ProcessTable) (root : String) : Prop where
  /-- `processes[&current]`. -/
  discovery : ∀ turns, (Search.run (depsOf processes) (fun dep => dep ∈ processes) turns
    (Search.start root)).isSome
  /-- `processes[unit]` and `get_mut(unit)`, `in_degree[n]`, and then `get_mut(dependent)` and the
      decrement.  The last pass also puts no program into the queue that was in it before. -/
  sort : ∃ found g ready, discover processes root = some found ∧ found.queue = [] ∧
    degrees (afterOf processes) found.seen found.discovered = some g ∧
    Sorting.readyUnits g.inDegree found.discovered = some ready ∧
    ∀ turns,
      (Sorting.run g.dependents turns { inDegree := g.inDegree, ready, sorted := [] }).isSome ∧
      (ready ++ Sorting.entries g.dependents turns { inDegree := g.inDegree, ready, sorted := [] }).Nodup

theorem resolvesSafely {processes : ProcessTable} {root : String} (hroot : root ∈ processes) :
    ResolvesSafely processes root := by
  constructor
  · intro turns
    -- only configured programs are queued
    obtain ⟨found, hrun, _⟩ := Search.run_inv (fun u known => depsOf_isSome (of_decide_eq_true known))
      (fun u known => Finmap.mem_keys.mpr (of_decide_eq_true known)) turns _
      (Search.start_inv (decide_eq_true hroot))
    exact Option.isSome_iff_exists.mpr ⟨found, hrun⟩
  · obtain ⟨found, hfound, empty, hnodup, hseen, hknown, _⟩ := discover_known hroot
    obtain ⟨g, ready, hg, hready, hruns⟩ :=
      Sorting.sort_safe hnodup fun u member => afterOf_isSome (hknown u member)
    exact ⟨found, g, ready, hfound, empty, by rw [hseen, hg], hready, hruns⟩

namespace Daemon

/-- For a configured root every partial operation of the resolver is defined where it is reached,
    no program enters the ready queue twice, and the loop of `start_process` leaves the result
    that the call ends with. -/
theorem startProcess_safe (split : String → Option (List String)) {d : Daemon} {root : String}
    (hroot : root ∈ d.processes) (os : String → Option Nat) :
    ResolvesSafely d.processes root ∧
    ∃ order result d', resolveStartOrder d.processes root = some (.ok order) ∧
      startUnits split root os none d order = (some result, d') ∧
      d.startProcess split root os = some (result, d') := by
  obtain ⟨order, resolved, _⟩ := resolveStartOrder_known hroot
  obtain ⟨result, d', hran, _⟩ := startUnits_resolved split resolved os
  exact ⟨resolvesSafely hroot, order, result, d', resolved, hran, by simp only [startProcess, resolved, hran]⟩

/-- `db` and `cache` wait for each other, and `web` for one of them. -/
theorem startProcess_safe_besideCycle :
    ResolvesSafely besideCycle "web" ∧
    ∃ order result d', resolveStartOrder besideCycle "web" = some (.ok order) ∧
      startUnits (fun command => some [command]) "web" (fun _ => some 7) none { processes := besideCycle }
        order = (some result, d') ∧
      startProcess (fun command => some [command]) { processes := besideCycle } "web" (fun _ => some 7) =
        some (result, d') :=
  startProcess_safe (d := { processes := besideCycle }) _ (by decide) _

end Daemon

end Ciron
