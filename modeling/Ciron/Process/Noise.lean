import Ciron.Graph.ReadyQueue
import Ciron.Process.StartOrder

/-! # Noise on the lists

A name that is not configured, or that stands on its list already, leaves no trace in the start
order: `startOrder_noise`.  Discovery passes it over (`Search.run_congr`); the counts of the
sort are other ones, but not the moment at which they come to zero (`Sorting.sort_peel`). -/

namespace Ciron

open Ciron.Graph

/-- The configured names of a list, each where it occurs first. -/
def withoutNoise (processes : ProcessTable) (names : List String) : List String :=
  (names.filter (· ∈ processes)).eraseDups

def cleanConfig (processes : ProcessTable) (config : ProgramConfig) : ProgramConfig :=
  { config with
    after := config.after.map (withoutNoise processes)
    wants := config.wants.map (withoutNoise processes) }

/-- The table with another configuration for every program. -/
def mapConfigs (f : ProgramConfig → ProgramConfig) (processes : ProcessTable) : ProcessTable :=
  Finmap.keysLookupEquiv.symm
    ⟨(processes.keys, fun name => (processes.lookup name).map fun p => { p with config := f p.config }),
      fun name => by rw [Option.isSome_map, Finmap.lookup_isSome, Finmap.mem_keys]⟩

/-- Both lists of every program without noise. -/
def cleanTable (processes : ProcessTable) : ProcessTable := mapConfigs (cleanConfig processes) processes

variable {processes : ProcessTable}

theorem mem_withoutNoise {names : List String} {name : String} :
    name ∈ withoutNoise processes names ↔ name ∈ names ∧ name ∈ processes := by
  rw [withoutNoise, List.mem_eraseDups, List.mem_filter, decide_eq_true_iff]

theorem getD_withoutNoise (names : Option (List String)) :
    (names.map (withoutNoise processes)).getD [] = withoutNoise processes (names.getD []) := by
  cases names <;> rfl

theorem cleanTable_keys (processes : ProcessTable) : (cleanTable processes).keys = processes.keys :=
  Finmap.keysLookupEquiv_symm_apply_keys _

theorem mem_cleanTable {name : String} : name ∈ cleanTable processes ↔ name ∈ processes := by
  rw [← Finmap.mem_keys, cleanTable_keys, Finmap.mem_keys]

theorem configOf_cleanTable (processes : ProcessTable) (name : String) :
    configOf (cleanTable processes) name = (configOf processes name).map (cleanConfig processes) := by
  rw [configOf, configOf, cleanTable, mapConfigs, Finmap.keysLookupEquiv_symm_apply_lookup, Option.map_map,
    Option.map_map]
  rfl

/-! ## Discovery -/

theorem visits_withoutNoise (s : Search String) (names : List String) :
    (withoutNoise processes names).foldl (Search.visit fun dep => dep ∈ processes) s =
      names.foldl (Search.visit fun dep => dep ∈ processes) s := by
  rw [withoutNoise, Search.visits_eraseDups, Search.visits_filter_known]

theorem discover_cleanTable (processes : ProcessTable) (root : String) :
    discover (cleanTable processes) root = discover processes root := by
  simp only [discover, mem_cleanTable, cleanTable_keys]
  refine Search.run_congr (fun name s => ?_) _ _
  rw [depsOf, depsOf, configOf_cleanTable]
  cases configOf processes name with
  | none => rfl
  | some config =>
    simp only [Option.map_some, ProgramConfig.deps, ProgramConfig.afterList, cleanConfig, getD_withoutNoise,
      List.foldl_append, visits_withoutNoise]

/-! ## The sort -/

theorem listed_cleanTable (name : String) :
    listed (afterOf (cleanTable processes)) name = withoutNoise processes (listed (afterOf processes) name) := by
  rw [listed, listed, afterOf, afterOf, configOf_cleanTable]
  cases configOf processes name with
  | none => rfl
  | some config => exact getD_withoutNoise config.after

theorem sortByAfter_peel {found : Search String} (hnodup : found.discovered.Nodup)
    (hseen : found.seen = found.discovered.toFinset) (hknown : ∀ u ∈ found.discovered, u ∈ processes) :
    sortByAfter processes found =
      some (Sorting.sortedBy (Sorting.Requires (afterOf processes) found.discovered) found.discovered) := by
  obtain ⟨g, ready, done, hg, hready, hrun, hsorted⟩ :=
    Sorting.sort_peel hnodup fun u member => afterOf_isSome (hknown u member)
  simp [sortByAfter, hseen, hg, hready, hrun, hsorted]

/-- Deleting the unknown names and the repetitions from all lists does not change a start
    order, nor the error of an unknown root. -/
theorem startOrder_noise (processes : ProcessTable) (root : String) :
    resolveStartOrder (cleanTable processes) root = resolveStartOrder processes root := by
  by_cases hroot : root ∈ processes
  · obtain ⟨found, hfound, _, hnodup, hseen, hknown, _⟩ := discover_known hroot
    have sorts : sortByAfter (cleanTable processes) found = sortByAfter processes found := by
      rw [sortByAfter_peel hnodup hseen hknown,
        sortByAfter_peel hnodup hseen fun u member => mem_cleanTable.mpr (hknown u member)]
      -- a program requires the same discovered programs
      refine congrArg some (Sorting.sortedBy_congr (fun u dep => ?_) found.discovered)
      rw [Sorting.Requires, Sorting.Requires, listed_cleanTable, mem_withoutNoise]
      exact ⟨fun h => ⟨h.1, h.2.1⟩, fun h => ⟨h.1, h.2, hknown dep h.1⟩⟩
    rw [resolveStartOrder, resolveStartOrder, if_pos hroot, if_pos (mem_cleanTable.mpr hroot),
      discover_cleanTable, hfound]
    simp only [Option.bind_eq_bind, Option.bind_some, sorts]
  · rw [resolveStartOrder_unknown hroot, resolveStartOrder_unknown fun h => hroot (mem_cleanTable.mp h)]

end Ciron
