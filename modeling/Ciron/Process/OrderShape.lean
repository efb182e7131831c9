import Ciron.Graph.BreadthFirst
import Ciron.Process.StartOrder

/-! # The shape of the start order

A start order is a topological order by `after` of the programs that reach no cycle of
`after` edges, followed by those that do reach one, in the order of their discovery
(`Shape`).  A cycle so costs the order of everything downstream of it, not of its own
programs alone: `after_respected_iff` says for which edges.
-/

namespace Ciron

open Relation Ciron.Graph

variable (processes : ProcessTable)

/-- The known names on the two lists of a program. -/
def knownDeps (name : String) : List String :=
  ((depsOf processes name).getD []).filter (· ∈ processes)

/-- The closure of `root`, breadth first. -/
def discoveryOrder (root : String) : List String :=
  breadthFirst (knownDeps processes) root processes.keys.card

/-- `resolveStartOrder` with a bound on the turns of its two loops, and no result where the
    bound ends a loop that has not emptied its queue. -/
def resolveWithin (turns : Nat) (name : String) : Option (Except String (List String)) :=
  if name ∈ processes then do
    let found ← Search.run (depsOf processes) (fun dep => dep ∈ processes) turns (Search.start name)
    let done ← sortWithin processes found turns
    if found.queue = [] ∧ done.ready = [] then return .ok (breakCycles found.discovered done.sorted)
    else none
  else some (.error (notFound name))

/-- The two parts of a start order. -/
structure Shape (root : String) (placed kept : List String) : Prop where
  nodup : (placed ++ kept).Nodup
  mem_placed : ∀ u, u ∈ placed ↔ InClosure processes root u ∧ ¬ ReachesCycle (Afters processes) u
  mem_kept : ∀ u, u ∈ kept ↔ InClosure processes root u ∧ ReachesCycle (Afters processes) u
  ordered : Ordered (Afters processes) placed
  discovery : kept = (discoveryOrder processes root).filter (· ∉ placed)

variable {processes}

theorem breakCycles_eq {discovered sorted : List String} (hdiscovered : discovered.Nodup)
    (hnodup : sorted.Nodup) (hsubset : ∀ u ∈ sorted, u ∈ discovered) :
    breakCycles discovered sorted = sorted ++ discovered.filter (· ∉ sorted) := by
  unfold breakCycles
  split
  · exact appendMissing_of_nodup hdiscovered sorted
  · rename_i hlength
    have none : discovered.filter (· ∉ sorted) = [] := List.filter_eq_nil_iff.mpr fun u member => by
      simpa using (perm_of_length hnodup hsubset hlength).mem_iff.mpr member
    rw [none, List.append_nil]

theorem discover_order {root : String} {found : Search String}
    (hrun : discover processes root = some found) (empty : found.queue = []) :
    found.discovered = discoveryOrder processes root :=
  Search.run_breadthFirst hrun empty (Nat.le_refl _)

/-- The closure is closed under `after`. -/
theorem InClosure.afters {root u dep : String} (h : InClosure processes root u)
    (edge : Afters processes u dep) : InClosure processes root dep :=
  h.tail edge.pulls

/-- For a known root the order has its shape, and a longer run of the loops adds nothing. -/
theorem resolveStartOrder_shape {root : String} (hroot : root ∈ processes) :
    ∃ placed kept, resolveStartOrder processes root = some (.ok (placed ++ kept)) ∧
      (∀ turns, processes.keys.card ≤ turns →
        resolveWithin processes turns root = some (.ok (placed ++ kept))) ∧
      Shape processes root placed kept := by
  obtain ⟨found, hfound, empty, hnodup, hseen, hknown, hmem⟩ := discover_known hroot
  obtain ⟨done, hdone, ready, hsorted, hsubset, hordered, hcycle⟩ := sortWithin_spec hnodup hseen hknown
  have hbreak := breakCycles_eq hnodup hsorted hsubset
  have hlength := length_le_card hnodup hknown
  have ordered : Ordered (Afters processes) done.sorted := hordered.mono fun u member dep edge =>
    ⟨edge, (hmem dep).mpr (((hmem u).mp (hsubset u member)).afters edge)⟩
  have acyclic : ∀ u ∈ found.discovered, u ∈ done.sorted ↔ ¬ ReachesCycle (Afters processes) u := by
    intro u member
    refine ⟨ordered.not_reachesCycle, fun reachesNone => ?_⟩
    by_contra unsorted
    exact reachesNone (hcycle u member unsorted)
  refine ⟨done.sorted, found.discovered.filter (· ∉ done.sorted), ?_, fun turns hturns => ?_, ?_⟩
  · simp [resolveStartOrder, hroot, hfound, sortByAfter_eq, hdone, hbreak]
  · have longer := Search.run_mono hturns hfound empty
    simp [resolveWithin, hroot, longer, hdone turns (hlength.trans hturns), empty, ready, hbreak]
  · refine ⟨?_, fun u => ?_, fun u => ?_, ordered, ?_⟩
    · rw [← hbreak]
      exact (breakCycles_spec hsorted hsubset).1
    · rw [← hmem]
      exact ⟨fun member => ⟨hsubset u member, (acyclic u (hsubset u member)).mp member⟩,
        fun both => (acyclic u both.1).mpr both.2⟩
    · rw [List.mem_filter, ← hmem]
      refine and_congr_right fun member => ?_
      rw [decide_eq_true_iff, acyclic u member, not_not]
    · rw [discover_order hfound empty]

theorem Shape.kept_eq_nil {root : String} {placed kept : List String}
    (shape : Shape processes root placed kept)
    (acyclic : ∀ u, InClosure processes root u → ¬ ReachesCycle (Afters processes) u) : kept = [] := by
  refine List.eq_nil_iff_forall_not_mem.mpr fun u member => ?_
  obtain ⟨closure, reaches⟩ := (shape.mem_kept u).mp member
  exact acyclic u closure reaches

/-- The order is `placed ++ kept`, where `kept` are the programs of the closure that reach a
    cycle of known `after` edges, in breadth-first order, and `placed` the others, each
    after the known programs on its `after` list.  Where there is no such cycle all are
    placed. -/
theorem startOrder_shape {root : String} (hroot : root ∈ processes) :
    ∃ placed kept, resolveStartOrder processes root = some (.ok (placed ++ kept)) ∧
      Shape processes root placed kept ∧
      ((∀ u, InClosure processes root u → ¬ ReachesCycle (Afters processes) u) →
        kept = [] ∧ Ordered (Afters processes) (placed ++ kept)) := by
  obtain ⟨placed, kept, resolved, _, shape⟩ := resolveStartOrder_shape hroot
  refine ⟨placed, kept, resolved, shape, fun acyclic => ?_⟩
  rw [shape.kept_eq_nil acyclic, List.append_nil]
  exact ⟨rfl, shape.ordered⟩

theorem resolveStartOrder_ordered {root : String} {order : List String}
    (acyclic : ∀ u, ¬ TransGen (Afters processes) u u)
    (resolved : resolveStartOrder processes root = some (.ok order)) :
    Ordered (Afters processes) order := by
  obtain ⟨known, _⟩ := resolveStartOrder_ok resolved
  obtain ⟨placed, kept, resolved', _, shape⟩ := resolveStartOrder_shape known
  rw [resolved, Option.some.injEq, Except.ok.injEq] at resolved'
  have none := shape.kept_eq_nil fun u _ reaches => by
    obtain ⟨v, _, cycle⟩ := reaches
    exact acyclic v cycle
  rw [resolved', none, List.append_nil]
  exact shape.ordered

/-- A start order exists exactly for the configured names, and then lists the closure, each
    program once, however long the loops may run. -/
theorem startOrder_members (processes : ProcessTable) (root : String) :
    ((∃ error, resolveStartOrder processes root = some (.error error)) ↔ root ∉ processes) ∧
    (root ∈ processes → ∃ order, resolveStartOrder processes root = some (.ok order) ∧
      (∀ turns, processes.keys.card ≤ turns → resolveWithin processes turns root = some (.ok order)) ∧
      order.Nodup ∧ ∀ u, u ∈ order ↔ InClosure processes root u) := by
  refine ⟨⟨?_, fun unknown => ⟨_, resolveStartOrder_unknown unknown⟩⟩, fun known => ?_⟩
  · rintro ⟨error, failed⟩ known
    obtain ⟨order, resolved, _⟩ := resolveStartOrder_known known
    rw [resolved] at failed
    cases failed
  · obtain ⟨placed, kept, resolved, within, shape⟩ := resolveStartOrder_shape known
    refine ⟨placed ++ kept, resolved, within, shape.nodup, fun u => ?_⟩
    rw [List.mem_append, shape.mem_placed, shape.mem_kept, ← and_or_left]
    exact and_iff_left (Classical.em _).symm

/-! ## What a cycle costs -/

/-- An edge between kept programs is respected when discovery happens to respect it; every
    other edge is respected. -/
theorem Shape.precedes_iff {root : String} {placed kept : List String}
    (shape : Shape processes root placed kept) {u dep : String} (hu : InClosure processes root u)
    (edge : Afters processes u dep) :
    [dep, u].Sublist (placed ++ kept) ↔
      ¬ ReachesCycle (Afters processes) dep ∨ [dep, u].Sublist (discoveryOrder processes root) := by
  by_cases cyclic : ReachesCycle (Afters processes) dep
  · have depKept : dep ∉ placed := fun member => ((shape.mem_placed dep).mp member).2 cyclic
    have unitKept : u ∉ placed := fun member => ((shape.mem_placed u).mp member).2 (cyclic.head edge)
    have both : [dep, u].filter (· ∉ placed) = [dep, u] := by simp [depKept, unitKept]
    rw [or_iff_right (not_not.mpr cyclic)]
    constructor
    · intro before
      have inKept := before.filter (· ∉ placed)
      rw [both, List.filter_append, List.filter_eq_nil_iff.mpr (by simp), List.nil_append] at inKept
      refine (inKept.trans List.filter_sublist).trans ?_
      rw [shape.discovery]
      exact List.filter_sublist
    · intro before
      have inKept := before.filter (· ∉ placed)
      rw [both, ← shape.discovery] at inKept
      exact inKept.trans (List.sublist_append_right ..)
  · refine iff_of_true ?_ (.inl cyclic)
    by_cases unitPlaced : u ∈ placed
    · exact (shape.ordered.sublist unitPlaced edge).trans (List.sublist_append_left ..)
    · -- the program itself is kept back, behind all that is placed
      have unitKept : u ∈ kept := (shape.mem_kept u).mpr
        ⟨hu, not_not.mp fun acyclic => unitPlaced ((shape.mem_placed u).mpr ⟨hu, acyclic⟩)⟩
      have depPlaced : dep ∈ placed := (shape.mem_placed dep).mpr ⟨hu.afters edge, cyclic⟩
      exact (List.singleton_sublist.mpr depPlaced).append (List.singleton_sublist.mpr unitKept)

/-- A program starts after a known program on its `after` list exactly if that one reaches no
    cycle or discovery meets it first. -/
theorem after_respected_iff {root u dep : String} (hroot : root ∈ processes)
    (hu : InClosure processes root u) (edge : Afters processes u dep) :
    ∃ order, resolveStartOrder processes root = some (.ok order) ∧ order.Nodup ∧
      ([dep, u].Sublist order ↔
        ¬ ReachesCycle (Afters processes) dep ∨ [dep, u].Sublist (discoveryOrder processes root)) := by
  obtain ⟨placed, kept, resolved, _, shape⟩ := resolveStartOrder_shape hroot
  exact ⟨placed ++ kept, resolved, shape.nodup, shape.precedes_iff hu edge⟩

/-- `web` comes after `log` and after `db`, which is on a cycle with `cache`. -/
def besideCycle : ProcessTable :=
  (Daemon.loadFromConfig
    [("web", { command := "web", after := some ["db", "log"] }), ("log", { command := "log" }),
      ("db", { command := "db", after := some ["cache"] }),
      ("cache", { command := "cache", after := some ["db"] })]).processes

theorem startOrder_shape_besideCycle :
    resolveStartOrder besideCycle "web" = some (.ok (["log"] ++ ["web", "db", "cache"])) ∧
    ∃ placed kept, resolveStartOrder besideCycle "web" = some (.ok (placed ++ kept)) ∧
      Shape besideCycle "web" placed kept ∧
      ((∀ u, InClosure besideCycle "web" u → ¬ ReachesCycle (Afters besideCycle) u) →
        kept = [] ∧ Ordered (Afters besideCycle) (placed ++ kept)) :=
  ⟨rfl, startOrder_shape (by decide)⟩

theorem besideCycle_edge : Afters besideCycle "web" "db" := ⟨_, rfl, by decide, by decide⟩

/-- `db` is started after `web`, though the edge between them is on no cycle. -/
theorem downstream_starts_first :
    "web" ∈ besideCycle ∧ InClosure besideCycle "web" "web" ∧ Afters besideCycle "web" "db" ∧
      ¬ ReflTransGen (Afters besideCycle) "db" "web" ∧
      resolveStartOrder besideCycle "web" = some (.ok ["log", "web", "db", "cache"]) ∧
      ¬ ["db", "web"].Sublist ["log", "web", "db", "cache"] := by
  refine ⟨by decide, .refl, besideCycle_edge, fun reaches => ?_, rfl, by decide⟩
  -- the two programs of the cycle lead to each other only
  have onCycle : "web" ∈ ["db", "cache"] := by
    generalize "web" = reached at reaches
    induction reaches with
    | refl => simp
    | tail _ edge ih =>
      simp only [List.mem_cons, List.not_mem_nil, or_false] at ih
      rcases ih with rfl | rfl
      · exact List.mem_cons_of_mem _ (afters_iff.mp edge).1
      · have listed : _ ∈ ["db"] := (afters_iff.mp edge).1
        rw [List.mem_singleton.mp listed]
        exact List.mem_cons_self ..
  exact absurd onCycle (by decide)

theorem after_respected_iff_besideCycle :
    ∃ order, resolveStartOrder besideCycle "web" = some (.ok order) ∧ order.Nodup ∧
      (["db", "web"].Sublist order ↔ ¬ ReachesCycle (Afters besideCycle) "db" ∨
        ["db", "web"].Sublist (discoveryOrder besideCycle "web")) :=
  after_respected_iff (by decide) .refl besideCycle_edge

end Ciron
