import Mathlib.Data.List.Basic

/-! # Runs of an executable transition system

A system is a partial function `step : σ → α → Option σ`: every choice the outside
makes is in the label, and `none` means that the label is not possible in the state.

* `runs` executes a list of labels, `stepsOf` lists the steps it takes.
* `Exec step s trace t` says that `trace`, a list of (state before, label) pairs with
  the newest step first, leads from `s` to `t`.
* `Exec.invariant` carries an invariant over a run, `Exec.invariant_under` one that
  only steps meeting a condition preserve, and `Exec.good_iff` shows such a condition
  exact: the property holds all along the run iff every step meets it; by
  `Exec.last_good_iff` it is enough to look at the last state where a bad state stays bad.
* `Leads step Cond s t` says that a run of steps meeting `Cond` leads from `s` to `t`.
* `Only trace a p` says that `p` is the one step of a run with the label `a`.
-/

namespace Ciron.Transition

universe u v

variable {σ : Type u} {α : Type v} {step : σ → α → Option σ}

/-- Execute the labels of a list, oldest first. -/
def runs (step : σ → α → Option σ) : σ → List α → Option σ
  | s, [] => some s
  | s, a :: rest => (step s a).bind (runs step · rest)

/-- `trace` lists the steps from `start` to the last state, newest first, each with the
    state it was taken in. -/
inductive Exec (step : σ → α → Option σ) (start : σ) : List (σ × α) → σ → Prop
  | refl : Exec step start [] start
  | tail {trace : List (σ × α)} {s t : σ} {a : α} :
      Exec step start trace s → step s a = some t → Exec step start ((s, a) :: trace) t

/-- Some run leads from `start` to `s`. -/
def Reachable (step : σ → α → Option σ) (start s : σ) : Prop :=
  ∃ trace, Exec step start trace s

theorem Exec.single {s t : σ} {a : α} (h : step s a = some t) : Exec step s [(s, a)] t :=
  .tail .refl h

theorem Exec.trans {s t u : σ} {first second : List (σ × α)}
    (h1 : Exec step s first t) (h2 : Exec step t second u) : Exec step s (second ++ first) u := by
  induction h2 with
  | refl => exact h1
  | tail _ hstep ih => exact .tail ih hstep

theorem Reachable.tail {start s t : σ} {a : α} (h : Reachable step start s)
    (hstep : step s a = some t) : Reachable step start t := by
  obtain ⟨trace, hexec⟩ := h
  exact ⟨_, .tail hexec hstep⟩

theorem Reachable.trans {start s t : σ} {trace : List (σ × α)} (h : Reachable step start s)
    (hexec : Exec step s trace t) : Reachable step start t := by
  obtain ⟨first, hfirst⟩ := h
  exact ⟨_, hfirst.trans hexec⟩

/-- Some run all of whose steps meet `Cond` leads from `s` to `t`. -/
def Leads (step : σ → α → Option σ) (Cond : σ → α → Prop) (s t : σ) : Prop :=
  ∃ trace, Exec step s trace t ∧ ∀ p ∈ trace, Cond p.1 p.2

section

variable {Cond : σ → α → Prop}

theorem Leads.refl (s : σ) : Leads step Cond s s :=
  ⟨[], .refl, fun _ member => absurd member List.not_mem_nil⟩

theorem Leads.tail {s t u : σ} {a : α} (h : Leads step Cond s t) (cond : Cond t a)
    (hstep : step t a = some u) : Leads step Cond s u := by
  obtain ⟨trace, hexec, hcond⟩ := h
  exact ⟨_, .tail hexec hstep, List.forall_mem_cons.mpr ⟨cond, hcond⟩⟩

theorem Leads.mono {Cond' : σ → α → Prop} {s t : σ} (h : Leads step Cond s t)
    (weaker : ∀ s a, Cond s a → Cond' s a) : Leads step Cond' s t := by
  obtain ⟨trace, hexec, hcond⟩ := h
  exact ⟨trace, hexec, fun p member => weaker p.1 p.2 (hcond p member)⟩

theorem Leads.trans {s t u : σ} (h1 : Leads step Cond s t) (h2 : Leads step Cond t u) :
    Leads step Cond s u := by
  obtain ⟨first, hfirst, hcond1⟩ := h1
  obtain ⟨second, hsecond, hcond2⟩ := h2
  exact ⟨_, hfirst.trans hsecond, List.forall_mem_append.mpr ⟨hcond2, hcond1⟩⟩

end

/-- The steps that a list of labels takes from `s`, newest first. -/
def stepsOf (step : σ → α → Option σ) : σ → List α → List (σ × α)
  | _, [] => []
  | s, a :: rest =>
    match step s a with
    | some t => stepsOf step t rest ++ [(s, a)]
    | none => []

theorem exec_stepsOf {s t : σ} {actions : List α} (h : runs step s actions = some t) :
    Exec step s (stepsOf step s actions) t := by
  induction actions generalizing s with
  | nil =>
    simp only [runs, Option.some.injEq] at h
    subst h
    exact .refl
  | cons a rest ih =>
    simp only [runs, Option.bind_eq_some_iff] at h
    obtain ⟨next, hstep, hrest⟩ := h
    rw [stepsOf, hstep]
    exact (Exec.single hstep).trans (ih hrest)

theorem stepsOf_labels {s t : σ} {actions : List α} (h : runs step s actions = some t) :
    (stepsOf step s actions).map Prod.snd = actions.reverse := by
  induction actions generalizing s with
  | nil => rfl
  | cons a rest ih =>
    simp only [runs, Option.bind_eq_some_iff] at h
    obtain ⟨next, hstep, hrest⟩ := h
    simp [stepsOf, hstep, ih hrest]

/-- The run that a list of labels executes. -/
theorem exec_of_runs {s t : σ} {actions : List α} (h : runs step s actions = some t) :
    ∃ trace, Exec step s trace t ∧ trace.map Prod.snd = actions.reverse :=
  ⟨stepsOf step s actions, exec_stepsOf h, stepsOf_labels h⟩

theorem reachable_of_runs {s t : σ} {actions : List α} (h : runs step s actions = some t) :
    Reachable step s t :=
  ⟨stepsOf step s actions, exec_stepsOf h⟩

/-! ## The one step with a label -/

structure Only (trace : List (σ × α)) (a : α) (p : σ × α) : Prop where
  member : p ∈ trace
  label : p.2 = a
  only : ∀ q ∈ trace, q.2 = a → q = p

section

variable {trace : List (σ × α)} {s : σ} {a b : α} {p : σ × α}

theorem Only.first (h : ∀ q ∈ trace, q.2 ≠ a) : Only ((s, a) :: trace) a (s, a) := by
  refine ⟨List.mem_cons_self .., rfl, fun q member label => ?_⟩
  cases List.mem_cons.mp member with
  | inl same => exact same
  | inr member => exact absurd label (h q member)

theorem Only.tail (h : Only trace a p) (other : b ≠ a) : Only ((s, b) :: trace) a p := by
  refine ⟨List.mem_cons_of_mem _ h.member, h.label, fun q member label => ?_⟩
  cases List.mem_cons.mp member with
  | inl same =>
    subst same
    exact absurd label other
  | inr member => exact h.only q member label

end

/-! ## Invariants over a run -/

section

variable {start s : σ} {trace : List (σ × α)}

/-- Every state a run passes through is reached by a part of it. -/
theorem Exec.split (hexec : Exec step start trace s) :
    ∀ p ∈ trace, Reachable step start p.1 ∧ ∃ t, step p.1 p.2 = some t ∧ Reachable step t s := by
  induction hexec with
  | refl => intro p member; cases member
  | @tail trace s t a hexec hstep ih =>
    intro p member
    cases List.mem_cons.mp member with
    | inl same =>
      subst same
      exact ⟨⟨trace, hexec⟩, t, hstep, ⟨[], .refl⟩⟩
    | inr member =>
      obtain ⟨hreach, next, hnext, hrest⟩ := ih p member
      exact ⟨hreach, next, hnext, hrest.tail hstep⟩

/-- A property that steps meeting `Cond` preserve holds in every state of a run all of
    whose steps meet it. -/
theorem Exec.invariant_under {Inv : σ → Prop} {Cond : σ → α → Prop}
    (hstep : ∀ s a t, Inv s → Cond s a → step s a = some t → Inv t)
    (hexec : Exec step start trace s) (hcond : ∀ p ∈ trace, Cond p.1 p.2) (hstart : Inv start) :
    Inv s ∧ ∀ p ∈ trace, Inv p.1 := by
  induction hexec with
  | refl => exact ⟨hstart, by simp⟩
  | @tail trace s t a _ hlast ih =>
    obtain ⟨hs, hbefore⟩ := ih fun p member => hcond p (List.mem_cons_of_mem _ member)
    refine ⟨hstep s a t hs (hcond (s, a) (List.mem_cons_self ..)) hlast, ?_⟩
    intro p member
    cases List.mem_cons.mp member with
    | inl same =>
      subst same
      exact hs
    | inr member => exact hbefore p member

theorem Exec.invariant {Inv : σ → Prop}
    (hstep : ∀ s a t, Inv s → step s a = some t → Inv t)
    (hexec : Exec step start trace s) (hstart : Inv start) :
    Inv s ∧ ∀ p ∈ trace, Inv p.1 :=
  hexec.invariant_under (fun s a t hs (_ : True) => hstep s a t hs) (fun _ _ => trivial) hstart

theorem Reachable.invariant {Inv : σ → Prop}
    (hstep : ∀ s a t, Inv s → step s a = some t → Inv t)
    (hreach : Reachable step start s) (hstart : Inv start) : Inv s := by
  obtain ⟨_, hexec⟩ := hreach
  exact (hexec.invariant hstep hstart).1

/-- What each step keeps of the states before it holds between any state of a run and the last. -/
theorem Exec.since {R : σ → σ → Prop} (hrefl : ∀ s, R s s)
    (hstep : ∀ r s a t, R r s → step s a = some t → R r t) (hexec : Exec step start trace s) :
    ∀ p ∈ trace, R p.1 s := by
  intro p member
  obtain ⟨_, next, taken, later⟩ := hexec.split p member
  exact later.invariant (hstep p.1) (hstep p.1 p.1 p.2 next (hrefl p.1) taken)

/-- If a step from a good state leads to a good state exactly when it meets `Cond`, then
    a run from a good state stays good iff all its steps meet `Cond`. -/
theorem Exec.good_iff {Inv Good : σ → Prop} {Cond : σ → α → Prop}
    (hinv : ∀ s a t, Inv s → step s a = some t → Inv t)
    (hstep : ∀ s a t, Inv s → Good s → step s a = some t → (Good t ↔ Cond s a))
    (hexec : Exec step start trace s) (hstart : Inv start) (hgood : Good start) :
    (Good s ∧ ∀ p ∈ trace, Good p.1) ↔ ∀ p ∈ trace, Cond p.1 p.2 := by
  induction hexec with
  | refl => simpa using hgood
  | @tail trace s t a hearlier hlast ih =>
    have hs : Inv s := (hearlier.invariant hinv hstart).1
    simp only [List.forall_mem_cons]
    constructor
    · rintro ⟨ht, hgs, hrest⟩
      exact ⟨(hstep s a t hs hgs hlast).mp ht, ih.mp ⟨hgs, hrest⟩⟩
    · rintro ⟨hcond, hrest⟩
      obtain ⟨hgs, hbefore⟩ := ih.mpr hrest
      exact ⟨(hstep s a t hs hgs hlast).mpr hcond, hgs, hbefore⟩

/-- If a good state is only reached from good states, the last state of a run decides. -/
theorem Exec.last_good_iff {Inv Good : σ → Prop} {Cond : σ → α → Prop}
    (hinv : ∀ s a t, Inv s → step s a = some t → Inv t)
    (hback : ∀ s a t, Inv s → step s a = some t → Good t → Good s)
    (hstep : ∀ s a t, Inv s → Good s → step s a = some t → (Good t ↔ Cond s a))
    (hexec : Exec step start trace s) (hstart : Inv start) (hgood : Good start) :
    Good s ↔ ∀ p ∈ trace, Cond p.1 p.2 := by
  rw [← hexec.good_iff hinv hstep hstart hgood]
  refine ⟨fun hlast => ⟨hlast, ?_⟩, And.left⟩
  induction hexec with
  | refl => simp
  | @tail trace s t a hearlier hlaststep ih =>
    have hs : Good s := hback s a t (hearlier.invariant hinv hstart).1 hlaststep hlast
    exact List.forall_mem_cons.mpr ⟨hs, ih hs⟩

end

end Ciron.Transition
