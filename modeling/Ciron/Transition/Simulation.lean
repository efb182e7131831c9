import Ciron.Transition.Run

/-! # Simulation of one transition system by another

If from related states every step of the first system that meets a condition can be answered by
steps of the second one, perhaps none, that lead to related states again, then every run of
the first system all of whose steps meet the condition is answered by a run of the second.

Where the first system keeps a log of what the second one does, the second system can do all that
is in the log, and comes to a related state by it (`Exec.replays`). -/

namespace Ciron.Transition

universe u v w x

variable {σ : Type u} {α : Type v} {τ : Type w} {β : Type x}
variable {step : σ → α → Option σ} {step' : τ → β → Option τ}

theorem Reachable.refl (s : σ) : Reachable step s s := ⟨[], .refl⟩

theorem Reachable.single {s t : σ} {a : α} (h : step s a = some t) : Reachable step s t := ⟨_, .single h⟩

theorem Exec.simulates {Related : σ → τ → Prop} {Cond : σ → α → Prop}
    (hstep : ∀ s a t s', Related s s' → Cond s a → step s a = some t →
      ∃ t', Reachable step' s' t' ∧ Related t t')
    {start s : σ} {start' : τ} {trace : List (σ × α)} (hexec : Exec step start trace s)
    (hcond : ∀ p ∈ trace, Cond p.1 p.2) (hstart : Related start start') :
    ∃ s', Reachable step' start' s' ∧ Related s s' := by
  induction hexec with
  | refl => exact ⟨start', .refl _, hstart⟩
  | @tail trace s t a _ hlast ih =>
    obtain ⟨here, before⟩ := List.forall_mem_cons.mp hcond
    obtain ⟨s', reach, related⟩ := ih before
    obtain ⟨t', ⟨trace', answer⟩, related'⟩ := hstep s a t s' related here hlast
    exact ⟨t', reach.trans answer, related'⟩

theorem runs_append (s : σ) (first second : List α) :
    runs step s (first ++ second) = (runs step s first).bind (runs step · second) := by
  induction first generalizing s with
  | nil => rfl
  | cons a first ih => simp only [List.cons_append, runs, ih, Option.bind_assoc]

theorem Exec.replays {Related : σ → τ → Prop} {log : σ → List β}
    (hstep : ∀ s a t s', Related s s' → step s a = some t →
      ∃ new t', log t = log s ++ new ∧ runs step' s' new = some t' ∧ Related t t')
    {start s : σ} {start' : τ} {trace : List (σ × α)} (hexec : Exec step start trace s)
    (hlog : log start = []) (hstart : Related start start') :
    ∃ s', runs step' start' (log s) = some s' ∧ Related s s' := by
  induction hexec with
  | refl => exact ⟨start', by rw [hlog]; rfl, hstart⟩
  | @tail trace s t a _ hlast ih =>
    obtain ⟨s', replayed, related⟩ := ih
    obtain ⟨new, t', grown, answer, related'⟩ := hstep s a t s' related hlast
    exact ⟨t', by rw [grown, runs_append, replayed, Option.bind_some, answer], related'⟩

end Ciron.Transition
