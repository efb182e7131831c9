import Mathlib.Data.Nat.Init
import Ciron.Transition.Run

/-! # Steps that are paid for

An amortized count over a run.  A step that works lowers a potential, a step that pays raises it
by no more than a price, and no other step raises it; so what pays bounds all the work of the run
(`Exec.paid`).

Where a state that is not done always has a step that goes down, some run comes to one that is
(`comes_to`). -/

namespace Ciron.Transition

universe u v

variable {σ : Type u} {α : Type v} {step : σ → α → Option σ}

/-- How many steps of a run meet `p`. -/
def tally (p : σ → α → Bool) (trace : List (σ × α)) : Nat := trace.countP fun taken => p taken.1 taken.2

@[simp] theorem tally_nil (p : σ → α → Bool) : tally p [] = 0 := rfl

theorem tally_cons (p : σ → α → Bool) (s : σ) (a : α) (trace : List (σ × α)) :
    tally p ((s, a) :: trace) = tally p trace + if p s a = true then 1 else 0 :=
  List.countP_cons

theorem tally_append (p : σ → α → Bool) (trace later : List (σ × α)) :
    tally p (later ++ trace) = tally p later + tally p trace :=
  List.countP_append

/-- A count that only looks at the labels. -/
theorem tally_labels (p : α → Bool) (trace : List (σ × α)) :
    tally (fun _ a => p a) trace = (trace.map Prod.snd).countP p := by
  rw [tally, List.countP_map]
  rfl

section

variable (Inv : σ → Prop) (Cond : σ → α → Prop) (potential : σ → Nat) {start s : σ}
  {trace : List (σ × α)}

/-- The account of a run all of whose steps meet `Cond`. -/
theorem Exec.paid (works pays : σ → α → Bool) (price : Nat)
    (hinv : ∀ s a t, Inv s → step s a = some t → Inv t)
    (hstep : ∀ s a t, Inv s → Cond s a → step s a = some t →
      potential t + (if works s a = true then 1 else 0) ≤
        potential s + if pays s a = true then price else 0)
    (hexec : Exec step start trace s) (hcond : ∀ p ∈ trace, Cond p.1 p.2) (hstart : Inv start) :
    tally works trace + potential s ≤ potential start + price * tally pays trace := by
  induction hexec with
  | refl => simp
  | @tail trace s t a hearlier hlast ih =>
    obtain ⟨hhere, hbefore⟩ := List.forall_mem_cons.mp hcond
    have account := ih hbefore
    have moved := hstep s a t (hearlier.invariant hinv hstart).1 hhere hlast
    have priced : price * tally pays ((s, a) :: trace) =
        price * tally pays trace + if pays s a = true then price else 0 := by
      rw [tally_cons, Nat.mul_add]
      split <;> simp
    rw [tally_cons, priced]
    omega

end

/-- Where every state that is not done has a step that goes down, some run comes to one that is. -/
theorem comes_to {Cond : σ → α → Prop} (Inv : Nat → σ → Prop) (Done : σ → Prop)
    (hmore : ∀ height s, Inv height s → Done s ∨
      ∃ a t lower, Cond s a ∧ step s a = some t ∧ lower < height ∧ Inv lower t)
    {height : Nat} {start : σ} (hstart : Inv height start) : ∃ t, Leads step Cond start t ∧ Done t := by
  induction height using Nat.strong_induction_on generalizing start with
  | _ height ih =>
    rcases hmore height start hstart with done | ⟨a, next, lower, cond, taken, less, inv⟩
    · exact ⟨start, .refl start, done⟩
    · obtain ⟨t, leads, finished⟩ := ih lower less inv
      exact ⟨t, ((Leads.refl start).tail cond taken).trans leads, finished⟩

end Ciron.Transition
