import Mathlib.Data.List.DropRight

/-! # Texts written line by line

`unlines` is what a program writes that prints one text after the other, each with a newline.
Where no text has a newline of its own they can be read off again. -/

namespace Ciron.Data

/-- The texts, each with a newline behind it. -/
def unlines (texts : List String) : String := String.join (texts.map (· ++ "\n"))

theorem toList_unlines (texts : List String) :
    (unlines texts).toList = texts.flatMap fun text => text.toList ++ ['\n'] := by
  simp [unlines, List.flatMap_map]

/-- Split at the newlines, `unlines` gives the texts, and nothing behind the last one. -/
theorem splitOn_unlines {texts : List String} (whole : ∀ text ∈ texts, '\n' ∉ text.toList) :
    (unlines texts).toList.splitOn '\n' = texts.map String.toList ++ [[]] := by
  rw [toList_unlines]
  induction texts with
  | nil => rfl
  | cons text texts ih =>
    obtain ⟨here, rest⟩ := List.forall_mem_cons.mp whole
    rw [List.flatMap_cons, List.append_assoc, List.singleton_append,
      List.splitOn_append_cons_self_of_not_mem here, ih rest, List.map_cons, List.cons_append]

/-- Lists that are mapped alike are the same where the function is injective on what they hold. -/
theorem map_inj_on {α β : Type} {P : α → Prop} {f : α → β} (injective : ∀ a b, P a → P b → f a = f b → a = b)
    {l l' : List α} (all : ∀ a ∈ l, P a) (all' : ∀ a ∈ l', P a) (same : l.map f = l'.map f) : l = l' := by
  induction l generalizing l' with
  | nil => exact (List.map_eq_nil_iff.mp same.symm).symm
  | cons a l ih =>
    obtain ⟨b, rest, rfl, first, others⟩ := List.map_eq_cons_iff.mp same.symm
    rw [List.forall_mem_cons] at all all'
    rw [injective a b all.1 all'.1 first.symm, ih all.2 all'.2 others.symm]

theorem unlines_injective {texts texts' : List String} (whole : ∀ text ∈ texts, '\n' ∉ text.toList)
    (whole' : ∀ text ∈ texts', '\n' ∉ text.toList) (same : unlines texts = unlines texts') : texts = texts' := by
  have lists := splitOn_unlines whole
  rw [same, splitOn_unlines whole', List.append_cancel_right_eq] at lists
  exact (List.map_injective_iff.mpr (fun _ _ => String.toList_inj.mp) lists).symm

/-- A text that does not end with the filler can be told from it. -/
theorem rdropWhile_rightpad {c : Char} {l : List Char} (ends : l.getLast? ≠ some c) (width : Nat) :
    (l.rightpad width c).rdropWhile (· = c) = l := by
  rw [List.rightpad]
  induction width - l.length with
  | zero =>
    rw [List.replicate_zero, List.append_nil]
    refine List.rdropWhile_eq_self_iff.mpr fun nonempty last => ends ?_
    rw [List.getLast?_eq_getLast_of_ne_nil nonempty, of_decide_eq_true last]
  | succ filler ih =>
    rw [List.replicate_succ', ← List.append_assoc, List.rdropWhile_concat_pos _ _ _ (by simp), ih]

/-- What stands before the first separator of a text can be read off. -/
theorem append_sep_inj {c : Char} {l l' rest rest' : List Char} (absent : c ∉ l) (absent' : c ∉ l')
    (same : l ++ c :: rest = l' ++ c :: rest') : l = l' ∧ rest = rest' := by
  have fields := congrArg (List.splitOn c) same
  rw [List.splitOn_append_cons_self_of_not_mem absent, List.splitOn_append_cons_self_of_not_mem absent',
    List.cons.injEq] at fields
  obtain ⟨rfl, _⟩ := fields
  exact ⟨rfl, by simpa using same⟩

/-- A name without `: ` goes on into what stands behind a `: ` only if nothing is left of it. -/
theorem colon_append {more rest rest' : List Char} (plain : ¬ [':', ' '] <:+: more)
    (same : ':' :: ' ' :: rest = more ++ ':' :: ' ' :: rest') : more = [] := by
  match more with
  | [] => rfl
  | [c] => simp at same
  | c :: c' :: more =>
    simp only [List.cons_append, List.cons.injEq] at same
    obtain ⟨rfl, rfl, _⟩ := same
    exact absurd ⟨[], more, rfl⟩ plain

/-- What stands before the first `: ` of a text can be read off. -/
theorem append_colon_inj {name name' rest rest' : List Char} (plain : ¬ [':', ' '] <:+: name)
    (plain' : ¬ [':', ' '] <:+: name') (same : name ++ ':' :: ' ' :: rest = name' ++ ':' :: ' ' :: rest') :
    name = name' ∧ rest = rest' := by
  have ends : name = name' := by
    rcases List.append_eq_append_iff.mp same with ⟨more, rfl, longer⟩ | ⟨more, rfl, longer⟩
    · rw [colon_append (fun inside => plain' (inside.trans (List.suffix_append ..).isInfix)) longer,
        List.append_nil]
    · rw [colon_append (fun inside => plain (inside.trans (List.suffix_append ..).isInfix)) longer,
        List.append_nil]
  subst ends
  exact ⟨rfl, by simpa using same⟩

end Ciron.Data
