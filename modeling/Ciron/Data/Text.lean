import Mathlib.Data.List.Basic

/-! # Prefixes, fields and decimal numbers of a text

`stripPrefix`, `splitChar` and `parseUnsigned` are `str::strip_prefix`, `str::split` by a
character and the `FromStr` of Rust's unsigned integers.  Each comes with the one lemma that
says on which texts it has which result; `Decimal` is the grammar of the numbers. -/

namespace Ciron.Data

/-! ## Prefixes -/

def stripPrefix (lead s : String) : Option String :=
  (lead.toList.isPrefixOf? s.toList).map String.ofList

def startsWith (lead s : String) : Bool := lead.toList.isPrefixOf s.toList

theorem stripPrefix_eq_some {lead s rest : String} : stripPrefix lead s = some rest ↔ s = lead ++ rest := by
  rw [stripPrefix, Option.map_eq_some_iff, ← String.toList_inj, String.toList_append]
  constructor
  · rintro ⟨tail, stripped, rfl⟩
    rw [String.toList_ofList, List.append_eq_of_isPrefixOf?_eq_some stripped]
  · intro split
    exact ⟨rest.toList, List.isPrefixOf?_eq_some_iff_append_eq.mpr split.symm, String.ofList_toList⟩

@[simp] theorem stripPrefix_self (lead rest : String) : stripPrefix lead (lead ++ rest) = some rest :=
  stripPrefix_eq_some.mpr rfl

/-- Two prefixes neither of which starts the other do not start the same text. -/
theorem stripPrefix_other (lead other rest : String)
    (differ : ¬ lead.toList <+: other.toList ∧ ¬ other.toList <+: lead.toList) :
    stripPrefix lead (other ++ rest) = none := by
  cases stripped : stripPrefix lead (other ++ rest) with
  | none => rfl
  | some tail =>
    have same := stripPrefix_eq_some.mp stripped
    rw [← String.toList_inj, String.toList_append, String.toList_append] at same
    have leads : lead.toList <+: other.toList ++ rest.toList := same ▸ List.prefix_append ..
    cases List.prefix_or_prefix_of_prefix leads (List.prefix_append ..) with
    | inl shorter => exact absurd shorter differ.1
    | inr longer => exact absurd longer differ.2

theorem startsWith_eq (lead s : String) : startsWith lead s = (stripPrefix lead s).isSome := by
  rw [Bool.eq_iff_iff, startsWith, List.isPrefixOf_iff_prefix, Option.isSome_iff_exists]
  constructor
  · rintro ⟨rest, split⟩
    exact ⟨String.ofList rest, stripPrefix_eq_some.mpr (by
      rw [← String.toList_inj, String.toList_append, String.toList_ofList, split])⟩
  · rintro ⟨rest, stripped⟩
    rw [stripPrefix_eq_some.mp stripped, String.toList_append]
    exact List.prefix_append ..

/-! ## Fields -/

def splitChar (separator : Char) (s : String) : List String :=
  (s.toList.splitOn separator).map String.ofList

theorem splitOn_eq_pair {α : Type} [DecidableEq α] {separator : α} {l first second : List α} :
    l.splitOn separator = [first, second] ↔
      separator ∉ first ∧ separator ∉ second ∧ l = first ++ separator :: second := by
  constructor
  · intro fields
    by_cases member : separator ∈ l
    · obtain ⟨before, after, rfl, absent⟩ := List.eq_append_cons_of_mem member
      rw [List.splitOn_append_cons_self_of_not_mem absent, List.cons.injEq] at fields
      obtain ⟨rfl, fields⟩ := fields
      by_cases again : separator ∈ after
      · -- a second separator would make a third field
        obtain ⟨between, rest, rfl, absent'⟩ := List.eq_append_cons_of_mem again
        rw [List.splitOn_append_cons_self_of_not_mem absent', List.cons.injEq] at fields
        exact absurd fields.2 (List.splitOn_ne_nil separator rest)
      · rw [List.splitOn_eq_singleton again, List.cons.injEq] at fields
        obtain ⟨rfl, _⟩ := fields
        exact ⟨absent, again, rfl⟩
    · rw [List.splitOn_eq_singleton member] at fields
      cases fields
  · rintro ⟨absent, absent', rfl⟩
    rw [List.splitOn_append_cons_self_of_not_mem absent, List.splitOn_eq_singleton absent']

theorem splitChar_eq_pair {separator : Char} {s first second : String} :
    splitChar separator s = [first, second] ↔ separator ∉ first.toList ∧ separator ∉ second.toList ∧
      s = first ++ String.singleton separator ++ second := by
  have texts : ∀ fields : List (List Char), fields.map String.ofList = [first, second] ↔
      fields = [first.toList, second.toList] := by
    intro fields
    constructor
    · intro same
      have lists := congrArg (List.map String.toList) same
      simpa [List.map_map, Function.comp_def] using lists
    · rintro rfl
      simp
  rw [splitChar, texts, splitOn_eq_pair, ← String.toList_inj]
  simp

/-! ## Decimal numbers -/

inductive IntErrorKind where
  | empty
  | invalidDigit
  | posOverflow
deriving DecidableEq, Repr

instance : ToString IntErrorKind where
  toString
    | .empty => "cannot parse integer from empty string"
    | .invalidDigit => "invalid digit found in string"
    | .posOverflow => "number too large to fit in target type"

/-- The digits of a number below `size`, behind those read already. -/
def parseDigits (size : Nat) : Nat → List Char → Except IntErrorKind Nat
  | value, [] => .ok value
  | value, c :: rest =>
    if c.isDigit then
      let value := 10 * value + (c.toNat - '0'.toNat)
      if value < size then parseDigits size value rest else .error .posOverflow
    else .error .invalidDigit

/-- `FromStr` of the unsigned integers below `size`: there may be a plus sign, and a minus sign
    is no digit. -/
def parseUnsigned (size : Nat) (s : String) : Except IntErrorKind Nat :=
  match s.toList with
  | [] => .error .empty
  | ['+'] | ['-'] => .error .invalidDigit
  | '+' :: digits => parseDigits size 0 digits
  | digits => parseDigits size 0 digits

/-- An optional plus sign and one or more digits, with a value below `size`. -/
structure Decimal (size : Nat) (s : String) (n : Nat) : Prop where
  digits : ∃ sign digits, (sign = [] ∨ sign = ['+']) ∧ digits ≠ [] ∧ (∀ c ∈ digits, c.isDigit = true) ∧
    s.toList = sign ++ digits ∧ n = Nat.ofDigitChars 10 digits 0
  bound : n < size

theorem le_ofDigitChars (value : Nat) (digits : List Char) : value ≤ Nat.ofDigitChars 10 digits value := by
  rw [Nat.ofDigitChars_eq_ofDigitChars_zero]
  exact Nat.le_add_right_of_le (Nat.le_mul_of_pos_left _ (Nat.pow_pos (by decide)))

theorem parseDigits_eq_ok {size value n : Nat} (hvalue : value < size) (digits : List Char) :
    parseDigits size value digits = .ok n ↔
      (∀ c ∈ digits, c.isDigit = true) ∧ n = Nat.ofDigitChars 10 digits value ∧ n < size := by
  induction digits generalizing value with
  | nil =>
    simp only [parseDigits, Nat.ofDigitChars_nil, Except.ok.injEq]
    constructor
    · rintro rfl
      exact ⟨by simp, rfl, hvalue⟩
    · exact fun h => h.2.1.symm
  | cons c rest ih =>
    rw [parseDigits, Nat.ofDigitChars_cons]
    by_cases digit : c.isDigit = true
    · rw [if_pos digit]
      dsimp only
      by_cases fits : 10 * value + (c.toNat - '0'.toNat) < size
      · rw [if_pos fits, ih fits]
        simp [digit]
      · -- further digits do not make the value smaller
        rw [if_neg fits]
        refine iff_of_false (by simp) ?_
        rintro ⟨_, rfl, bound⟩
        exact fits (Nat.lt_of_le_of_lt (le_ofDigitChars _ rest) bound)
    · rw [if_neg digit]
      exact iff_of_false (by simp) fun h => digit (h.1 c (List.mem_cons_self ..))

theorem Decimal.of_digits {size n : Nat} {s : String} {sign digits : List Char} (hsize : 0 < size)
    (hsign : sign = [] ∨ sign = ['+']) (nonempty : digits ≠ []) (text : s.toList = sign ++ digits)
    (parsed : parseDigits size 0 digits = .ok n) : Decimal size s n := by
  obtain ⟨all, value, bound⟩ := (parseDigits_eq_ok hsize digits).mp parsed
  exact ⟨⟨sign, digits, hsign, nonempty, all, text, value⟩, bound⟩

theorem parseUnsigned_eq_ok {size : Nat} (hsize : 0 < size) {s : String} {n : Nat} :
    parseUnsigned size s = .ok n ↔ Decimal size s n := by
  constructor
  · intro parsed
    rw [parseUnsigned] at parsed
    split at parsed
    · cases parsed
    · cases parsed
    · cases parsed
    · rename_i digits alone text
      have nonempty : digits ≠ [] := fun empty => alone (by rw [empty])
      exact .of_digits hsize (.inr rfl) nonempty text parsed
    · rename_i digits nonempty _ _ _
      exact .of_digits hsize (.inl rfl) (fun empty => nonempty empty) rfl parsed
  · rintro ⟨⟨sign, digits, hsign, nonempty, all, text, value⟩, bound⟩
    have parsed := (parseDigits_eq_ok hsize digits).mpr ⟨all, value, bound⟩
    obtain ⟨first, rest, rfl⟩ := List.exists_cons_of_ne_nil nonempty
    have digit := all first (List.mem_cons_self ..)
    rw [parseUnsigned, text]
    cases hsign with
    | inl none =>
      -- a digit is neither of the signs
      have plus : first ≠ '+' := by rintro rfl; cases digit
      have minus : first ≠ '-' := by rintro rfl; cases digit
      subst none
      simpa [plus, minus] using parsed
    | inr plus =>
      subst plus
      simpa using parsed

/-- The digits that print a number. -/
theorem decimal_toString {size n : Nat} (bound : n < size) : Decimal size (toString n) n := by
  refine ⟨⟨[], Nat.toDigits 10 n, .inl rfl, Nat.toDigits_ne_nil, fun c member => ?_, ?_, ?_⟩, bound⟩
  · exact Nat.isDigit_of_mem_toDigits (by decide) (by decide) member
  · rw [Nat.toString_eq_repr, Nat.toList_repr, List.nil_append]
  · rw [Nat.ofDigitChars_ten_toDigits]

/-- A number is made of digits and a plus sign. -/
theorem Decimal.not_mem {size n : Nat} {s : String} (h : Decimal size s n) {c : Char}
    (digit : c.isDigit = false) (plus : c ≠ '+') : c ∉ s.toList := by
  obtain ⟨sign, digits, hsign, _, all, text, _⟩ := h.digits
  rw [text, List.mem_append]
  rintro (inSign | inDigits)
  · rcases hsign with rfl | rfl
    · cases inSign
    · exact plus (List.mem_singleton.mp inSign)
  · rw [all c inDigits] at digit
    cases digit

end Ciron.Data
