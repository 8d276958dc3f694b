import Mathlib.Data.List.Basic
import Mathlib.Data.List.Forall2

/-!
# Delimited texts

When the parts of a text can be read back from it: parts set apart by a delimiter
they do not contain, records of one length laid end to end, and the digits of a
number.
-/

namespace Semcast.Delimited

variable {α β : Type*} {delimiter : α}

/-- The first delimiter ends the first part. -/
theorem append_cons_inj_of_first {left left' right right' : List α} (free : delimiter ∉ left)
    (free' : delimiter ∉ left') (same : left ++ delimiter :: right = left' ++ delimiter :: right') :
    left = left' ∧ right = right' := by
  induction left generalizing left' with
  | nil =>
    cases left' with
    | nil => exact ⟨rfl, (List.cons.inj same).2⟩
    | cons head rest => exact absurd (List.cons.inj same).1 (List.ne_of_not_mem_cons free')
  | cons head rest ih =>
    cases left' with
    | nil => exact absurd (List.cons.inj same).1.symm (List.ne_of_not_mem_cons free)
    | cons head' rest' =>
      obtain ⟨rfl, rest_same⟩ := List.cons.inj same
      obtain ⟨rfl, rights⟩ := ih (List.not_mem_of_not_mem_cons free)
        (List.not_mem_of_not_mem_cons free') rest_same
      exact ⟨rfl, rights⟩

/-- The last delimiter starts the last part. -/
theorem append_cons_inj_of_last {left left' right right' : List α} (free : delimiter ∉ right)
    (free' : delimiter ∉ right') (same : left ++ delimiter :: right = left' ++ delimiter :: right') :
    left = left' ∧ right = right' := by
  have reversed : right.reverse ++ delimiter :: left.reverse =
      right'.reverse ++ delimiter :: left'.reverse := by
    simpa using congrArg List.reverse same
  obtain ⟨rights, lefts⟩ := append_cons_inj_of_first (by simpa using free) (by simpa using free')
    reversed
  exact ⟨List.reverse_inj.mp lefts, List.reverse_inj.mp rights⟩

/-- A delimiter that no part contains sets the parts apart. -/
theorem intercalate_inj {parts parts' : List (List α)} (nonempty : parts ≠ [])
    (nonempty' : parts' ≠ [])
    (free : ∀ part ∈ parts, delimiter ∉ part) (free' : ∀ part ∈ parts', delimiter ∉ part)
    (same : [delimiter].intercalate parts = [delimiter].intercalate parts') : parts = parts' := by
  induction parts generalizing parts' with
  | nil => exact absurd rfl nonempty
  | cons part rest ih =>
    cases parts' with
    | nil => exact absurd rfl nonempty'
    | cons part' rest' =>
      obtain ⟨freePart, freeRest⟩ := List.forall_mem_cons.mp free
      obtain ⟨freePart', freeRest'⟩ := List.forall_mem_cons.mp free'
      cases rest with
      | nil =>
        cases rest' with
        | nil => simpa using same
        | cons next' others' =>
          have delimited : delimiter ∈ part := by
            rw [List.intercalate_singleton, List.intercalate_cons_cons] at same
            simp [same]
          exact absurd delimited freePart
      | cons next others =>
        cases rest' with
        | nil =>
          have delimited : delimiter ∈ part' := by
            rw [List.intercalate_singleton, List.intercalate_cons_cons] at same
            simp [← same]
          exact absurd delimited freePart'
        | cons next' others' =>
          simp only [List.intercalate_cons_cons, List.append_assoc, List.singleton_append] at same
          obtain ⟨rfl, later⟩ := append_cons_inj_of_first freePart freePart' same
          rw [ih (List.cons_ne_nil _ _) (List.cons_ne_nil _ _) freeRest freeRest' later]

/-- Records of one length can be told apart without a delimiter. -/
theorem flatMap_eq_flatMap_iff {record : β → List α} {size : Nat}
    (sized : ∀ item, (record item).length = size) (pos : 0 < size) {items items' : List β} :
    items.flatMap record = items'.flatMap record ↔
      List.Forall₂ (fun item item' => record item = record item') items items' := by
  induction items generalizing items' with
  | nil =>
    cases items' with
    | nil => simp
    | cons item' rest' =>
      have longer := sized item'
      simp only [List.flatMap_nil, List.flatMap_cons, List.forall₂_nil_left_iff, reduceCtorEq,
        iff_false]
      intro same
      rw [(List.append_eq_nil_iff.mp same.symm).1, List.length_nil] at longer
      omega
  | cons item rest ih =>
    cases items' with
    | nil =>
      have longer := sized item
      simp only [List.flatMap_nil, List.flatMap_cons, List.forall₂_nil_right_iff, reduceCtorEq,
        iff_false]
      intro same
      rw [(List.append_eq_nil_iff.mp same).1, List.length_nil] at longer
      omega
    | cons item' rest' =>
      rw [List.forall₂_cons, ← ih, List.flatMap_cons, List.flatMap_cons]
      constructor
      · intro same
        exact List.append_inj same ((sized item).trans (sized item').symm)
      · rintro ⟨first, others⟩
        rw [first, others]

section Digits

theorem digitChar_inj {m n : Nat} (small : m < 16) (small' : n < 16)
    (same : m.digitChar = n.digitChar) : m = n := by
  revert same
  have every : ∀ m < 16, ∀ n < 16, Nat.digitChar m = Nat.digitChar n → m = n := by decide
  exact every m small n small'

variable {base : Nat}

/-- The digits of a number, up to base 16, determine it. -/
theorem toDigits_inj (base_gt : 1 < base) (base_le : base ≤ 16) {m n : Nat}
    (same : Nat.toDigits base m = Nat.toDigits base n) : m = n := by
  induction m using Nat.strongRecOn generalizing n with
  | ind m ih =>
    rw [Nat.toDigits_eq_if base_gt, Nat.toDigits_eq_if (n := n) base_gt] at same
    split at same
    · split at same
      · exact digitChar_inj (by omega) (by omega) (List.cons.inj same).1
      · rename_i long
        have short := congrArg List.length same
        have nonempty : 0 < (Nat.toDigits base (n / base)).length := Nat.length_toDigits_pos
        simp only [List.length_cons, List.length_nil, List.length_append] at short
        omega
    · split at same
      · have short := congrArg List.length same
        have nonempty : 0 < (Nat.toDigits base (m / base)).length := Nat.length_toDigits_pos
        simp only [List.length_cons, List.length_nil, List.length_append] at short
        omega
      · obtain ⟨heads, lasts⟩ := List.append_inj' same rfl
        have quotients := ih (m / base) (Nat.div_lt_self (by omega) base_gt) heads
        have remainders : m % base = n % base :=
          digitChar_inj (Nat.lt_of_lt_of_le (Nat.mod_lt _ (by omega)) base_le)
            (Nat.lt_of_lt_of_le (Nat.mod_lt _ (by omega)) base_le) (List.cons.inj lasts).1
        rw [← Nat.div_add_mod m base, ← Nat.div_add_mod n base, quotients, remainders]

theorem exists_digitChar_of_mem_toDigits (base_gt : 1 < base) {n : Nat} {c : Char}
    (digit : c ∈ Nat.toDigits base n) : ∃ d < base, c = d.digitChar := by
  induction n using Nat.strongRecOn with
  | ind n ih =>
    rw [Nat.toDigits_eq_if base_gt] at digit
    split at digit
    · exact ⟨n, ‹_›, List.mem_singleton.mp digit⟩
    · rcases List.mem_append.mp digit with early | last
      · exact ih (n / base) (Nat.div_lt_self (by omega) base_gt) early
      · exact ⟨n % base, Nat.mod_lt _ (by omega), List.mem_singleton.mp last⟩

/-- Only zero starts with the digit zero. -/
theorem eq_zero_of_head_toDigits (base_gt : 1 < base) (base_le : base ≤ 16) {n : Nat}
    (zero : (Nat.toDigits base n).head? = some '0') : n = 0 := by
  induction n using Nat.strongRecOn with
  | ind n ih =>
    rw [Nat.toDigits_eq_if base_gt] at zero
    split at zero
    · exact digitChar_inj (by omega) (by omega) (Option.some.inj zero)
    · rename_i long
      have some : Nat.toDigits base (n / base) ≠ [] :=
        List.ne_nil_of_length_pos Nat.length_toDigits_pos
      rw [List.head?_append_of_ne_nil _ some] at zero
      have quotient := ih (n / base) (Nat.div_lt_self (by omega) base_gt) zero
      have large : 0 < n / base := Nat.div_pos (by omega) (by omega)
      omega

/-- The digits of a number, padded with zeros, determine it. -/
theorem leftpad_toDigits_inj (base_gt : 1 < base) (base_le : base ≤ 16) {width m n : Nat}
    (same : (Nat.toDigits base m).leftpad width '0' = (Nat.toDigits base n).leftpad width '0') :
    m = n := by
  wlog longer : (Nat.toDigits base n).length ≤ (Nat.toDigits base m).length generalizing m n
  · exact (this same.symm (by omega)).symm
  unfold List.leftpad at same
  -- The longer digits need no more zeros than the shorter ones.
  have zeros : width - (Nat.toDigits base n).length =
      (width - (Nat.toDigits base m).length) +
        ((width - (Nat.toDigits base n).length) - (width - (Nat.toDigits base m).length)) := by
    omega
  rw [zeros, List.replicate_add, List.append_assoc] at same
  have digits := List.append_cancel_left same
  cases more : (width - (Nat.toDigits base n).length) - (width - (Nat.toDigits base m).length) with
  | zero =>
    rw [more] at digits
    exact toDigits_inj base_gt base_le digits
  | succ count =>
    rw [more, List.replicate_succ, List.cons_append] at digits
    have none_left : m = 0 := eq_zero_of_head_toDigits base_gt base_le (by rw [digits]; rfl)
    have short : (Nat.toDigits base m).length = 1 := by
      subst none_left
      rw [Nat.toDigits_eq_if base_gt, if_pos (by omega)]
      rfl
    have some : 0 < (Nat.toDigits base n).length := Nat.length_toDigits_pos
    have lengths := congrArg List.length digits
    rw [short, List.length_cons, List.length_append] at lengths
    omega

/-- A number and what follows it after an underscore are told apart. -/
theorem number_underscore_inj {m n : Nat} {left right : String}
    (same : toString m ++ "_" ++ left = toString n ++ "_" ++ right) : m = n ∧ left = right := by
  have lists := congrArg String.toList same
  simp only [String.toList_append, Nat.toString_eq_repr, Nat.toList_repr] at lists
  rw [List.append_assoc, List.append_assoc] at lists
  obtain ⟨digits, rest⟩ := append_cons_inj_of_first
    Nat.underscore_not_in_toDigits Nat.underscore_not_in_toDigits lists
  exact ⟨toDigits_inj (by decide) (by decide) digits, String.toList_inj.mp rest⟩

end Digits

end Semcast.Delimited
