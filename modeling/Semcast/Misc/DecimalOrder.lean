import Mathlib.Algebra.Group.Nat.Defs
import Mathlib.Data.List.Lex
import Mathlib.Tactic.Common

/-!
# Decimal numbers in text order

Numbers padded with zeros to a width, compared as texts. The order is that of the
numbers among texts of one length; a power of ten that is wider than the padding comes
before the number below it.
-/

namespace Semcast.DecimalOrder

/-- The digits of a number, with zeros in front up to a width. -/
def pad (width n : Nat) : List Char :=
  (Nat.toDigits 10 n).leftpad width '0'

theorem ofDigitChars_pad (width n : Nat) : Nat.ofDigitChars 10 (pad width n) 0 = n := by
  unfold pad List.leftpad
  rw [Nat.ofDigitChars_append, Nat.ofDigitChars_replicate_zero, Nat.mul_zero]
  exact Nat.ofDigitChars_ten_toDigits

theorem isDigit_of_mem_pad {width n : Nat} {c : Char} (member : c ∈ pad width n) : c.isDigit := by
  rcases List.mem_append.mp member with zero | digit
  · rw [List.eq_of_mem_replicate zero]
    decide
  · exact Nat.isDigit_of_mem_toDigits (by decide) (by decide) digit

theorem length_pad (width n : Nat) :
    (pad width n).length = max width (Nat.toDigits 10 n).length :=
  List.length_leftpad

/-! ## Texts of one length -/

theorem value_le {c : Char} (digit : c.isDigit) : c.toNat - 48 ≤ 9 := by
  have bounds := Char.isDigit_iff_toNat.mp digit
  simp only [Char.reduceToNat] at bounds
  omega

theorem lt_of_value_lt {c c' : Char} (before : c.toNat - 48 < c'.toNat - 48) : c < c' := by
  rw [Char.lt_def, UInt32.lt_iff_toNat_lt]
  show c.toNat < c'.toNat
  omega

theorem eq_of_value_eq {c c' : Char} (digit : c.isDigit) (digit' : c'.isDigit)
    (same : c.toNat - 48 = c'.toNat - 48) : c = c' := by
  have bounds := Char.isDigit_iff_toNat.mp digit
  have bounds' := Char.isDigit_iff_toNat.mp digit'
  simp only [Char.reduceToNat] at bounds bounds'
  apply Char.toNat_inj.mp
  omega

theorem ofDigitChars_cons_zero (c : Char) (rest : List Char) :
    Nat.ofDigitChars 10 (c :: rest) 0 =
      10 ^ rest.length * (c.toNat - 48) + Nat.ofDigitChars 10 rest 0 := by
  rw [Nat.ofDigitChars_cons, Nat.ofDigitChars_eq_ofDigitChars_zero, Nat.mul_zero, Nat.zero_add]
  rfl

theorem ofDigitChars_lt {digits : List Char} (all : ∀ c ∈ digits, c.isDigit) :
    Nat.ofDigitChars 10 digits 0 < 10 ^ digits.length := by
  induction digits with
  | nil => simp [Nat.ofDigitChars]
  | cons c rest ih =>
    obtain ⟨digit, others⟩ := List.forall_mem_cons.mp all
    have below := ih others
    have scaled := Nat.mul_le_mul_left (10 ^ rest.length) (value_le digit)
    rw [ofDigitChars_cons_zero, List.length_cons, Nat.pow_succ]
    omega

theorem lt_of_ofDigitChars_lt {digits digits' : List Char} (all : ∀ c ∈ digits, c.isDigit)
    (all' : ∀ c ∈ digits', c.isDigit) (lengths : digits.length = digits'.length)
    (before : Nat.ofDigitChars 10 digits 0 < Nat.ofDigitChars 10 digits' 0) :
    digits < digits' := by
  induction digits generalizing digits' with
  | nil =>
    rw [List.eq_nil_of_length_eq_zero lengths.symm] at before
    omega
  | cons c rest ih =>
    cases digits' with
    | nil => cases lengths
    | cons c' rest' =>
      obtain ⟨digit, others⟩ := List.forall_mem_cons.mp all
      obtain ⟨digit', others'⟩ := List.forall_mem_cons.mp all'
      have same : rest.length = rest'.length := Nat.succ.inj lengths
      rw [ofDigitChars_cons_zero, ofDigitChars_cons_zero, same] at before
      have below' := ofDigitChars_lt others'
      rcases Nat.lt_trichotomy (c.toNat - 48) (c'.toNat - 48) with less | equal | more
      · exact List.cons_lt_cons_iff.mpr (Or.inl (lt_of_value_lt less))
      · obtain rfl := eq_of_value_eq digit digit' equal
        apply List.cons_lt_cons_self.mpr
        exact ih others others' same (by omega)
      · -- A larger first digit outweighs all that follow.
        have scaled := Nat.mul_le_mul_left (10 ^ rest'.length) (Nat.succ_le_of_lt more)
        rw [Nat.mul_succ] at scaled
        omega

theorem pad_lt_pad_of_length {width m n : Nat} (before : m < n)
    (lengths : (pad width m).length = (pad width n).length) : pad width m < pad width n := by
  apply lt_of_ofDigitChars_lt
  · exact fun _ => isDigit_of_mem_pad
  · exact fun _ => isDigit_of_mem_pad
  · exact lengths
  · rwa [ofDigitChars_pad, ofDigitChars_pad]

/-- Between two powers of ten the order is that of the numbers. -/
theorem pad_lt_pad {width m n : Nat} (positive : 0 < width) (before : m < n)
    (whole : ∀ k, width ≤ k → ¬ (m < 10 ^ k ∧ 10 ^ k ≤ n)) : pad width m < pad width n := by
  apply pad_lt_pad_of_length before
  have nonempty : 0 < (Nat.toDigits 10 m).length := Nat.length_toDigits_pos
  have nonempty' : 0 < (Nat.toDigits 10 n).length := Nat.length_toDigits_pos
  have more : (Nat.toDigits 10 m).length ≤ (Nat.toDigits 10 n).length := by
    have fits := (Nat.length_toDigits_le_iff (by decide) nonempty').mp (Nat.le_refl _)
    exact (Nat.length_toDigits_le_iff (by decide) nonempty').mpr (Nat.lt_trans before fits)
  have room : 0 < max width (Nat.toDigits 10 m).length := by omega
  have below := (Nat.length_toDigits_le_iff (by decide) room).mp (Nat.le_max_right _ _)
  have close : n < 10 ^ max width (Nat.toDigits 10 m).length := by
    have := whole _ (Nat.le_max_left width (Nat.toDigits 10 m).length)
    omega
  have less := (Nat.length_toDigits_le_iff (by decide) room).mpr close
  rw [length_pad, length_pad]
  omega

/-! ## Powers of ten -/

theorem toDigits_pow (k : Nat) : Nat.toDigits 10 (10 ^ k) = '1' :: List.replicate k '0' := by
  induction k with
  | zero => rfl
  | succ k ih =>
    have positive : 0 < 10 ^ k := Nat.pow_pos (by decide)
    have split : 10 ^ (k + 1) = 10 * 10 ^ k + 0 := by rw [Nat.pow_succ, Nat.mul_comm, Nat.add_zero]
    rw [split, ← Nat.toDigits_append_toDigits (by decide) positive (by decide), ih,
      List.replicate_succ']
    rfl

theorem toDigits_pow_sub_one (k : Nat) :
    Nat.toDigits 10 (10 ^ (k + 1) - 1) = List.replicate (k + 1) '9' := by
  induction k with
  | zero => rfl
  | succ k ih =>
    have large : 10 ≤ 10 ^ (k + 1) := Nat.le_self_pow (by omega) 10
    have split : 10 ^ (k + 1 + 1) - 1 = 10 * (10 ^ (k + 1) - 1) + 9 := by
      rw [Nat.pow_succ]
      omega
    rw [split, ← Nat.toDigits_append_toDigits (by decide) (by omega) (by decide), ih,
      List.replicate_succ' (n := k + 1)]
    rfl

/-- A power of ten that outgrows the padding comes before its predecessor. -/
theorem pad_pow_lt {width k : Nat} (wide : width ≤ k) (positive : 0 < k) :
    pad width (10 ^ k) < pad width (10 ^ k - 1) := by
  obtain ⟨k, rfl⟩ : ∃ j, k = j + 1 := ⟨k - 1, by omega⟩
  have power : pad width (10 ^ (k + 1)) = '1' :: List.replicate (k + 1) '0' := by
    rw [pad, List.leftpad, toDigits_pow, List.length_cons, List.length_replicate,
      Nat.sub_eq_zero_of_le (by omega)]
    rfl
  have below : pad width (10 ^ (k + 1) - 1) = '9' :: List.replicate k '9' := by
    rw [pad, List.leftpad, toDigits_pow_sub_one, List.length_replicate,
      Nat.sub_eq_zero_of_le wide]
    rfl
  rw [power, below]
  exact List.cons_lt_cons_iff.mpr (Or.inl (by decide))

end Semcast.DecimalOrder
