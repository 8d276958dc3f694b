import Mathlib.Logic.Function.Basic

/-!
# Mixing machine words

The steps of a bit mixer lose nothing: a word is read back from its sum and its exclusive or
with a fixed word, from its product with a unit, and from its exclusive or with itself
shifted down, bit by bit from the top.
-/

namespace Semcast.Mixing

/-- A word is known from its exclusive or with itself shifted down. -/
theorem xorShiftRight_injective {w shift : Nat} (pos : 0 < shift) :
    Function.Injective fun word : BitVec w => word ^^^ (word >>> shift) := by
  intro left right same
  -- From the top down: a bit is mixed with one that is known already.
  have bits : ∀ known index, w - index ≤ known → left.getLsbD index = right.getLsbD index := by
    intro known
    induction known with
    | zero =>
      intro index top
      rw [BitVec.getLsbD_of_ge left index (by omega), BitVec.getLsbD_of_ge right index (by omega)]
    | succ known ih =>
      intro index top
      have higher := ih (shift + index) (by omega)
      have mixed := congrArg (fun word => word.getLsbD index) same
      simp only [BitVec.getLsbD_xor, BitVec.getLsbD_ushiftRight, higher] at mixed
      exact Bool.xor_left_inj.mp mixed
  exact BitVec.eq_of_getLsbD_eq fun index _ => bits w index (by omega)

theorem xorShiftRight_uint64_injective (shift : UInt64) (pos : 0 < shift.toNat % 64) :
    Function.Injective fun word : UInt64 => word ^^^ (word >>> shift) := by
  intro left right same
  apply UInt64.toBitVec_inj.mp
  have mixed := congrArg UInt64.toBitVec same
  simp only [UInt64.toBitVec_xor, UInt64.toBitVec_shiftRight] at mixed
  exact xorShiftRight_injective pos (by simpa using mixed)

/-- A word is known from its product with a unit. -/
theorem mul_unit_injective {factor inverse : UInt64} (unit : factor * inverse = 1) :
    Function.Injective fun word : UInt64 => word * factor := by
  intro left right same
  have undone := congrArg (fun word => word * inverse) same
  simpa only [UInt64.mul_assoc, unit, UInt64.mul_one] using undone

theorem add_injective (offset : UInt64) :
    Function.Injective fun word : UInt64 => word + offset := by
  intro left right same
  simpa using same

theorem xor_injective (mask : UInt64) :
    Function.Injective fun word : UInt64 => word ^^^ mask := by
  intro left right same
  have undone := congrArg (fun word => word ^^^ mask) same
  simpa only [UInt64.xor_assoc, UInt64.xor_self, UInt64.xor_zero] using undone

end Semcast.Mixing
