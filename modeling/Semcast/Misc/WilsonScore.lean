import Mathlib.Analysis.Real.Sqrt
import Mathlib.Tactic.Linarith
import Mathlib.Tactic.Ring
import Mathlib.Tactic.FieldSimp

/-!
# The Wilson score bound

For an observed proportion `p` and `w = z² / n`, the Wilson lower bound is the
smaller root of `(p - x)² = w x (1 - x)`: the smallest proportion a score test
with critical value `z` on `n` trials does not reject from above. The
comparison `le_wilsonLower_iff` inverts that root once; every monotonicity of
the bound is read off it.
-/

namespace Semcast.WilsonScore

/-- The lower Wilson bound of an observed proportion `p` at `w = z² / n`. -/
noncomputable def wilsonLower (p w : ℝ) : ℝ :=
  (p + w / (2 : ℕ) - √(w * (p * (1 - p)) + (w / (2 : ℕ)) ^ 2)) / (1 + w)

/-- The upper root, which a negative critical value leads to. -/
noncomputable def wilsonUpper (p w : ℝ) : ℝ :=
  (p + w / (2 : ℕ) + √(w * (p * (1 - p)) + (w / (2 : ℕ)) ^ 2)) / (1 + w)

/-- The score test accepts the proportion `t` for `p` observed at `w`, from below. -/
def ScoreAccepts (p w t : ℝ) : Prop :=
  t ≤ p ∧ w * (t * (1 - t)) ≤ (p - t) ^ 2

variable {p w t : ℝ}

/-- The discriminant identity behind the bound. -/
theorem margin_identity (p w t : ℝ) :
    (p + w / 2 - t * (1 + w)) ^ 2 - (w * (p * (1 - p)) + (w / 2) ^ 2) =
      (1 + w) * ((p - t) ^ 2 - w * (t * (1 - t))) := by
  ring

/-- `t` is at most the bound iff the slack of the centre covers the margin. -/
theorem le_wilsonLower_iff_slack (wNonneg : 0 ≤ w) :
    t ≤ wilsonLower p w ↔
      0 ≤ p + w / 2 - t * (1 + w) ∧ w * (t * (1 - t)) ≤ (p - t) ^ 2 := by
  have scale : (0 : ℝ) < 1 + w := by linarith
  have identity := margin_identity p w t
  rw [wilsonLower, Nat.cast_ofNat, le_div_iff₀ scale, le_sub_comm, Real.sqrt_le_iff]
  constructor
  · rintro ⟨slack, square⟩
    refine ⟨slack, ?_⟩
    have product : 0 ≤ (1 + w) * ((p - t) ^ 2 - w * (t * (1 - t))) := by linarith
    linarith [nonneg_of_mul_nonneg_right product scale]
  · rintro ⟨slack, accepts⟩
    refine ⟨slack, ?_⟩
    have product : 0 ≤ (1 + w) * ((p - t) ^ 2 - w * (t * (1 - t))) :=
      mul_nonneg scale.le (by linarith)
    linarith

/-- The bound clears `t` exactly when the score test accepts `t` from below. -/
theorem le_wilsonLower_iff (pNonneg : 0 ≤ p) (pLeOne : p ≤ 1) (wNonneg : 0 ≤ w)
    (tPos : 0 < t) (tLtOne : t < 1) :
    t ≤ wilsonLower p w ↔ ScoreAccepts p w t := by
  rw [le_wilsonLower_iff_slack wNonneg, ScoreAccepts]
  have variance : 0 < t * (1 - t) := mul_pos tPos (by linarith)
  constructor
  · rintro ⟨slack, accepts⟩
    refine ⟨?_, accepts⟩
    -- Below `t` the test would need `t - p ≥ w (1 - t)`, more than the slack leaves.
    by_contra above
    have gap : 0 < t - p := by linarith
    have bounded : (p - t) ^ 2 ≤ t * (t - p) := by nlinarith
    have wide : w * (1 - t) ≤ t - p := by
      have : t * (w * (1 - t)) ≤ t * (t - p) := by linarith
      exact le_of_mul_le_mul_left this tPos
    nlinarith
  · rintro ⟨above, accepts⟩
    refine ⟨?_, accepts⟩
    have bounded : (p - t) ^ 2 ≤ (1 - t) * (p - t) := by nlinarith
    have wide : w * t ≤ p - t := by
      have : (1 - t) * (w * t) ≤ (1 - t) * (p - t) := by linarith
      exact le_of_mul_le_mul_left this (by linarith)
    nlinarith

/-- Scaled by the trials, acceptance compares counts. -/
theorem scoreAccepts_div_iff {k n z : ℝ} (nPos : 0 < n) :
    ScoreAccepts (k / n) (z ^ 2 / n) t ↔
      t * n ≤ k ∧ z ^ 2 * (t * (1 - t)) * n ≤ (k - t * n) ^ 2 := by
  have square : (k / n - t) ^ 2 = (k - t * n) ^ 2 / n ^ 2 := by
    field_simp
  have scaled : z ^ 2 / n * (t * (1 - t)) = z ^ 2 * (t * (1 - t)) * n / n ^ 2 := by
    field_simp
  rw [ScoreAccepts, le_div_iff₀ nPos, square, scaled,
    div_le_div_iff_of_pos_right (by positivity)]

/-- A smaller error, more kept and fewer in all only help. -/
theorem scoreAccepts_mono {k k' n n' z z' : ℝ} (nPos : 0 < n) (nPos' : 0 < n')
    (tPos : 0 < t) (tLtOne : t < 1) (critical : z' ^ 2 ≤ z ^ 2) (more : k ≤ k') (fewer : n' ≤ n)
    (accepts : ScoreAccepts (k / n) (z ^ 2 / n) t) :
    ScoreAccepts (k' / n') (z' ^ 2 / n') t := by
  rw [scoreAccepts_div_iff nPos] at accepts
  rw [scoreAccepts_div_iff nPos']
  obtain ⟨meets, accepts⟩ := accepts
  have variance : 0 < t * (1 - t) := mul_pos tPos (by linarith)
  have smaller : t * n' ≤ t * n := mul_le_mul_of_nonneg_left fewer tPos.le
  refine ⟨by linarith, ?_⟩
  calc z' ^ 2 * (t * (1 - t)) * n'
      ≤ z ^ 2 * (t * (1 - t)) * n := by gcongr
    _ ≤ (k - t * n) ^ 2 := accepts
    _ ≤ (k' - t * n') ^ 2 := by
        apply pow_le_pow_left₀ (by linarith)
        linarith

/-! ## Against the observed proportion -/

/-- The lower bound is none above what was observed. -/
theorem wilsonLower_le (pNonneg : 0 ≤ p) (pLeOne : p ≤ 1) (wNonneg : 0 ≤ w) :
    wilsonLower p w ≤ p := by
  have scale : (0 : ℝ) < 1 + w := by linarith
  have variance : 0 ≤ p * (1 - p) := mul_nonneg pNonneg (by linarith)
  have square : (w / 2 - p * w) ^ 2 ≤ w * (p * (1 - p)) + (w / 2) ^ 2 := by
    have := mul_nonneg wNonneg variance
    have := mul_nonneg (mul_nonneg wNonneg wNonneg) variance
    linarith [show (w / 2 - p * w) ^ 2 = (w / 2) ^ 2 - w * w * (p * (1 - p)) by ring]
  have covers := (le_abs_self (w / 2 - p * w)).trans (Real.abs_le_sqrt square)
  rw [wilsonLower, Nat.cast_ofNat, div_le_iff₀ scale]
  linarith

/-- The upper root is above what was observed, unless that is everything. -/
theorem lt_wilsonUpper (pNonneg : 0 ≤ p) (pLtOne : p < 1) (wPos : 0 < w) :
    p < wilsonUpper p w := by
  have scale : (0 : ℝ) < 1 + w := by linarith
  have covers : p * w - w / 2 < √(w * (p * (1 - p)) + (w / 2) ^ 2) := by
    by_cases short : p * w - w / 2 < 0
    · exact short.trans_le (Real.sqrt_nonneg _)
    · have long : 0 ≤ p * w - w / 2 := not_lt.mp short
      have observed : 0 < p := by
        by_contra none
        have : p = 0 := le_antisymm (not_lt.mp none) pNonneg
        rw [this] at long
        linarith
      have variance : 0 < p * (1 - p) := mul_pos observed (by linarith)
      rw [Real.lt_sqrt long]
      have := mul_pos wPos variance
      have := mul_pos (mul_pos wPos wPos) variance
      linarith [show (p * w - w / 2) ^ 2 = (w / 2) ^ 2 - w * w * (p * (1 - p)) by ring]
  rw [wilsonUpper, Nat.cast_ofNat, lt_div_iff₀ scale]
  linarith

end Semcast.WilsonScore
