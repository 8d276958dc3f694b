import Mathlib.Probability.CDF
import Mathlib.Probability.Distributions.Gaussian.Real
import Mathlib.Probability.Moments.Variance

/-!
# The standard normal quantile

`normalQuantile` inverts the standard normal distribution function `normalCDF`
on `(0, 1)`. The distribution function is strictly increasing and continuous, so
the inverse exists, and comparing a quantile with a number is comparing a
probability with a value of the distribution function (`normalQuantile_le_iff`).
Two crude bounds of the distribution function, by Chebyshev's inequality and by
the height of the density, are enough to place quantiles numerically.
-/

namespace Semcast.NormalQuantile

open MeasureTheory ProbabilityTheory Set Filter

/-- The standard normal distribution. -/
noncomputable abbrev standardNormal : Measure ℝ := gaussianReal 0 1

/-- The standard normal distribution function. -/
noncomputable def normalCDF (x : ℝ) : ℝ := standardNormal.real (Iic x)

/-- The inverse of the standard normal distribution function. Counterpart of `normal_quantile`
(`src/optimizer/calibrate.rs:298-349`). -/
noncomputable def normalQuantile : ℝ → ℝ := Function.invFun normalCDF

instance : NullSingletonClass standardNormal := nullSingletonClass_gaussianReal one_ne_zero

theorem normalCDF_add_Ioc {x y : ℝ} (order : x ≤ y) :
    normalCDF y = normalCDF x + standardNormal.real (Ioc x y) := by
  rw [normalCDF, normalCDF, ← Iic_union_Ioc_eq_Iic order,
    measureReal_union (Iic_disjoint_Ioc le_rfl) measurableSet_Ioc]

theorem normalCDF_strictMono : StrictMono normalCDF := by
  intro x y order
  rw [normalCDF_add_Ioc order.le]
  have volumePos : volume (Ioc x y) ≠ 0 := by
    rw [Real.volume_Ioc]
    simpa using order
  have positive : standardNormal (Ioc x y) ≠ 0 := fun zero =>
    volumePos (gaussianReal_absolutelyContinuous' 0 one_ne_zero zero)
  have realPos : 0 < standardNormal.real (Ioc x y) :=
    ENNReal.toReal_pos positive (measure_ne_top _ _)
  linarith

theorem normalCDF_eq_cdf : normalCDF = cdf standardNormal := by
  funext x
  rw [normalCDF, cdf_eq_real]

theorem normalCDF_continuous : Continuous normalCDF := by
  rw [continuous_iff_continuousAt]
  intro x
  rw [normalCDF_eq_cdf]
  have jump := (cdf standardNormal).measure_singleton x
  rw [measure_cdf, measure_singleton, eq_comm, ENNReal.ofReal_eq_zero] at jump
  have left : Function.leftLim (cdf standardNormal) x = cdf standardNormal x :=
    le_antisymm ((monotone_cdf _).leftLim_le le_rfl) (by linarith)
  rw [(monotone_cdf _).continuousAt_iff_leftLim_eq_rightLim, left,
    (cdf standardNormal).rightLim_eq]

theorem exists_normalCDF_eq {p : ℝ} (pos : 0 < p) (lt_one : p < 1) :
    ∃ x, normalCDF x = p := by
  have low := tendsto_cdf_atBot standardNormal
  have high := tendsto_cdf_atTop standardNormal
  rw [← normalCDF_eq_cdf] at low high
  obtain ⟨a, below⟩ := (low.eventually (gt_mem_nhds pos)).exists
  obtain ⟨b, above⟩ := (high.eventually (lt_mem_nhds lt_one)).exists
  exact mem_range_of_exists_le_of_exists_ge normalCDF_continuous ⟨a, below.le⟩ ⟨b, above.le⟩

/-- `normalQuantile` is the inverse of the distribution function. -/
theorem normalCDF_normalQuantile {p : ℝ} (pos : 0 < p) (lt_one : p < 1) :
    normalCDF (normalQuantile p) = p :=
  Function.invFun_eq (exists_normalCDF_eq pos lt_one)

theorem normalQuantile_le_iff {p x : ℝ} (pos : 0 < p) (lt_one : p < 1) :
    normalQuantile p ≤ x ↔ p ≤ normalCDF x := by
  rw [← normalCDF_strictMono.le_iff_le, normalCDF_normalQuantile pos lt_one]

theorem le_normalQuantile_iff {p x : ℝ} (pos : 0 < p) (lt_one : p < 1) :
    x ≤ normalQuantile p ↔ normalCDF x ≤ p := by
  rw [← normalCDF_strictMono.le_iff_le, normalCDF_normalQuantile pos lt_one]

/-- The distribution is symmetric and has no atom at zero. -/
theorem normalCDF_zero : normalCDF 0 = 1 / 2 := by
  have symmetric : standardNormal.real (Iic 0) = standardNormal.real (Ioi 0) := by
    have mapped : standardNormal.map (fun x => -x) = standardNormal := by
      simpa using gaussianReal_map_neg (μ := 0) (v := 1)
    have closed : standardNormal.real (Iic 0) = standardNormal.real (Ici 0) := by
      conv_lhs => rw [← mapped]
      rw [map_measureReal_apply measurable_neg measurableSet_Iic]
      congr 1
      ext x
      simp
    rw [closed, Measure.real, Measure.real, Ioi_ae_eq_Ici.measure_eq]
  have total : standardNormal.real (Iic 0) + standardNormal.real (Ioi 0) = 1 := by
    rw [← measureReal_union (Iic_disjoint_Ioi le_rfl) measurableSet_Ioi, Iic_union_Ioi,
      probReal_univ]
  rw [normalCDF]
  linarith

theorem normalQuantile_half : normalQuantile (1 / 2) = 0 := by
  apply normalCDF_strictMono.injective
  rw [normalCDF_normalQuantile (by norm_num) (by norm_num), normalCDF_zero]

theorem normalQuantile_nonneg {p : ℝ} (half : 1 / 2 ≤ p) (lt_one : p < 1) :
    0 ≤ normalQuantile p := by
  rw [le_normalQuantile_iff (by linarith) lt_one, normalCDF_zero]
  exact half

/-- Chebyshev's inequality bounds the upper tail. -/
theorem one_sub_inv_sq_le_normalCDF {c : ℝ} (pos : 0 < c) : 1 - 1 / c ^ 2 ≤ normalCDF c := by
  have tail := meas_ge_le_variance_div_sq (μ := standardNormal) (X := id)
    (memLp_id_gaussianReal 2) pos
  simp only [variance_id_gaussianReal, id_eq, integral_id_gaussianReal, sub_zero] at tail
  have inside : Ioi c ⊆ {x : ℝ | c ≤ |x|} := by
    intro x above
    exact (le_of_lt above).trans (le_abs_self x)
  have upper : standardNormal.real (Ioi c) ≤ 1 / c ^ 2 := by
    have bound := (measure_mono inside).trans tail
    exact ENNReal.toReal_le_of_le_ofReal (by positivity) (by simpa using bound)
  have total : standardNormal.real (Iic c) + standardNormal.real (Ioi c) = 1 := by
    rw [← measureReal_union (Iic_disjoint_Ioi le_rfl) measurableSet_Ioi, Iic_union_Ioi,
      probReal_univ]
  rw [normalCDF]
  linarith

/-- The density is at most `1 / 2`. -/
theorem gaussianPDFReal_le_half (x : ℝ) : gaussianPDFReal 0 1 x ≤ 1 / 2 := by
  have root : (2 : ℝ) ≤ √(2 * Real.pi * (1 : NNReal)) := by
    rw [Real.le_sqrt' (by norm_num)]
    have := Real.two_le_pi
    simp only [NNReal.coe_one]
    linarith
  have exponent : Real.exp (-(x - 0) ^ 2 / (2 * (1 : NNReal))) ≤ 1 := by
    rw [Real.exp_le_one_iff]
    have := sq_nonneg (x - 0)
    simp only [NNReal.coe_one]
    linarith
  calc gaussianPDFReal 0 1 x
      = (√(2 * Real.pi * (1 : NNReal)))⁻¹ * Real.exp (-(x - 0) ^ 2 / (2 * (1 : NNReal))) := rfl
    _ ≤ (2 : ℝ)⁻¹ * 1 := by gcongr
    _ = 1 / 2 := by norm_num

/-- Over an interval from zero the distribution function grows at most half as fast. -/
theorem normalCDF_le {x : ℝ} (nonneg : 0 ≤ x) : normalCDF x ≤ 1 / 2 + x / 2 := by
  rw [normalCDF_add_Ioc nonneg, normalCDF_zero]
  have area : standardNormal.real (Ioc 0 x) = ∫ y in Ioc 0 x, gaussianPDFReal 0 1 y := by
    rw [Measure.real, gaussianReal_apply_eq_integral 0 one_ne_zero,
      ENNReal.toReal_ofReal (integral_nonneg fun y => gaussianPDFReal_nonneg 0 1 y)]
  have bound : ∫ y in Ioc 0 x, gaussianPDFReal 0 1 y ≤ ∫ _ in Ioc 0 x, (1 / 2 : ℝ) := by
    refine setIntegral_mono (integrable_gaussianPDFReal 0 1).integrableOn ?_
      gaussianPDFReal_le_half
    exact integrableOn_const (by simp)
  rw [area]
  simp only [integral_const, measureReal_restrict_apply_univ, Real.volume_real_Ioc_of_le nonneg,
    smul_eq_mul] at bound
  linarith

end Semcast.NormalQuantile
