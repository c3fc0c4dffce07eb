import Patchbay.Noise
import Patchbay.Proofs.Number.Single
/-!
# Samples of noise

A buffer of noise has as many samples as were asked for, whatever their colour (`size_generate`).

A sample of white noise is made of one state of the generator: as a fraction of `2 ^ 32`, rounded
once (`unpack_unit_eq`), doubled and lowered by one. The topmost `2 ^ 7` states are nearer to `2 ^
32` than to the greatest sample below it, so they are rounded up to one (`unpack_unit`), and the
sample is one as well. All other samples are at least minus one and less than one (`white_sample`).
-/

namespace Patchbay.Noise

open Float.Model Float.Model.UnpackedFloat Patchbay.Rounding

/-! ## Buffers -/

theorem size_fill {σ : Type} (step : σ → Float32 × σ) (n : Nat) (state : σ)
    (samples : Array Float32) : (fill step n state samples).size = samples.size + n := by
  induction n generalizing state samples with
  | zero => rfl
  | succ n ih =>
    rw [fill, ih, Array.size_push]
    omega

theorem size_velvetImpulses (n : Nat) (state : UInt32) (samples : Array Float32) :
    (velvetImpulses n state samples).size = samples.size := by
  induction n generalizing state samples with
  | zero => rfl
  | succ n ih =>
    unfold velvetImpulses
    dsimp only
    split
    next => rw [ih, Array.size_setIfInBounds]
    next => exact ih _ _

theorem size_generate (color : Color) (length : Nat) (seed : UInt32) :
    (generate color length seed).size = length := by
  cases color
  case velvet => exact (size_velvetImpulses _ _ _).trans Array.size_replicate
  all_goals exact (size_fill _ _ _ _).trans (Nat.zero_add length)

/-- A buffer of white noise holds a sample for each state that the generator comes to. -/
theorem toList_fill_whiteStep (n : Nat) (state : UInt32) (samples : Array Float32) :
    (fill whiteStep n state samples).toList =
      samples.toList ++ (List.range n).map fun i => bipolar (advance^[i + 1] state) := by
  induction n generalizing state samples with
  | zero => simp [fill]
  | succ n ih =>
    rw [fill, whiteStep]
    dsimp only
    rw [ih, Array.toList_push, List.append_assoc, List.singleton_append, List.range_succ_eq_map,
      List.map_cons, List.map_map]
    rfl

theorem getElem?_white (length : Nat) (seed : UInt32) (i : Fin length) :
    (generate .white length seed)[i.val]? = some (bipolar (advance^[i.val + 1] (seeded seed))) := by
  rw [← Array.getElem?_toList, generate, toList_fill_whiteStep]
  simp

/-! ## Fractions -/

/-- The first of the states that are rounded up to `2 ^ 32`. -/
def firstFull : Nat := 2 ^ 32 - 2 ^ 7

variable {state : UInt32}

theorem unpack_two_pow_thirtyTwo :
    (4294967296.0 : Float32).toModel.unpack = .finite .positive (2 ^ 23) 9 (by decide) := rfl

/-- A state is rounded to a sample once, as a fraction. -/
theorem unpack_unit_eq (hstate : 0 < state.toNat) {M : Nat} {Q : Int} {hpos : 0 < M}
    (hfull : M.log2 = 23) (hlow : -55 ≤ Q) (hhigh : Q ≤ -23)
    (hround : UnpackedFloat.round .binary32 .positive state.toNat (-32) =
      .finite .positive M Q hpos) :
    (unit state).toModel.unpack = .finite .positive M Q hpos := by
  have hbound := state.toNat_lt
  have hwhole : UnpackedFloat.round .binary32 .positive state.toNat 0 =
      .finite .positive M (Q + 32) hpos :=
    round_scale .binary32 .positive hstate 32
      (show (-149 : Int) ≤ (state.toNat.log2 : Int) + 1 - (24 : Nat) + -32 by omega)
      (show (-149 : Int) ≤ (state.toNat.log2 : Int) + 1 - (24 : Nat) + -32 + 32 by omega) hround
  have hunpack : state.toFloat32.toModel.unpack = .finite .positive M (Q + 32) hpos := by
    show (Float32.Model.pack
      (UnpackedFloat.normalize .binary32 (state.toNat : Int) 0 .positive)).unpack = _
    rw [normalize_pos _ hstate, hwhole, Binary32.unpack_pack hfull (by omega) (by omega)]
  have hquotient := Binary32.unpack_div_two_pow hunpack hfull unpack_two_pow_thirtyTwo (by omega)
    (by omega)
  rwa [show Q + 32 - 9 - 23 = Q by omega] at hquotient

theorem mul_lt_one_iff {M : Nat} {Q : Int} (hlow : 2 ^ 23 ≤ M) (hhigh : M < 2 ^ 24) :
    (M : ℚ) * 2 ^ Q < 1 ↔ Q ≤ -24 := by
  have hfew : (2 : ℚ) ^ (23 : Int) ≤ M := by exact_mod_cast hlow
  have hmany : (M : ℚ) < 2 ^ (24 : Int) := by exact_mod_cast hhigh
  have hunit : (0 : ℚ) < 2 ^ Q := zpow_pos (by norm_num) Q
  constructor
  · intro hless
    have hpower : (2 : ℚ) ^ (23 + Q) < 2 ^ (0 : Int) := by
      rw [zpow_add₀ (by norm_num), zpow_zero]
      exact lt_of_le_of_lt (mul_le_mul_of_nonneg_right hfew hunit.le) hless
    have := (zpow_lt_zpow_iff_right₀ (by norm_num : (1 : ℚ) < 2)).mp hpower
    omega
  · intro hQ
    calc (M : ℚ) * 2 ^ Q < 2 ^ (24 : Int) * 2 ^ Q := mul_lt_mul_of_pos_right hmany hunit
      _ = 2 ^ (24 + Q) := (zpow_add₀ (by norm_num) _ _).symm
      _ ≤ 2 ^ (0 : Int) := zpow_le_zpow_right₀ (by norm_num) (by omega)
      _ = 1 := zpow_zero _

/-- The fraction of a state is less than one, unless the state is one of the topmost. -/
theorem unpack_unit (hstate : 0 < state.toNat) : ∃ M Q, ∃ hpos : 0 < M,
    (unit state).toModel.unpack = .finite .positive M Q hpos ∧ M.log2 = 23 ∧ -55 ≤ Q ∧
      (state.toNat < firstFull ∧ Q ≤ -24 ∨ firstFull ≤ state.toNat ∧ Q = -23 ∧ M = 2 ^ 23) := by
  have hbound := state.toNat_lt
  have hlog : state.toNat.log2 < 32 := (Nat.log2_lt hstate.ne').mpr hbound
  obtain ⟨M, Q, hpos, hround, hfull, hexponent, hbelow⟩ :=
    round_full .binary32 .positive (e := -32) hstate rfl
      (show (-149 : Int) ≤ (state.toNat.log2 : Int) + 1 - (24 : Nat) + -32 by omega)
  have hexponent' : Q = (state.toNat.log2 : Int) + 1 - (24 : Nat) + -32 ∨
    Q = (state.toNat.log2 : Int) + 1 - (24 : Nat) + -32 + 1 ∧ M = 2 ^ 23 := hexponent
  have hlog2 : M.log2 = 23 := Nat.succ_injective hfull
  have hbits : 2 ^ 23 ≤ M ∧ M < 2 ^ 24 := (Nat.log2_eq_iff hpos.ne').mp hlog2
  refine ⟨M, Q, hpos, unpack_unit_eq hstate hlog2 (by omega) (by omega) hround, hlog2, by omega, ?_⟩
  -- just below one the last place is `2 ^ (-24)`, and half of it are `2 ^ 7` states
  have hone : Q ≤ -24 ↔ state.toNat < firstFull := by
    have hscaled := hbelow 0
    rw [zpow_zero, mul_lt_one_iff hbits.1 hbits.2] at hscaled
    rw [hscaled, ← Nat.cast_lt (α := ℚ), show (firstFull : ℚ) = 4294967168 from rfl]
    show (state.toNat : ℚ) * 2 ^ (-32 : Int) < 1 - 2 ^ (-25 : Int) ↔ _
    rw [show (2 : ℚ) ^ (-32 : Int) = 1 / 4294967296 by norm_num,
      show (2 : ℚ) ^ (-25 : Int) = 1 / 33554432 by norm_num]
    constructor <;> intro h <;> linarith
  omega

/-! ## Samples -/

theorem unpack_two :
    (2.0 : Float32).toModel.unpack = .finite .positive (2 ^ 23) (-22) (by decide) :=
  rfl

theorem unpack_double {M : Nat} {Q : Int} {hpos : 0 < M}
    (hunit : (unit state).toModel.unpack = .finite .positive M Q hpos) (hfull : M.log2 = 23)
    (hlow : -55 ≤ Q) (hhigh : Q ≤ -23) :
    (unit state * 2.0).toModel.unpack = .finite .positive M (Q + 1) hpos := by
  have hproduct := Binary32.unpack_mul_two_pow hunit hfull unpack_two (by omega) (by omega)
  rwa [show Q + -22 + 23 = Q + 1 by omega] at hproduct

/-- The state zero, which the generator never comes to, would be minus one. -/
theorem bipolar_zero : bipolar 0 = -1.0 := by decide

theorem inner_bipolar (hstate : state.toNat < firstFull) :
    Binary32.Inner (bipolar state).toModel.unpack := by
  rcases Nat.eq_zero_or_pos state.toNat with hzero | hpos
  · obtain rfl : state = 0 := UInt32.toNat_inj.mp hzero
    rw [bipolar_zero, Binary32.unpack_neg_one]
    exact Or.inr ⟨rfl, rfl⟩
  · obtain ⟨M, Q, hM, hunit, hfull, hlow, hbelow⟩ := unpack_unit hpos
    have hexponent : Q ≤ -24 := by omega
    exact Binary32.inner_sub_one (unpack_double hunit hfull hlow (by omega)) hfull (by omega)
      (by omega)

theorem bipolar_eq_one (hstate : firstFull ≤ state.toNat) : bipolar state = 1.0 := by
  obtain ⟨M, Q, hM, hunit, hfull, hlow, hbelow⟩ := unpack_unit (lt_of_lt_of_le (by decide) hstate)
  obtain ⟨rfl, rfl⟩ : Q = -23 ∧ M = 2 ^ 23 := by omega
  have hdouble := unpack_double hunit hfull hlow le_rfl
  show Float32.ofModel (.pack (UnpackedFloat.sub .binary32 (unit state * 2.0).toModel.unpack
    (1.0 : Float32).toModel.unpack)) = 1.0
  rw [hdouble]
  rfl

theorem unit_lt_one_iff (state : UInt32) : unit state < 1.0 ↔ state.toNat < firstFull := by
  rcases Nat.eq_zero_or_pos state.toNat with hzero | hpos
  · obtain rfl : state = 0 := UInt32.toNat_inj.mp hzero
    exact iff_of_true (by decide) (by decide)
  · obtain ⟨M, Q, hM, hunit, hfull, hlow, hless | ⟨hmost, rfl, rfl⟩⟩ := unpack_unit hpos
    · refine iff_of_true (Binary32.lt_one ?_) hless.1
      rw [hunit]
      exact hless.2
    · refine iff_of_false ?_ hmost.not_gt
      rw [Binary32.lt_iff, hunit, Binary32.unpack_one]
      simp [UnpackedFloat.compare]

/-- The samples of white noise lie between minus one and one. A sample is one just when its state is
one of the topmost `2 ^ 7`, and so is the fraction of `2 ^ 32` that it is made of. -/
theorem white_sample (length : Nat) (seed : UInt32) (i : Fin length) :
    let state := advance^[i.val + 1] (seeded seed)
    (generate .white length seed).size = length ∧
    (generate .white length seed)[i.val]? = some (bipolar state) ∧
    -1.0 ≤ bipolar state ∧ bipolar state ≤ 1.0 ∧
    (bipolar state < 1.0 ↔ state.toNat < firstFull) ∧
    (unit state < 1.0 ↔ state.toNat < firstFull) := by
  intro state
  refine ⟨size_generate .white length seed, getElem?_white length seed i, ?_⟩
  rcases Nat.lt_or_ge state.toNat firstFull with hless | hmost
  · have hinner := inner_bipolar hless
    have hlt := Binary32.lt_one hinner
    exact ⟨Binary32.neg_one_le hinner, Binary32.le_of_lt hlt, iff_of_true hlt hless,
      unit_lt_one_iff state⟩
  · rw [bipolar_eq_one hmost]
    exact ⟨by decide, by decide, iff_of_false (by decide) hmost.not_gt, unit_lt_one_iff state⟩

/-- The first state of this seed is the topmost of all, so not every sample is below one. -/
theorem white_reaches_one : generate .white 1 1584200935 = #[1.0] ∧
    unit (advance (seeded 1584200935)) = 1.0 ∧
    ¬∀ (length : Nat) (seed : UInt32), ∀ x ∈ generate .white length seed, x < 1.0 := by
  have hreached : generate .white 1 1584200935 = #[1.0] := by decide
  refine ⟨hreached, by decide +kernel, fun hbelow => ?_⟩
  have hlt := hbelow 1 1584200935 1.0 (hreached ▸ Array.mem_singleton_self _)
  exact absurd hlt (by decide)

end Patchbay.Noise
