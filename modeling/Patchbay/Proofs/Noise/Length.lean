import Patchbay.Proofs.Number.Counting
import Patchbay.Proofs.Patch.Buffers
import Patchbay.Proofs.Program.Buffers
import Patchbay.Proofs.Program.Preamble
import Patchbay.Proofs.Settings.Bounds
import Patchbay.Session.Basic
/-!
# Lengths of noise

The length of a noise buffer is the product of its seconds and the sample rate as a whole number.
Building drops the fraction of the product, and a generated program rounds it. So the program asks
for one frame more when the fraction is half or more (`Settings.frames_of_accepted`).

Accepted seconds have no upper bound. A buffer that is built has a length that is cut off at the
greatest word when the product comes near to `2 ^ 64`, and takes more bytes than a signed word
counts when it comes near to `2 ^ 61` (`Settings.length_of_accepted`).
-/

namespace Patchbay

open Program Script

namespace Settings

variable {s : Settings}

/-- The product of the seconds and the rate, without rounding. -/
noncomputable def exactLength (s : Settings) : ℝ := Reals.ofFloat s.noiseSeconds * s.sampleRate

theorem exactLength_eq {m : Nat} {q : Int} {hpos : 0 < m}
    (hseconds : s.noiseSeconds.toModel.unpack = .finite .positive m q hpos) :
    s.exactLength = m * 2 ^ q * s.sampleRate := by
  rw [exactLength, Reals.ofFloat, hseconds, Reals.ofUnpacked]

theorem noiseSeconds_pos (h : s.Accepted) : (0.0 : Reals) < Scalar.ofFloat s.noiseSeconds := by
  obtain ⟨m, q, hpos, hseconds⟩ :=
    Binary64.exists_unpack_of_pos h.noiseSeconds.1 h.noiseSeconds.2
  refine Scalar.Exact.pos_iff.mpr ?_
  show 0 < Reals.ofFloat s.noiseSeconds
  rw [Reals.ofFloat, hseconds]
  show (0 : ℝ) < m * 2 ^ q
  positivity

/-- Seconds above zero are taken as they are. -/
theorem length_noise {α : Type} [Scalar α] [Scalar.Comparable α]
    (h : (0.0 : α) < Scalar.ofFloat s.noiseSeconds) (rate : α) :
    s.noise.length rate = Scalar.toCount (Scalar.ofFloat s.noiseSeconds * rate) := by
  rw [Noise.Source.length, noise, Scalar.Comparable.greatest_of_lt h]

theorem exactLength_nonneg (h : s.Accepted) : 0 ≤ s.exactLength :=
  mul_nonneg (Scalar.Exact.pos_iff.mp (noiseSeconds_pos h)).le (Nat.cast_nonneg _)

/-! ## Without rounding -/

/-- A page at the rate of some settings that computes without rounding. Of two whole numbers that
are equally near it takes the greater. -/
noncomputable def exactPage (s : Settings) : Page Reals where
  sampleRate := Scalar.ofNat s.sampleRate
  round (x : ℝ) := (round x : ℝ)

theorem toReal_product (s : Settings) : Scalar.Exact.toReal
    (Scalar.ofFloat s.noiseSeconds * s.exactPage.sampleRate : Reals) = s.exactLength := by
  rw [Scalar.Exact.toReal_mul, exactPage, Scalar.Exact.toReal_ofNat]
  rfl

theorem length_exact (h : s.Accepted) :
    (s.noise : Noise.Source Reals).length s.exactPage.sampleRate = ⌊s.exactLength⌋₊ := by
  rw [length_noise (noiseSeconds_pos h), ← toReal_product]
  rfl

/-- The nearest whole number is the one below, or the next if that is as near. -/
theorem round_of_nonneg {x : ℝ} (hx : 0 ≤ x) :
    round x = ((⌊x⌋₊ + if 1 / 2 ≤ Int.fract x then 1 else 0 : Nat) : Int) := by
  have hfloor : ((⌊x⌋₊ : Nat) : ℝ) = ⌊x⌋ := by
    rw [← Int.natCast_floor_eq_floor hx]
    rfl
  have hfract := Int.self_sub_floor x
  have hlow := Int.fract_nonneg x
  have hhigh := Int.fract_lt_one x
  rw [round_eq, Int.floor_eq_iff]
  split
  next hhalf =>
    push_cast
    rw [hfloor]
    constructor <;> linarith
  next hless =>
    push_cast
    rw [hfloor]
    constructor <;> linarith

theorem round_product (h : s.Accepted) :
    s.exactPage.round (Scalar.ofFloat s.noiseSeconds * s.exactPage.sampleRate) =
      Scalar.ofNat (⌊s.exactLength⌋₊ + if 1 / 2 ≤ Int.fract s.exactLength then 1 else 0) := by
  show (round (Scalar.Exact.toReal (Scalar.ofFloat s.noiseSeconds * s.exactPage.sampleRate)) : ℝ) =
    Scalar.Exact.toReal (Scalar.ofNat _ : Reals)
  rw [toReal_product, round_of_nonneg (exactLength_nonneg h), Scalar.Exact.toReal_ofNat,
    Int.cast_natCast]

/-- Without rounding, the buffers that accepted settings lead to have as many samples as the exact
length has whole ones, and a generated program asks for one frame more if the rest is half or more.
-/
theorem frames_of_accepted (h : s.fault? = none) (g : Graph Reals) :
    let samples := ⌊s.exactLength⌋₊
    let frames := samples + if 1 / 2 ≤ Int.fract s.exactLength then 1 else 0
    let options : Options Reals := Session.programOptions s
    (∀ values (site : Site Reals), site.noise = s.noise → site.sampleRate = s.exactPage.sampleRate →
      ∃ buffer, (Kind.blueprint ⟨.noise, values⟩ site).map (·.steps) =
        .ok [.create (.bufferSource buffer true)] ∧ buffer.size = samples) ∧
    (∀ master (rack : Rack Reals) voicing, rack.sampleRate = s.exactPage.sampleRate →
      (g.build master s.noise rack voicing).rack.Fits rack.primitives.size samples) ∧
    sentIn "createBuffer" (ofGraph g options).flatten =
      .replicate (g.nodes.countP (·.kind = .noise)) (bufferArguments options.noiseSeconds) ∧
    ∀ stage : Stage Reals, stage.scope "ctx" = some .context → stage.scope "Math" = some .math →
      evalAll s.exactPage (bufferArguments options.noiseSeconds) stage =
        some ([.number 1.0, .number (Scalar.ofNat frames), .number s.exactPage.sampleRate],
          stage) := by
  have haccepted := fault?_eq_none_iff.mp h
  intro samples frames options
  refine ⟨fun values site hnoise hrate => ?_, fun master rack voicing hrate => ?_,
    sentIn_createBuffer g options, fun stage hctx hmath => ?_⟩
  · obtain ⟨buffer, hsteps, hsize⟩ := Kind.exists_blueprint_noise values site
    rw [hnoise, hrate, length_exact haccepted] at hsize
    exact ⟨buffer, hsteps, hsize⟩
  · have hfits := g.fits_build master s.noise rack voicing
    rwa [hrate, length_exact haccepted] at hfits
  · rw [evalAll_bufferArguments _ hctx hmath]
    have hround : s.exactPage.round (options.noiseSeconds * s.exactPage.sampleRate) =
        Scalar.ofNat frames := round_product haccepted
    rw [hround]

/-- Settings with which the noise takes two and a half samples. -/
def halfSample : Settings := { noiseSeconds := 0.000244140625, sampleRate := 10240 }

theorem exactLength_halfSample : halfSample.exactLength = 5 / 2 := by
  have hseconds : halfSample.noiseSeconds.toModel.unpack =
      .finite .positive (2 ^ 52) (-64) (by decide) :=
    Binary64.unpack_eq_of_ofFloat (by decide) _
  rw [exactLength_eq hseconds]
  norm_num [halfSample]

/-- A buffer of two samples is built, and behind the preamble the program asks for three frames. -/
theorem frames_halfSample :
    let page := halfSample.exactPage
    let site : Site Reals := ⟨2, 0, page.sampleRate, halfSample.noise, 0, fun _ => []⟩
    let stage := (Stage.start page).after (preambleWork (Session.programOptions halfSample))
    halfSample.fault? = none ∧
    (∃ buffer, (Kind.blueprint ⟨.noise, []⟩ site).map (·.steps) =
      .ok [.create (.bufferSource buffer true)] ∧ buffer.size = 2) ∧
    evalAll page (bufferArguments (Scalar.ofFloat 0.000244140625)) stage =
      some ([.number 1.0, .number (Scalar.ofNat 3), .number page.sampleRate], stage) := by
  intro page site stage
  have hnone : halfSample.fault? = none := by decide
  have hbegun := begun_preamble page (Session.programOptions halfSample)
  obtain ⟨hsamples, -, -, hframes⟩ := frames_of_accepted hnone .empty
  have hfloor : ⌊halfSample.exactLength⌋₊ = 2 := by
    rw [exactLength_halfSample]
    norm_num
  have hhalf : 1 / 2 ≤ Int.fract halfSample.exactLength := by
    rw [exactLength_halfSample]
    norm_num [Int.fract]
  rw [hfloor] at hsamples hframes
  rw [if_pos hhalf] at hframes
  exact ⟨hnone, hsamples [] site rfl rfl, hframes stage hbegun.ctx hbegun.math⟩

/-! ## In binary64 -/

/-- Both factors of the length as they are stored, the rate with a full mantissa. -/
theorem exists_factors (h : s.Accepted) : ∃ m q, ∃ hpos : 0 < m, ∃ n c, ∃ hn : 0 < n,
    s.noiseSeconds.toModel.unpack = .finite .positive m q hpos ∧
      (Float.ofNat s.sampleRate).toModel.unpack = .finite .positive n c hn ∧ n.log2 = 52 ∧
      s.exactLength = ((m * 2 ^ q * (n * 2 ^ c) : ℚ) : ℝ) := by
  obtain ⟨m, q, hpos, hseconds⟩ :=
    Binary64.exists_unpack_of_pos h.noiseSeconds.1 h.noiseSeconds.2
  obtain ⟨hlow, hhigh⟩ := h.sampleRate
  have hrate : 0 < s.sampleRate := by omega
  have hfew : s.sampleRate.log2 < 18 := (Nat.log2_lt hrate.ne').mpr (by omega)
  refine ⟨m, q, hpos, _, _, _, hseconds, Binary64.unpack_ofNat hrate (by omega), ?_, ?_⟩
  · rw [Rounding.log2_mul_two_pow hrate.ne']
    omega
  · obtain ⟨j, hj⟩ : ∃ j : Nat, s.sampleRate.log2 + j = 52 := ⟨52 - s.sampleRate.log2, by omega⟩
    have hexponent : (s.sampleRate.log2 : Int) - 52 = -(j : Int) := by omega
    rw [exactLength_eq hseconds, hexponent, show 52 - s.sampleRate.log2 = j by omega, zpow_neg,
      zpow_natCast]
    push_cast
    field_simp

/-- The buffers that accepted settings lead to when they are built have a length that is cut off
when the exact length rounds to `2 ^ 64`. Their samples of four bytes each are as many bytes as a
signed word counts, unless the exact length rounds to `2 ^ 61`. -/
theorem length_of_accepted (h : s.fault? = none) (g : Graph Float) :
    let length := (s.noise : Noise.Source Float).length (Float.ofNat s.sampleRate)
    (∀ values (site : Site Float), site.noise = s.noise →
      site.sampleRate = Float.ofNat s.sampleRate →
      ∃ buffer, (Kind.blueprint ⟨.noise, values⟩ site).map (·.steps) =
        .ok [.create (.bufferSource buffer true)] ∧ buffer.size = length) ∧
    (∀ master (rack : Rack Float) voicing, rack.sampleRate = Float.ofNat s.sampleRate →
      (g.build master s.noise rack voicing).rack.Fits rack.primitives.size length) ∧
    (length = Binary64.greatestWord ↔ 2 ^ 64 - 2 ^ 10 ≤ s.exactLength) ∧
    (4 * length ≤ 2 ^ 63 - 1 ↔ s.exactLength < 2 ^ 61 - 2 ^ 7) := by
  have haccepted := fault?_eq_none_iff.mp h
  obtain ⟨m, q, hpos, n, c, hn, hseconds, hrate, hfull, hexact⟩ := exists_factors haccepted
  have hlength : (s.noise : Noise.Source Float).length (Float.ofNat s.sampleRate) =
      Scalar.toCount (s.noiseSeconds * Float.ofNat s.sampleRate) :=
    length_noise haccepted.noiseSeconds.2 _
  intro length
  refine ⟨fun values site hnoise hrate => ?_, fun master rack voicing hrate => ?_, ?_, ?_⟩
  · obtain ⟨buffer, hsteps, hsize⟩ := Kind.exists_blueprint_noise values site
    rw [hnoise, hrate] at hsize
    exact ⟨buffer, hsteps, hsize⟩
  · have hfits := g.fits_build master s.noise rack voicing
    rwa [hrate] at hfits
  · have hcut := Binary64.toCount_mul_eq_greatest hseconds hrate hfull
    rw [← hlength] at hcut
    rw [hexact, hcut]
    exact_mod_cast Iff.rfl
  · have hreach := Binary64.two_pow_le_toCount_mul hseconds hrate hfull (k := 61) (by decide)
    rw [← hlength, show (2 : ℚ) ^ (((61 : Nat) : Int) - 54) = 2 ^ 7 by norm_num] at hreach
    -- four bytes a sample: one sample less than `2 ^ 61` still fits, as many do not
    have hbytes : 4 * length ≤ 2 ^ 63 - 1 ↔ ¬2 ^ 61 ≤ length := by omega
    rw [hbytes, hreach, hexact, not_le]
    exact_mod_cast Iff.rfl

/-- Settings with which no buffer is long enough. -/
def endless : Settings := { noiseSeconds := 1e15 }

/-- They have no fault, and the buffer would have the greatest length that is counted. -/
theorem length_endless :
    let site : Site Float := ⟨2, 0, Float.ofNat 48000, endless.noise, 0, fun _ => []⟩
    endless.fault? = none ∧
    ∃ buffer, (Kind.blueprint ⟨.noise, []⟩ site).map (·.steps) =
      .ok [.create (.bufferSource buffer true)] ∧ buffer.size = Binary64.greatestWord ∧
      ¬4 * buffer.size ≤ 2 ^ 63 - 1 := by
  intro site
  have hnone : endless.fault? = none := by decide
  have hseconds : endless.noiseSeconds.toModel.unpack =
      .finite .positive 8000000000000000 (-3) (by decide) :=
    Binary64.unpack_eq_of_ofFloat (by decide) _
  have hexact : (2 : ℝ) ^ 64 ≤ endless.exactLength := by
    rw [exactLength_eq hseconds]
    norm_num [endless]
  obtain ⟨hbuffers, -, hcut, hbytes⟩ := length_of_accepted hnone .empty
  obtain ⟨buffer, hsteps, hsize⟩ := hbuffers [] site rfl rfl
  refine ⟨hnone, buffer, hsteps, ?_, ?_⟩
  · rw [hsize, hcut]
    linarith
  · rw [hsize, hbytes, not_lt]
    linarith

end Settings

end Patchbay
