import Mathlib.Logic.Function.Iterate
import Patchbay.Noise
/-!
# States of the noise generator

A draw takes the generator from one state to the next by three steps, each of which puts a shifted
copy of the word over the word. None of them loses a bit, so the states before a draw can be told by
the states after it (`advance_injective`). Zero is the one state that a draw would never leave, and
nothing else leads to it.

Whatever the colour, a buffer is drawn from the states that come after the seed, one after another
(`trace_generate`). No colour ever comes to zero, and the states of two seeds stay apart for good,
unless both seeds stand for the same state to begin with (`draws_of_seed`).
-/

namespace Patchbay.Noise

/-! ## Bits -/

/-- The bits below the shift are those of the word, and every further one follows from a lower
one. -/
theorem eq_of_xor_shiftLeft {w k : Nat} (hk : 0 < k) {x y : BitVec w}
    (h : x ^^^ x <<< k = y ^^^ y <<< k) : x = y := by
  refine BitVec.eq_of_getLsbD_eq fun i => ?_
  induction i using Nat.strongRecOn with
  | ind i ih =>
    intro hi
    have hbit : (x ^^^ x <<< k).getLsbD i = (y ^^^ y <<< k).getLsbD i := by rw [h]
    rw [BitVec.getLsbD_xor, BitVec.getLsbD_xor, BitVec.getLsbD_shiftLeft,
      BitVec.getLsbD_shiftLeft] at hbit
    rcases Nat.lt_or_ge i k with hlow | hhigh
    · simpa [hlow] using hbit
    · rw [ih (i - k) (by omega) (by omega)] at hbit
      exact Bool.xor_left_inj.mp hbit

/-- The topmost bits are those of the word, and every further one follows from a higher one. -/
theorem eq_of_xor_shiftRight {w k : Nat} (hk : 0 < k) {x y : BitVec w}
    (h : x ^^^ x >>> k = y ^^^ y >>> k) : x = y := by
  have hbits : ∀ left i, w ≤ i + left → x.getLsbD i = y.getLsbD i := by
    intro left
    induction left with
    | zero =>
      intro i hi
      rw [BitVec.getLsbD_of_ge x i hi, BitVec.getLsbD_of_ge y i hi]
    | succ left ih =>
      intro i hi
      have hbit : (x ^^^ x >>> k).getLsbD i = (y ^^^ y >>> k).getLsbD i := by rw [h]
      rw [BitVec.getLsbD_xor, BitVec.getLsbD_xor, BitVec.getLsbD_ushiftRight,
        BitVec.getLsbD_ushiftRight, ih (k + i) (by omega)] at hbit
      exact Bool.xor_left_inj.mp hbit
  exact BitVec.eq_of_getLsbD_eq fun i _ => hbits w i (Nat.le_add_left w i)

theorem toBitVec_advance (state : UInt32) :
    (advance state).toBitVec =
      let a := state.toBitVec ^^^ state.toBitVec <<< 13
      let b := a ^^^ a >>> 17
      b ^^^ b <<< 5 := rfl

/-- No two states lead to the same one. -/
theorem advance_injective : Function.Injective advance := by
  intro s t h
  have hword := congrArg UInt32.toBitVec h
  rw [toBitVec_advance, toBitVec_advance] at hword
  have hlast := eq_of_xor_shiftLeft (by decide) hword
  have hmiddle := eq_of_xor_shiftRight (by decide) hlast
  exact UInt32.toBitVec_inj.mp (eq_of_xor_shiftLeft (by decide) hmiddle)

theorem advance_zero : advance 0 = 0 := rfl

theorem advance_ne_zero {state : UInt32} (h : state ≠ 0) : advance state ≠ 0 :=
  advance_zero ▸ advance_injective.ne h

theorem iterate_advance_ne_zero {state : UInt32} (h : state ≠ 0) (n : Nat) :
    advance^[n] state ≠ 0 := by
  induction n generalizing state with
  | zero => exact h
  | succ n ih => exact ih (advance_ne_zero h)

/-! ## Seeds -/

theorem seeded_ne_zero (seed : UInt32) : seeded seed ≠ 0 := by
  unfold seeded
  split
  next => decide
  next hseed => exact hseed

/-- Two seeds are the same state to begin with just when they are the same, or one of them is zero
and the other stands in its place. -/
theorem seeded_eq_iff {seed seed' : UInt32} : seeded seed = seeded seed' ↔
    seed = seed' ∨ seed = 0 ∧ seed' = standardSeed ∨ seed = standardSeed ∧ seed' = 0 := by
  unfold seeded
  have hstandard : standardSeed ≠ 0 := by decide
  split
  next hseed =>
    split
    next hseed' => simp [hseed, hseed']
    next hseed' => simp [hseed, hstandard.symm, eq_comm, hseed']
  next hseed =>
    split
    next hseed' => simp [hseed, hseed']
    next hseed' => simp [hseed, hseed']

/-! ## Draws -/

/-- The states after each of a number of draws. -/
def orbit (state : UInt32) (draws : Nat) : List UInt32 :=
  (List.range draws).map fun i => advance^[i + 1] state

theorem orbit_succ (state : UInt32) (draws : Nat) :
    orbit state (draws + 1) = advance state :: orbit (advance state) draws := by
  rw [orbit, List.range_succ_eq_map, List.map_cons, List.map_map]
  rfl

theorem getElem?_orbit_eq_some {state last : UInt32} {draws i : Nat} :
    (orbit state draws)[i]? = some last ↔ i < draws ∧ advance^[i + 1] state = last := by
  rw [orbit, List.getElem?_eq_some_iff]
  simp

/-- Fills a buffer as `fill` does, and lists the state that the generator is left in by each
sample. `word` finds that state among all that is kept from sample to sample. -/
def fillTraced {σ : Type} (step : σ → Float32 × σ) (word : σ → UInt32) :
    Nat → σ → Array Float32 → Array Float32 × List UInt32
  | 0, _, samples => (samples, [])
  | n + 1, state, samples =>
    let (sample, state) := step state
    let (samples, states) := fillTraced step word n state (samples.push sample)
    (samples, word state :: states)

/-- Puts impulses as `velvetImpulses` does, and lists the state that the generator is left in by
each draw: one for a place, and one for an impulse that is put there. -/
def velvetTraced : Nat → UInt32 → Array Float32 → Array Float32 × List UInt32
  | 0, _, samples => (samples, [])
  | n + 1, state, samples =>
    let placed := advance state
    let place := (unit placed * Float32.ofNat samples.size).toUInt64.toNat
    if place < samples.size then
      let struck := advance placed
      let (samples, states) :=
        velvetTraced n struck (samples.setIfInBounds place (bipolar struck))
      (samples, placed :: struck :: states)
    else
      let (samples, states) := velvetTraced n placed samples
      (samples, placed :: states)

/-- The samples of a colour, and the states that they are drawn from, draw by draw. -/
def trace (color : Color) (length : Nat) (seed : UInt32) : Array Float32 × List UInt32 :=
  let state := seeded seed
  match color with
  | .white => fillTraced whiteStep id length state #[]
  | .brown => fillTraced brownStep (·.1) length (state, 0.0) #[]
  | .pink => fillTraced pinkStep (·.1) length (state, {}) #[]
  | .blue => fillTraced blueStep (·.1) length (state, none) #[]
  | .violet => fillTraced violetStep (·.1) length (state, none) #[]
  | .grey => fillTraced greyStep (·.1) length (state, 0.0) #[]
  | .velvet => velvetTraced (length / 100) state (Array.replicate length 0.0)

/-- A step that draws once for each sample is given one state after another. -/
theorem fillTraced_eq {σ : Type} {step : σ → Float32 × σ} {word : σ → UInt32}
    (hstep : ∀ state, word (step state).2 = advance (word state)) (n : Nat) (state : σ)
    (samples : Array Float32) :
    fillTraced step word n state samples = (fill step n state samples, orbit (word state) n) := by
  induction n generalizing state samples with
  | zero => rfl
  | succ n ih =>
    rw [fillTraced, fill, orbit_succ, ← hstep]
    dsimp only
    rw [ih]

theorem word_blueStep (state : UInt32 × Option (Float32 × Float32)) :
    (blueStep state).2.1 = advance state.1 := by
  obtain ⟨state, _ | _⟩ := state <;> rfl

theorem word_violetStep (state : UInt32 × Option Float32) :
    (violetStep state).2.1 = advance state.1 := by
  obtain ⟨state, _ | _⟩ := state <;> rfl

/-- An impulse takes one draw or two. -/
theorem exists_velvetTraced_eq (n : Nat) (state : UInt32) (samples : Array Float32) :
    ∃ draws, n ≤ draws ∧ draws ≤ 2 * n ∧
      velvetTraced n state samples = (velvetImpulses n state samples, orbit state draws) := by
  induction n generalizing state samples with
  | zero => exact ⟨0, Nat.le_refl _, Nat.le_refl _, rfl⟩
  | succ n ih =>
    unfold velvetTraced velvetImpulses
    dsimp only
    split
    next =>
      obtain ⟨draws, hleast, hmost, htraced⟩ := ih (advance (advance state)) _
      refine ⟨draws + 2, by omega, by omega, ?_⟩
      rw [htraced, orbit_succ, orbit_succ]
    next =>
      obtain ⟨draws, hleast, hmost, htraced⟩ := ih (advance state) samples
      refine ⟨draws + 1, by omega, by omega, ?_⟩
      rw [htraced, orbit_succ]

/-- A buffer of any colour is drawn from the states that come after the seed, in their order. Velvet
noise takes one or two draws for an impulse, and any other colour one for each sample. -/
theorem trace_generate (color : Color) (length : Nat) (seed : UInt32) :
    ∃ draws, trace color length seed = (generate color length seed, orbit (seeded seed) draws) ∧
      if color = .velvet then length / 100 ≤ draws ∧ draws ≤ 2 * (length / 100)
      else draws = length := by
  cases color with
  | velvet =>
    obtain ⟨draws, hleast, hmost, htraced⟩ :=
      exists_velvetTraced_eq (length / 100) (seeded seed) (Array.replicate length 0.0)
    exact ⟨draws, htraced, hleast, hmost⟩
  | white => exact ⟨length, fillTraced_eq (fun _ => rfl) _ _ _, rfl⟩
  | brown => exact ⟨length, fillTraced_eq (fun _ => rfl) _ _ _, rfl⟩
  | pink => exact ⟨length, fillTraced_eq (fun _ => rfl) _ _ _, rfl⟩
  | blue => exact ⟨length, fillTraced_eq word_blueStep _ _ _, rfl⟩
  | violet => exact ⟨length, fillTraced_eq word_violetStep _ _ _, rfl⟩
  | grey => exact ⟨length, fillTraced_eq (fun _ => rfl) _ _ _, rfl⟩

/-- The states that a buffer of any colour and length is drawn from are not zero, whatever the seed.
No draw leads from two states to one, so buffers with different seeds, of whatever colours and
lengths, never share a state at the same draw, unless one of the seeds is zero and the other the one
that stands in its place. -/
theorem draws_of_seed (color : Color) (length : Nat) (seed : UInt32) :
    Function.Injective advance ∧
    (∃ draws, trace color length seed = (generate color length seed, orbit (seeded seed) draws) ∧
      if color = .velvet then length / 100 ≤ draws ∧ draws ≤ 2 * (length / 100)
      else draws = length) ∧
    (∀ state ∈ (trace color length seed).2, state ≠ 0) ∧
    (∀ n, advance^[n] (seeded seed) ≠ 0) ∧
    ∀ (color' : Color) (length' : Nat) (seed' : UInt32) (i : Nat) (state : UInt32),
      (trace color length seed).2[i]? = some state →
      (trace color' length' seed').2[i]? = some state →
      seed = seed' ∨ seed = 0 ∧ seed' = standardSeed ∨ seed = standardSeed ∧ seed' = 0 := by
  have hnever : ∀ n, advance^[n] (seeded seed) ≠ 0 :=
    iterate_advance_ne_zero (seeded_ne_zero seed)
  obtain ⟨draws, htrace, hdraws⟩ := trace_generate color length seed
  refine ⟨advance_injective, ⟨draws, htrace, hdraws⟩, fun state hstate => ?_, hnever,
    fun color' length' seed' i state hstate hstate' => ?_⟩
  · rw [htrace] at hstate
    obtain ⟨i, -, rfl⟩ := List.mem_map.mp hstate
    exact hnever (i + 1)
  · obtain ⟨draws', htrace', -⟩ := trace_generate color' length' seed'
    rw [htrace, getElem?_orbit_eq_some] at hstate
    rw [htrace', getElem?_orbit_eq_some] at hstate'
    have hsame := hstate.2.trans hstate'.2.symm
    exact seeded_eq_iff.mp (advance_injective.iterate (i + 1) hsame)

/-- After seven draws the greatest seed is not in the state of the seed zero. -/
theorem draws_of_greatest :
    (trace .velvet 500 0xffffffff).2[6]? ≠ (trace .white 7 0).2[6]? := by
  intro hsame
  have hlast : (trace .white 7 0).2[6]? = some (advance^[7] standardSeed) := by decide
  obtain ⟨-, -, -, -, hapart⟩ := draws_of_seed .velvet 500 0xffffffff
  rcases hapart .white 7 0 6 _ (hsame.trans hlast) hlast with hseed | ⟨hseed, -⟩ | ⟨hseed, -⟩
  · exact absurd hseed (by decide)
  · exact absurd hseed (by decide)
  · exact absurd hseed (by decide)

end Patchbay.Noise
