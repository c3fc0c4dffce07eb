import Patchbay.Proofs.Comparison
import Patchbay.Settings
/-!
# Settings within their bounds

Settings have no fault exactly if every value lies within the bounds of its field
(`Settings.fault?_eq_none_iff`). The length of the noise is bounded on one side only: it is a
positive number. No bound lets a value in that is not finite.
-/

namespace Patchbay

/-- A finite number above zero. -/
theorem Binary64.exists_unpack_of_pos {x : Float} (hfinite : x.isFinite = true) (hx : 0.0 < x) :
    ∃ m q, ∃ hpos : 0 < m, x.toModel.unpack = .finite .positive m q hpos := by
  have hsign := lt_iff_compare.mp hx
  rw [unpack_zero] at hsign
  have hpositive := positive_of_compare_zero hsign
  change x.toModel.unpack.isFinite = true at hfinite
  cases hparts : x.toModel.unpack with
  | notANumber => rw [hparts] at hfinite; cases hfinite
  | infinity s => rw [hparts] at hfinite; cases hfinite
  | zero s => rw [hparts] at hpositive; cases hpositive
  | finite s m q hpos =>
    rw [hparts] at hpositive
    obtain rfl := Option.some.inj hpositive
    exact ⟨m, q, hpos, rfl⟩

/-- What lies between two finite numbers is finite. -/
theorem Binary64.isFinite_of_le {low x high : Float} (hlow : low.isFinite = true)
    (hhigh : high.isFinite = true) (h : low ≤ x) (h' : x ≤ high) : x.isFinite = true := by
  have hbetween {a b c : Float.Model.UnpackedFloat} (ha : a.isFinite = true)
      (hc : c.isFinite = true) (h : a.le b = true) (h' : b.le c = true) : b.isFinite = true := by
    cases b with
    | notANumber => cases c <;> cases h'
    | infinity s =>
      cases s with
      | negative =>
        cases a with
        | zero _ => cases h
        | finite _ _ _ _ => cases h
        | _ => cases ha
      | positive =>
        cases c with
        | zero _ => cases h'
        | finite _ _ _ _ => cases h'
        | _ => cases hc
    | zero s => rfl
    | finite s m q hpos => rfl
  exact hbetween hlow hhigh (le_iff.mp h) (le_iff.mp h')

/-- A number above another is the greater of the two. -/
theorem Scalar.Comparable.greatest_of_lt {α : Type} [Scalar α] [Scalar.Comparable α] {a b : α}
    (h : b < a) : greatest a b = a := by
  rw [greatest, if_pos (beq_self_of_lt h).2, if_neg (Ordered.not_lt_of_le (le_of_lt h))]

namespace Settings

/-- Every value lies within the bounds of its field. -/
structure Accepted (s : Settings) : Prop where
  fade : 0 < s.fade
  startDelay : 0 < s.startDelay
  finishDelay : 0 < s.finishDelay
  ramp : 0 < s.ramp
  masterGain : 0.0 ≤ s.masterGain ∧ s.masterGain ≤ 1.0
  noiseSeconds : s.noiseSeconds.isFinite = true ∧ 0.0 < s.noiseSeconds
  sampleRate : 8000 ≤ s.sampleRate ∧ s.sampleRate ≤ 192000

variable {s : Settings}

theorem fault?_eq_none_iff : s.fault? = none ↔ s.Accepted := by
  have htimes : ([("reconcile.fade_ms", s.fade), ("reconcile.start_delay_ms", s.startDelay),
      ("reconcile.finish_delay_ms", s.finishDelay), ("live.ramp_ms", s.ramp)].find?
        (·.2 == 0) = none) ↔ 0 < s.fade ∧ 0 < s.startDelay ∧ 0 < s.finishDelay ∧ 0 < s.ramp := by
    simp [List.find?_eq_none, Nat.pos_iff_ne_zero]
  unfold fault?
  dsimp only
  constructor
  · intro h
    split at h
    next => cases h
    next hnone =>
      obtain ⟨hfade, hstart, hfinish, hramp⟩ := htimes.mp hnone
      split at h
      next => cases h
      next hgain =>
        split at h
        next => cases h
        next hseconds =>
          split at h
          next => cases h
          next hrate =>
            simp only [Bool.not_eq_true', Bool.not_eq_false, Bool.and_eq_true,
              decide_eq_true_eq] at hgain hseconds
            exact ⟨hfade, hstart, hfinish, hramp, hgain, hseconds, by omega⟩
  · intro h
    rw [htimes.mpr ⟨h.fade, h.startDelay, h.finishDelay, h.ramp⟩]
    have hrate : ¬(s.sampleRate < 8000 ∨ 192000 < s.sampleRate) := by
      have := h.sampleRate
      omega
    simp [h.masterGain, h.noiseSeconds, hrate]

theorem Accepted.isFinite_masterGain (h : s.Accepted) : s.masterGain.isFinite = true :=
  Binary64.isFinite_of_le (by decide) (by decide) h.masterGain.1 h.masterGain.2

end Settings

end Patchbay
