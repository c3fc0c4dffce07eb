import Patchbay.Proofs.Keyboard.Playing
import Patchbay.Proofs.Timeline.Bounds
/-!
# The shape of an envelope

An exponential ramp begins at the value of the point before it and stays between the values at its
ends (`Timeline.leads_exponential`). So a course of such ramps goes from corner to corner
(`Timeline.isChain_leads`), and whatever course a gain was on, an envelope takes it up where it is
and leads it through the stages of its profile without a step (`Envelope.corners_of_schedule`).
-/

namespace Patchbay

open Scalar (Unrounded PowMonotone)
open Scalar.Unrounded (toReal)

variable {α : Type} [Scalar α]

namespace Timeline

/-- The time and the value of a point. -/
def Point.corner (p : Point α) : α × α := (p.time, p.value)

variable [Unrounded α]

/-- A value goes from one corner to another: it is there at both times, and until the second it lies
between the two. -/
structure Leads (value : α → α) (a b : α × α) : Prop where
  start : toReal (value a.1) = toReal a.2
  stop : toReal (value b.1) = toReal b.2
  between : ∀ t, a.1 ≤ t → t < b.1 → toReal (value t) ∈ Set.uIcc (toReal a.2) (toReal b.2)

variable {tl : Timeline α} {passed ahead : List (Point α)} {p q : Point α}

theorem toReal_div_pos {start target : α} (hstart : (0.0 : α) < start)
    (htarget : (0.0 : α) < target) : 0 < toReal (target / start) := by
  rw [Unrounded.toReal_div]
  exact div_pos (Unrounded.pos_iff.mp htarget) (Unrounded.pos_iff.mp hstart)

/-- An exponential ramp between values above zero begins at the first. -/
theorem along_exponential_zero (hpow : PowMonotone α) {start target progress : α}
    (hstart : (0.0 : α) < start) (htarget : (0.0 : α) < target) (hzero : toReal progress = 0) :
    toReal (along .exponential start target progress) = toReal start := by
  unfold along
  dsimp only
  split
  next => rfl
  next =>
    rw [Unrounded.toReal_mul, hpow.pow_of_zero (toReal_div_pos hstart htarget) hzero, mul_one]

/-- On the way to a point whose ramp is exponential, between values above zero. -/
theorem leads_exponential (hpow : PowMonotone α) (hpoints : tl.points = passed ++ p :: q :: ahead)
    (hpassed : ∀ r ∈ passed, r.time ≤ p.time) (hp : (0.0 : α) < p.value)
    (hshape : q.shape = .exponential) (hq : (0.0 : α) < q.value) (hlong : p.time < q.time) :
    toReal (tl.valueAt p.time) = toReal p.value ∧
    ∀ t, p.time ≤ t → t < q.time →
      toReal (tl.valueAt t) ∈ Set.uIcc (toReal p.value) (toReal q.value) := by
  have hvalue {t : α} (hstart : p.time ≤ t) (hstop : t < q.time) : tl.valueAt t =
      along .exponential p.value q.value ((t - p.time) / (q.time - p.time)) := by
    have hbefore : ∀ r ∈ passed, r.time ≤ t := fun r hr =>
      Scalar.Ordered.le_trans (hpassed r hr) hstart
    unfold valueAt
    rw [hpoints, follow_append hbefore hstart, ← hshape]
    exact follow_within hstart hstop p.value ahead
  constructor
  · rw [hvalue (Unrounded.le_refl p.time) hlong]
    refine along_exponential_zero hpow hp hq ?_
    rw [Unrounded.toReal_div, Unrounded.toReal_sub, sub_self, zero_div]
  · intro t hstart hstop
    obtain ⟨-, hzero, hone⟩ := progress_mem hstart hstop
    rw [hvalue hstart hstop]
    exact along_mem hzero hone.le fun _ => hpow.pow_mem (toReal_div_pos hp hq) hzero hone.le

/-- A course of exponential ramps between values above zero goes from corner to corner, and stays at
the last. -/
theorem isChain_leads (hpow : PowMonotone α) (hpoints : tl.points = passed ++ p :: ahead)
    (hpassed : ∀ r ∈ passed, r.time ≤ p.time) (hp : (0.0 : α) < p.value)
    (hahead : ∀ q ∈ ahead, q.shape = .exponential ∧ (0.0 : α) < q.value)
    (horder : (p.time :: ahead.map (·.time)).IsChain (· < ·)) :
    toReal (tl.valueAt p.time) = toReal p.value ∧
    ((p :: ahead).map (·.corner)).IsChain (Leads tl.valueAt) ∧
    ∀ last ∈ (p :: ahead).getLast?, ∀ t, last.time ≤ t → tl.valueAt t = last.value := by
  induction ahead generalizing passed p with
  | nil =>
    have hlast {t : α} (ht : p.time ≤ t) := valueAt_of_last hpoints hpassed ht
    refine ⟨congrArg toReal (hlast (Unrounded.le_refl p.time)), .singleton _, ?_⟩
    rintro last hlast' t ht
    cases Option.mem_some.mp hlast'
    exact hlast ht
  | cons q ahead ih =>
    obtain ⟨hlong, horder⟩ := List.isChain_cons_cons.mp horder
    obtain ⟨⟨hshape, hq⟩, hahead⟩ := List.forall_mem_cons.mp hahead
    obtain ⟨hstart, hbetween⟩ := leads_exponential hpow hpoints hpassed hp hshape hq hlong
    -- when the next ramp begins, the point before it has been passed too
    have hreached : ∀ r ∈ passed ++ [p], r.time ≤ q.time := fun r hr => by
      have hle := Scalar.Comparable.le_of_lt hlong
      rcases List.mem_append.mp hr with hr | hr
      · exact Scalar.Ordered.le_trans (hpassed r hr) hle
      · rwa [List.mem_singleton.mp hr]
    obtain ⟨hstop, hrest, hlast⟩ :=
      ih (hpoints.trans (List.append_cons _ _ _)) hreached hq hahead horder
    refine ⟨hstart, .cons_cons ⟨hstart, hstop, hbetween⟩ hrest, fun last hmem => hlast last ?_⟩
    rwa [List.getLast?_cons_cons] at hmem

end Timeline

namespace Envelope

open Timeline (Leads)

variable [Unrounded α] {profile : Profile α}

/-- Whatever course a gain is on when its voice is opened or closed. A voice that is opened begins
where its gain is, or at the level of silence when it is below that. From there it goes through the
levels of the profile, none of them below silence, and stays at the level of silence once all stages
are over. A voice that is closed while it is silent is at zero from then on. Otherwise it begins
where it is, fades without falling below the level of silence, and is at zero once the fading is
over. -/
theorem corners_of_schedule (hpow : PowMonotone α) (hprofile : profile.fault? = none)
    {rack : Rack α} {gain : Dial} {tl : Timeline α} (htl : rack.timeline? gain = some tl) :
    let now := rack.clock
    let current := rack.valueNow gain
    let opened := (schedule (attack profile) rack gain).valueAt gain
    let closed := (schedule (release profile) rack gain).valueAt gain
    let attacked := now + profile.attackLength
    let decayed := attacked + profile.decayLength
    let sustained := decayed + profile.sustainLength
    let faded := sustained + profile.releaseLength
    [(now, if current < silence then silence else current),
      (attacked, Scalar.greatest profile.attack silence),
      (decayed, Scalar.greatest profile.decay silence),
      (sustained, Scalar.greatest profile.sustain silence),
      (faded, silence)].IsChain (Leads opened) ∧
    (∀ t, faded ≤ t → opened t = silence) ∧
    (current < silence → ∀ t, now ≤ t → closed t = (0.0 : α)) ∧
    (silence ≤ current → toReal (closed now) = toReal current ∧
      (∀ t, now ≤ t → t < now + profile.releaseLength → silence ≤ closed t ∧ closed t ≤ current) ∧
      ∀ t, now + profile.releaseLength ≤ t → closed t = (0.0 : α)) := by
  intro now current opened closed attacked decayed sustained faded
  have hcurrent : current = tl.valueAt now := Rack.valueAt_of_timeline? htl now
  have hopened : opened = (tl.play now (attack profile now (tl.valueAt now))).valueAt :=
    funext (Rack.valueAt_of_timeline? (timeline?_schedule htl))
  have hclosed : closed = (tl.play now (release profile now (tl.valueAt now))).valueAt :=
    funext (Rack.valueAt_of_timeline? (timeline?_schedule htl))
  rw [hopened, hclosed, hcurrent]
  obtain ⟨passed, hpoints, hpassed⟩ := points_attack hprofile tl now
  obtain ⟨-, hcorners, hlast⟩ := Timeline.isChain_leads hpow hpoints hpassed (opening_pos _)
    (stagePoints_pos now now fun stage hstage => (course_pos hprofile stage hstage).1)
    (isChain_stagePoints now now fun stage hstage => (course_pos hprofile stage hstage).2)
  refine ⟨hcorners, hlast _ rfl, fun hsilent t ht =>
    valueAt_release_of_silent hprofile tl hsilent ht, fun hsounding => ?_⟩
  have hfading := points_release hprofile tl now (tl.valueAt now)
  have hloud : ¬tl.valueAt now < silence := Unrounded.not_lt_iff.mpr hsounding
  rw [if_neg hloud] at hfading
  obtain ⟨hstart, hbetween⟩ := Timeline.leads_exponential hpow hfading (tl.past_before now)
    (pos_of_silence_le hsounding) rfl silence_pos
    (Unrounded.lt_add (Profile.releaseLength_pos hprofile))
  refine ⟨hstart, fun t hbegun hfaded => ?_, fun t ht => valueAt_release hprofile tl _ ht⟩
  have hmem := hbetween t hbegun hfaded
  rw [Set.uIcc_of_ge (Unrounded.le_iff.mp hsounding)] at hmem
  exact ⟨Unrounded.le_iff.mpr hmem.1, Unrounded.le_iff.mpr hmem.2⟩

/-- A gain that is open, and was to be set to another level later. -/
noncomputable def awaiting : Rack Reals :=
  ((Rack.new 48000.0).add (.gain 1.0)).schedule ⟨0, .gain⟩ (.set 0.5 2.0)

theorem corners_of_awaiting :
    let opened := (schedule (attack .standard) awaiting ⟨0, .gain⟩).valueAt ⟨0, .gain⟩
    let closed := (schedule (release .standard) awaiting ⟨0, .gain⟩).valueAt ⟨0, .gain⟩
    opened 0.0 = (1.0 : Reals) ∧ (∀ t, (4.15 : Reals) ≤ t → opened t = silence) ∧
    closed 0.0 = (1.0 : Reals) ∧ ∀ t, (1.0 : Reals) ≤ t → closed t = (0.0 : Reals) := by
  intro opened closed
  have htl : awaiting.timeline? ⟨0, .gain⟩ = some ⟨1.0, [⟨.set, 0.5, 2.0, 0.0⟩]⟩ := rfl
  obtain ⟨hcorners, hfaded, -, hclosed⟩ :=
    corners_of_schedule Scalar.Exact.powMonotone Profile.fault?_standard htl
  have hcurrent : awaiting.valueNow ⟨0, .gain⟩ = (1.0 : Reals) := by
    refine (Rack.valueAt_of_timeline? htl _).trans ?_
    refine (if_neg ?_).trans (ite_self _)
    exact show ¬(2.0 : ℝ) ≤ 0.0 by norm_num
  have hloud : silence ≤ (1.0 : Reals) := show (1e-5 : ℝ) ≤ 1.0 by norm_num
  rw [hcurrent] at hcorners hclosed
  rw [if_neg (Unrounded.not_lt_iff.mpr hloud)] at hcorners
  obtain ⟨hstart, -, hsilent⟩ := hclosed hloud
  refine ⟨(List.isChain_cons_cons.mp hcorners).1.start, fun t ht => hfaded t ?_, hstart,
    fun t ht => hsilent t ?_⟩
  · refine Scalar.Ordered.le_trans ?_ ht
    exact show (0.0 + 0.05 + 0.1 + 3.0 + 1.0 : ℝ) ≤ 4.15 by norm_num
  · refine Scalar.Ordered.le_trans ?_ ht
    exact show (0.0 + 1.0 : ℝ) ≤ 1.0 by norm_num

end Envelope

end Patchbay
