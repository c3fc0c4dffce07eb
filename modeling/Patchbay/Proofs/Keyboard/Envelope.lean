import Patchbay.Keyboard.Envelope
import Patchbay.Proofs.Ramp
import Patchbay.Proofs.Unrounded
/-!
# What envelopes do

Whatever course a gain was on, its points are known once a voice is opened or closed
(`Envelope.points_attack`, `Envelope.points_release`). Both begin by dropping what lies ahead, so
that all further points come after those that are left. When a voice is opened, the gain stays above
zero from then on (`Envelope.valueAt_attack_pos`), and when it is closed, the gain is zero once the
fading is over (`Envelope.valueAt_release`).
-/

namespace Patchbay

open Scalar (Exact Unrounded)

variable {α : Type} [Scalar α]

namespace Timeline

/-- Points that have been passed leave the value of the last of them. -/
theorem follow_append {t : α} {passed : List (Point α)} (h : ∀ q ∈ passed, q.time ≤ t)
    {p : Point α} (hp : p.time ≤ t) (rest : List (Point α)) (value : α) (since : Option α) :
    follow t value since (passed ++ p :: rest) = follow t p.value (some p.time) rest := by
  have hall : ∀ q ∈ passed ++ [p], q.time ≤ t :=
    List.forall_mem_append.mpr ⟨h, List.forall_mem_singleton.mpr hp⟩
  rw [List.append_cons, follow_of_passed hall, List.getLast?_concat]
  rfl

/-- Behind the last point the value is that of this point. -/
theorem valueAt_of_last [Scalar.Ordered α] {tl : Timeline α} {passed : List (Point α)} {p : Point α}
    (hpoints : tl.points = passed ++ [p]) {t : α} (hpassed : ∀ q ∈ passed, q.time ≤ p.time)
    (ht : p.time ≤ t) : tl.valueAt t = p.value := by
  have hbefore : ∀ q ∈ passed, q.time ≤ t := fun q hq =>
    Scalar.Ordered.le_trans (hpassed q hq) ht
  unfold valueAt
  rw [hpoints, follow_append hbefore ht]
  rfl

/-- Exponential ramps between values above zero stay above zero. -/
theorem follow_pos [Exact α] {points : List (Point α)}
    (h : ∀ p ∈ points, p.shape = .exponential ∧ (0.0 : α) < p.value) {value : α}
    (hvalue : (0.0 : α) < value) (t : α) (since : Option α) :
    (0.0 : α) < follow t value since points := by
  induction points generalizing value since with
  | nil => exact hvalue
  | cons p points ih =>
    obtain ⟨hshape, hp⟩ := h p List.mem_cons_self
    unfold follow
    split
    next => exact ih (fun q hq => h q (List.mem_cons_of_mem _ hq)) hp _
    next =>
      dsimp only
      split
      next => exact hvalue
      next =>
        rw [hshape]
        dsimp only [along]
        split
        next => exact hvalue
        next => exact Exact.pos_mul hvalue (Exact.pos_pow (Exact.pos_div hp hvalue) _)

/-- The course from some time on: of the points passed by then the last is above zero, and from
there exponential ramps lead on to values above zero. -/
def Sounding (now : α) (tl : Timeline α) : Prop :=
  ∃ passed p ahead, tl.points = passed ++ p :: ahead ∧
    (∀ q ∈ passed, q.time ≤ now) ∧ p.time ≤ now ∧ (0.0 : α) < p.value ∧
    ∀ q ∈ ahead, q.shape = .exponential ∧ (0.0 : α) < q.value

variable {tl : Timeline α} {now time t : α}

theorem Sounding.valueAt_pos [Exact α] (h : tl.Sounding now) (ht : now ≤ t) :
    (0.0 : α) < tl.valueAt t := by
  obtain ⟨passed, p, ahead, hpoints, hpassed, hp, hvalue, hahead⟩ := h
  have hbefore : ∀ q ∈ passed, q.time ≤ t := fun q hq =>
    Scalar.Ordered.le_trans (hpassed q hq) ht
  unfold valueAt
  rw [hpoints, follow_append hbefore (Scalar.Ordered.le_trans hp ht)]
  exact follow_pos hahead hvalue t _

/-- The points before a time, which are left when a value is held then. -/
def before (tl : Timeline α) (now : α) : Timeline α :=
  { tl with points := tl.points.filter (·.time < now) }

theorem past_before [Scalar.Comparable α] (tl : Timeline α) (now : α) :
    (tl.before now).Past now := by
  intro q hq
  have hearlier : q.time < now := of_decide_eq_true (List.mem_filter.mp hq).2
  exact Scalar.Comparable.le_of_lt hearlier

/-- Holding a value leaves the points before, and after these the value. -/
theorem points_hold [Scalar.Comparable α] (tl : Timeline α) (now : α) :
    (tl.apply now (.hold now)).points =
      (tl.before now).points ++ [⟨.set, tl.valueAt now, now, now⟩] :=
  (tl.past_before now).points_insert

/-- Schedules cues one after the other. -/
def play (now : α) (cues : List (Cue α)) (tl : Timeline α) : Timeline α :=
  cues.foldl (fun tl cue => tl.apply now cue) tl

/-- The cue that schedules a point. -/
def Point.cue (p : Point α) : Cue α :=
  match p.shape with
  | .set => .set p.value p.time
  | .linear => .linear p.value p.time
  | .exponential => .exponential p.value p.time

theorem apply_cue (tl : Timeline α) (p : Point α) : tl.apply p.issued p.cue = tl.insert p := by
  obtain ⟨shape, value, time, issued⟩ := p
  cases shape <;> rfl

variable [Unrounded α]

/-- Points in the order of their times that come after all others. -/
theorem Past.points_play {start : α} (h : tl.Past start) {points : List (Point α)}
    (hissued : ∀ p ∈ points, p.issued = now)
    (horder : (start :: points.map (·.time)).IsChain (· ≤ ·)) :
    (tl.play now (points.map (·.cue))).points = tl.points ++ points := by
  induction points generalizing tl start with
  | nil => exact (List.append_nil _).symm
  | cons p points ih =>
    obtain ⟨hp, horder⟩ := List.isChain_cons_cons.mp horder
    have hinsert : (tl.apply now p.cue).points = tl.points ++ [p] := by
      rw [← hissued p List.mem_cons_self, apply_cue]
      exact (h.mono hp).points_insert
    have hpast := past_concat (h.mono hp) hinsert (Unrounded.le_refl p.time)
    rw [List.append_cons, ← hinsert]
    exact ih hpast (fun q hq => hissued q (List.mem_cons_of_mem _ hq)) horder

/-- Holding the present value, and then points that are not earlier. -/
theorem points_play_hold (tl : Timeline α) (points : List (Point α))
    (hissued : ∀ p ∈ points, p.issued = now)
    (horder : (now :: points.map (·.time)).IsChain (· ≤ ·)) :
    (tl.play now (.hold now :: points.map (·.cue))).points =
      (tl.before now).points ++ ⟨.set, tl.valueAt now, now, now⟩ :: points := by
  have hpast : (tl.apply now (.hold now)).Past now :=
    past_concat (tl.past_before now) (tl.points_hold now) (Unrounded.le_refl now)
  rw [List.append_cons, ← tl.points_hold now]
  exact hpast.points_play hissued horder

end Timeline

/-! ## Profiles -/

namespace Profile

variable [Unrounded α] {p : Profile α}

/-- The lengths of a profile without a fault are above zero. -/
theorem lengths_pos (h : p.fault? = none) : ∀ entry ∈ p.lengths, (0.0 : α) < entry.2 := by
  intro entry hentry
  have hnot : ¬entry.2 ≤ (0.0 : α) := (fault?_eq_none_iff.mp h).2.2 entry hentry
  exact Unrounded.not_le_iff.mp hnot

theorem releaseLength_pos (h : p.fault? = none) : (0.0 : α) < p.releaseLength :=
  lengths_pos h ("releaseLength", _) (by simp [lengths])

end Profile

/-! ## Envelopes -/

namespace Envelope

open Timeline (Point play)

/-- The points that the ramps through the stages lead to. -/
def stagePoints (issued start : α) : List (α × α) → List (Point α)
  | [] => []
  | (level, length) :: rest =>
    ⟨.exponential, level, start + length, issued⟩ :: stagePoints issued (start + length) rest

theorem map_cue_stagePoints (issued start : α) (l : List (α × α)) :
    (stagePoints issued start l).map (·.cue) = stages start l := by
  induction l generalizing start with
  | nil => rfl
  | cons stage rest ih => exact congrArg (_ :: ·) (ih (start + stage.2))

theorem issued_stagePoints (issued start : α) (l : List (α × α)) :
    ∀ p ∈ stagePoints issued start l, p.issued = issued := by
  induction l generalizing start with
  | nil => exact fun p hp => absurd hp List.not_mem_nil
  | cons stage rest ih => exact List.forall_mem_cons.mpr ⟨rfl, ih (start + stage.2)⟩

/-- Ramps through stages above zero lead to values above zero. -/
theorem stagePoints_pos (issued start : α) {l : List (α × α)}
    (h : ∀ stage ∈ l, (0.0 : α) < stage.1) :
    ∀ p ∈ stagePoints issued start l, p.shape = .exponential ∧ (0.0 : α) < p.value := by
  induction l generalizing start with
  | nil => exact fun p hp => absurd hp List.not_mem_nil
  | cons stage rest ih =>
    obtain ⟨hlevel, h⟩ := List.forall_mem_cons.mp h
    exact List.forall_mem_cons.mpr ⟨⟨rfl, hlevel⟩, ih (start + stage.2) h⟩

/-- The level from which a voice is opened. -/
def opening (current : α) : α := if current < silence then silence else current

/-- The levels that a voice passes through once it is opened, none of them below silence, and how
long each takes. -/
def course (profile : Profile α) : List (α × α) :=
  [(Scalar.greatest profile.attack silence, profile.attackLength),
    (Scalar.greatest profile.decay silence, profile.decayLength),
    (Scalar.greatest profile.sustain silence, profile.sustainLength),
    (silence, profile.releaseLength)]

section

variable [Unrounded α] {profile : Profile α} {now t : α}

theorem silence_pos : (0.0 : α) < silence := by
  rw [Unrounded.pos_iff, silence, Unrounded.toReal_ofScientific]
  norm_num

theorem pos_of_silence_le {level : α} (h : silence ≤ level) : (0.0 : α) < level :=
  Unrounded.pos_iff.mpr ((Unrounded.pos_iff.mp silence_pos).trans_le (Unrounded.le_iff.mp h))

theorem opening_pos (current : α) : (0.0 : α) < opening current := by
  unfold opening
  split
  next => exact silence_pos
  next h => exact pos_of_silence_le (Unrounded.not_lt_iff.mp h)

/-- The levels and the lengths of a course are above zero. -/
theorem course_pos (hprofile : profile.fault? = none) :
    ∀ stage ∈ course profile, (0.0 : α) < stage.1 ∧ (0.0 : α) < stage.2 := by
  have hlengths := Profile.lengths_pos hprofile
  simp only [Profile.lengths, List.forall_mem_cons] at hlengths
  obtain ⟨hattack, hdecay, hsustain, hrelease, -⟩ := hlengths
  have hlevel : ∀ level : α, (0.0 : α) < Scalar.greatest level silence := fun level =>
    pos_of_silence_le (Unrounded.le_greatest_right level silence)
  unfold course
  simp only [List.forall_mem_cons]
  exact ⟨⟨hlevel _, hattack⟩, ⟨hlevel _, hdecay⟩, ⟨hlevel _, hsustain⟩, ⟨silence_pos, hrelease⟩,
    List.forall_mem_nil _⟩

/-- Stages that take some time lead from one time to a later one. -/
theorem isChain_stagePoints (issued start : α) {l : List (α × α)}
    (h : ∀ stage ∈ l, (0.0 : α) < stage.2) :
    (start :: (stagePoints issued start l).map (·.time)).IsChain (· < ·) := by
  induction l generalizing start with
  | nil => exact .singleton start
  | cons stage rest ih =>
    obtain ⟨hlength, h⟩ := List.forall_mem_cons.mp h
    exact .cons_cons (Unrounded.lt_add hlength) (ih (start + stage.2) h)

/-- The points of a voice that is opened: of those passed by then the last is at the level from
which it is opened, and from there ramps lead through the levels of the profile. -/
theorem points_attack (hprofile : profile.fault? = none) (tl : Timeline α) (now : α) :
    ∃ passed, (play now (attack profile now (tl.valueAt now)) tl).points =
        passed ++ ⟨.set, opening (tl.valueAt now), now, now⟩ ::
          stagePoints now now (course profile) ∧
      ∀ q ∈ passed, q.time ≤ now := by
  have hissued := issued_stagePoints now now (course profile)
  have horder : (now :: (stagePoints now now (course profile)).map (·.time)).IsChain (· ≤ ·) :=
    (isChain_stagePoints now now fun stage hstage => (course_pos hprofile stage hstage).2).imp
      fun _ _ => Scalar.Comparable.le_of_lt
  have hstages : stages now (course profile) =
      (stagePoints now now (course profile)).map (·.cue) := (map_cue_stagePoints now now _).symm
  unfold attack opening
  rw [← course, hstages]
  split
  next =>
    have hpoints := tl.points_play_hold (⟨.set, silence, now, now⟩ :: _)
      (List.forall_mem_cons.mpr ⟨rfl, hissued⟩) (.cons_cons (Unrounded.le_refl now) horder)
    exact ⟨_, hpoints.trans (List.append_cons _ _ _), List.forall_mem_append.mpr
      ⟨tl.past_before now, List.forall_mem_singleton.mpr (Unrounded.le_refl now)⟩⟩
  next => exact ⟨_, tl.points_play_hold _ hissued horder, tl.past_before now⟩

/-- The points of a voice that is closed. When it is not yet silent, a ramp leads to silence. -/
theorem points_release (hprofile : profile.fault? = none) (tl : Timeline α) (now current : α) :
    (play now (release profile now current) tl).points =
      (tl.before now).points ++ ⟨.set, tl.valueAt now, now, now⟩ ::
        if current < silence then [⟨.set, 0.0, now, now⟩]
        else [⟨.exponential, silence, now + profile.releaseLength, now⟩,
          ⟨.set, 0.0, now + profile.releaseLength, now⟩] := by
  have hend : now ≤ now + profile.releaseLength :=
    Scalar.Comparable.le_of_lt (Unrounded.lt_add (Profile.releaseLength_pos hprofile))
  unfold release
  split
  next =>
    exact tl.points_play_hold [⟨.set, 0.0, now, now⟩] (List.forall_mem_singleton.mpr rfl)
      (.cons_cons (Unrounded.le_refl now) (.singleton now))
  next =>
    exact tl.points_play_hold [⟨.exponential, silence, now + profile.releaseLength, now⟩,
        ⟨.set, 0.0, now + profile.releaseLength, now⟩]
      (List.forall_mem_cons.mpr ⟨rfl, List.forall_mem_singleton.mpr rfl⟩)
      (.cons_cons hend (.cons_cons (Unrounded.le_refl _) (.singleton _)))

/-- A voice that is closed while it is silent has a gain of zero from then on. -/
theorem valueAt_release_of_silent (hprofile : profile.fault? = none) (tl : Timeline α) {current : α}
    (hsilent : current < silence) (ht : now ≤ t) :
    (play now (release profile now current) tl).valueAt t = (0.0 : α) := by
  have hpoints := points_release hprofile tl now current
  rw [if_pos hsilent, List.append_cons] at hpoints
  refine Timeline.valueAt_of_last hpoints (List.forall_mem_append.mpr ⟨tl.past_before now, ?_⟩) ht
  exact List.forall_mem_singleton.mpr (Unrounded.le_refl now)

/-- A voice that is closed has a gain of zero once it has faded. -/
theorem valueAt_release (hprofile : profile.fault? = none) (tl : Timeline α) (current : α)
    (ht : now + profile.releaseLength ≤ t) :
    (play now (release profile now current) tl).valueAt t = (0.0 : α) := by
  have hend : now ≤ now + profile.releaseLength :=
    Scalar.Comparable.le_of_lt (Unrounded.lt_add (Profile.releaseLength_pos hprofile))
  by_cases hsilent : current < silence
  · exact valueAt_release_of_silent hprofile tl hsilent (Scalar.Ordered.le_trans hend ht)
  · have hpoints := points_release hprofile tl now current
    rw [if_neg hsilent, List.append_cons, List.append_cons] at hpoints
    refine Timeline.valueAt_of_last hpoints ?_ ht
    refine List.forall_mem_append.mpr ⟨List.forall_mem_append.mpr ⟨?_, ?_⟩, ?_⟩
    · exact (tl.past_before now).mono hend
    · exact List.forall_mem_singleton.mpr hend
    · exact List.forall_mem_singleton.mpr (Unrounded.le_refl _)

end

/-- A voice that is opened has a gain above zero from then on. -/
theorem valueAt_attack_pos [Exact α] {profile : Profile α} {now t : α}
    (hprofile : profile.fault? = none) (tl : Timeline α) (ht : now ≤ t) :
    (0.0 : α) < (play now (attack profile now (tl.valueAt now)) tl).valueAt t := by
  obtain ⟨passed, hpoints, hpassed⟩ := points_attack hprofile tl now
  have hahead := stagePoints_pos now now fun stage hstage => (course_pos hprofile stage hstage).1
  have hopened : (play now (attack profile now (tl.valueAt now)) tl).Sounding now :=
    ⟨passed, _, _, hpoints, hpassed, Exact.le_refl now, opening_pos _, hahead⟩
  exact hopened.valueAt_pos ht

end Envelope

end Patchbay
