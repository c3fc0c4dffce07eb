import Patchbay.Proofs.Keyboard.Envelope
/-!
# Playing voices

An envelope is scheduled on one parameter, from the course that it is on, and leaves all other
parameters alone. When voices are played one after another, a parameter is given the envelopes of
those voices whose gain it is (`Voicing.timeline?_play`).
-/

namespace Patchbay

variable {α : Type}

namespace Envelope

variable [Scalar α] {cues : α → α → List (Cue α)} {rack : Rack α} {dial : Dial}

theorem clock_foldl_schedule (l : List (Cue α)) (rack : Rack α) (dial : Dial) :
    (l.foldl (fun rack cue => rack.schedule dial cue) rack).clock = rack.clock := by
  induction l generalizing rack with
  | nil => rfl
  | cons cue l ih => exact ih (rack.schedule dial cue)

theorem timeline?_foldl_schedule (l : List (Cue α)) (rack : Rack α) (dial : Dial) :
    (l.foldl (fun rack cue => rack.schedule dial cue) rack).timeline? dial =
      (rack.timeline? dial).map (Timeline.play rack.clock l) := by
  induction l generalizing rack with
  | nil => exact Option.map_id'.symm
  | cons cue l ih =>
    rw [List.foldl_cons, ih, Rack.timeline?_schedule, Option.map_map]
    rfl

theorem timeline?_foldl_schedule_of_ne (l : List (Cue α)) (rack : Rack α) {dial other : Dial}
    (h : other ≠ dial) :
    (l.foldl (fun rack cue => rack.schedule dial cue) rack).timeline? other =
      rack.timeline? other := by
  induction l generalizing rack with
  | nil => rfl
  | cons cue l ih => rw [List.foldl_cons, ih, rack.timeline?_schedule_of_ne h]

theorem clock_schedule (cues : α → α → List (Cue α)) (rack : Rack α) (dial : Dial) :
    (schedule cues rack dial).clock = rack.clock := clock_foldl_schedule _ rack dial

theorem timeline?_schedule_of_ne {other : Dial} (h : other ≠ dial) :
    (schedule cues rack dial).timeline? other = rack.timeline? other :=
  timeline?_foldl_schedule_of_ne _ rack h

/-- A parameter is played from the course that it is on, if it is there. -/
theorem timeline?_schedule_self (cues : α → α → List (Cue α)) (rack : Rack α) (dial : Dial) :
    (schedule cues rack dial).timeline? dial = (rack.timeline? dial).map fun tl =>
      tl.play rack.clock (cues rack.clock (tl.valueAt rack.clock)) := by
  unfold schedule
  rw [timeline?_foldl_schedule]
  cases hcourse : rack.timeline? dial with
  | none => rfl
  | some tl =>
    have hvalue : rack.valueNow dial = tl.valueAt rack.clock :=
      Rack.valueAt_of_timeline? hcourse rack.clock
    rw [hvalue]
    rfl

/-- A parameter is played from the value that it has. -/
theorem timeline?_schedule {tl : Timeline α} (h : rack.timeline? dial = some tl) :
    (schedule cues rack dial).timeline? dial =
      some (tl.play rack.clock (cues rack.clock (tl.valueAt rack.clock))) := by
  rw [timeline?_schedule_self, h]
  rfl

end Envelope

namespace Voicing

variable {v : Voicing α} {key key' : Key} {voice voice' : Voice}

theorem mem_voicesOf : voice ∈ v.voicesOf key ↔ (key, voice) ∈ v.bindings := by
  simp [voicesOf]

/-- Where no two voices share a gain, those of different keys do not either. -/
theorem gain_ne (h : (v.bindings.map (·.2.gain)).Nodup) (hvoice : voice ∈ v.voicesOf key)
    (hvoice' : voice' ∈ v.voicesOf key') (hkeys : key ≠ key') : voice.gain ≠ voice'.gain := by
  intro hgain
  have hsame : ((key, voice) : Key × Voice) = (key', voice') :=
    List.inj_on_of_nodup_map h (mem_voicesOf.mp hvoice) (mem_voicesOf.mp hvoice') hgain
  exact hkeys (congrArg Prod.fst hsame)

theorem nodup_gains (h : (v.bindings.map (·.2.gain)).Nodup) (key : Key) :
    ((v.voicesOf key).map (·.gain)).Nodup := by
  have hsub : ((v.bindings.filter (·.1 == key)).map (·.2.gain)).Sublist
      (v.bindings.map (·.2.gain)) := List.filter_sublist.map _
  have hgains : (v.voicesOf key).map (·.gain) =
      (v.bindings.filter (·.1 == key)).map (·.2.gain) := by
    unfold voicesOf
    rw [List.map_map]
    rfl
  rw [hgains]
  exact h.sublist hsub

variable [Scalar α]

/-- Plays voices one after another, each with the profile that it has in the voicing. -/
def play (v : Voicing α) (cues : Profile α → α → α → List (Cue α)) (voices : List Voice)
    (rack : Rack α) : Rack α :=
  voices.foldl
    (fun rack voice => Envelope.schedule (cues (v.profileAt voice.profile)) rack voice.gain)
    rack

theorem clock_play (v : Voicing α) (cues : Profile α → α → α → List (Cue α)) (voices : List Voice)
    (rack : Rack α) : (v.play cues voices rack).clock = rack.clock := by
  induction voices generalizing rack with
  | nil => rfl
  | cons voice voices ih => exact (ih _).trans (Envelope.clock_schedule _ rack _)

/-- Every parameter is given the cues of the voices whose gain it is, one voice after another, each
from where it is then. -/
theorem timeline?_play (v : Voicing α) (cues : Profile α → α → α → List (Cue α))
    (voices : List Voice) (rack : Rack α) (dial : Dial) :
    (v.play cues voices rack).timeline? dial = (rack.timeline? dial).map fun tl =>
      (voices.filter (·.gain = dial)).foldl (fun tl voice =>
        tl.play rack.clock (cues (v.profileAt voice.profile) rack.clock (tl.valueAt rack.clock)))
        tl := by
  induction voices generalizing rack with
  | nil => exact Option.map_id'.symm
  | cons voice voices ih =>
    refine (ih _).trans ?_
    rw [Envelope.clock_schedule]
    by_cases hgain : voice.gain = dial
    · rw [← hgain, Envelope.timeline?_schedule_self, Option.map_map,
        List.filter_cons_of_pos (by simp)]
      rfl
    · rw [Envelope.timeline?_schedule_of_ne (Ne.symm hgain),
        List.filter_cons_of_neg (by simpa using hgain)]

/-- Only gains of the voices are played. -/
theorem timeline?_play_of_notMem {voices : List Voice} {dial : Dial}
    (h : dial ∉ voices.map (·.gain)) (cues : Profile α → α → α → List (Cue α)) (rack : Rack α) :
    (v.play cues voices rack).timeline? dial = rack.timeline? dial := by
  have hnone : voices.filter (·.gain = dial) = [] := List.filter_eq_nil_iff.mpr
    fun voice hvoice hgain => h (List.mem_map.mpr ⟨voice, hvoice, of_decide_eq_true hgain⟩)
  rw [timeline?_play, hnone]
  exact Option.map_id'

/-- Where no two voices share a gain, each gain is played once. -/
theorem timeline?_play_of_nodup {voices : List Voice} (h : (voices.map (·.gain)).Nodup)
    (hvoice : voice ∈ voices) (cues : Profile α → α → α → List (Cue α)) {rack : Rack α}
    {tl : Timeline α} (htl : rack.timeline? voice.gain = some tl) :
    (v.play cues voices rack).timeline? voice.gain =
      some (tl.play rack.clock
        (cues (v.profileAt voice.profile) rack.clock (tl.valueAt rack.clock))) := by
  have hone : voices.filter (·.gain = voice.gain) = [voice] := by
    obtain ⟨before, after, rfl⟩ := List.append_of_mem hvoice
    rw [List.map_append, List.map_cons, List.nodup_middle, List.nodup_cons, ← List.map_append] at h
    have hother : ∀ other ∈ before ++ after, ¬decide (other.gain = voice.gain) = true :=
      fun other hother hgain =>
        h.1 (List.mem_map.mpr ⟨other, hother, of_decide_eq_true hgain⟩)
    obtain ⟨hbefore, hafter⟩ := List.forall_mem_append.mp hother
    rw [List.filter_append, List.filter_cons_of_pos (by simp), List.filter_eq_nil_iff.mpr hbefore,
      List.filter_eq_nil_iff.mpr hafter]
    rfl
  rw [timeline?_play, hone, htl]
  rfl

end Voicing

end Patchbay
