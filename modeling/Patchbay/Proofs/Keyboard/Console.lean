import Patchbay.Proofs.Keyboard.Pedal
import Patchbay.Proofs.Session.Automation
/-!
# Each voice once

Voicings are installed and dropped, keys go down and up, keyboards are put away and taken back, in
any order and each time on another rack. Still only keys with voices are down, and only the pedal
keeps keys that have gone up (`Console.Sound.run`). A press that opens voices opens each voice of
its key once, and whatever lets keys go closes each of their voices once; nothing else is scheduled
(`Console.played_of_run`).
-/

namespace Patchbay

variable {α : Type}

/-- What is asked of a keyboard. -/
inductive Keyboard.Call (α : Type) where
  | install (voicing : Voicing α)
  | reset
  | down (code : String) (shift : Bool)
  | up (code : String) (shift : Bool)
  | sustain (on : Bool)
  | snapshot
  | restore (index : Nat)

/-- A keyboard, and the keyboards that were put away. -/
structure Console (α : Type) where
  keyboard : Keyboard α
  kept : List (Keyboard.Snapshot α)

namespace Console

def new : Console α := ⟨.new, []⟩

variable [Scalar α]

/-- What a call makes of the keyboard when it is played on a rack. A keyboard that was never put
away is not taken back. -/
def step (c : Console α) (rack : Rack α) : Keyboard.Call α → Console α
  | .install voicing => { c with keyboard := .withVoicing voicing }
  | .reset => { c with keyboard := c.keyboard.reset }
  | .down code shift => { c with keyboard := (c.keyboard.down rack code shift).2.1 }
  | .up code shift => { c with keyboard := (c.keyboard.up rack code shift).1 }
  | .sustain on => { c with keyboard := (c.keyboard.setSustain rack on).1 }
  | .snapshot => { c with kept := c.kept ++ [c.keyboard.snapshot] }
  | .restore index => { c with keyboard := (c.kept[index]?.map c.keyboard.restore).getD c.keyboard }

/-- One call after another, each with the rack that it is played on. -/
def run (c : Console α) (calls : List (Rack α × Keyboard.Call α)) : Console α :=
  calls.foldl (fun c call => c.step call.1 call.2) c

/-! ## What is down -/

/-- On the keyboard, and on whatever takes back one that was put away, only keys with voices are
down and the pedal keeps keys only while it is down. -/
structure Sound (c : Console α) : Prop where
  backed : c.keyboard.Backed
  pedalled : c.keyboard.Pedalled
  kept : ∀ snapshot ∈ c.kept, ∀ kb : Keyboard α,
    (kb.restore snapshot).Backed ∧ (kb.restore snapshot).Pedalled

namespace Sound

variable {c : Console α}

omit [Scalar α] in
theorem new : (Console.new : Console α).Sound :=
  ⟨Keyboard.backed_withVoicing _, Keyboard.pedalled_withVoicing _,
    fun _ hkept => absurd hkept List.not_mem_nil⟩

theorem step (h : c.Sound) (rack : Rack α) (call : Keyboard.Call α) : (c.step rack call).Sound := by
  cases call with
  | install voicing =>
    exact ⟨Keyboard.backed_withVoicing voicing, Keyboard.pedalled_withVoicing voicing, h.kept⟩
  | reset => exact ⟨Keyboard.backed_withVoicing _, Keyboard.pedalled_withVoicing _, h.kept⟩
  | down code shift =>
    exact ⟨h.backed.down rack code shift, h.pedalled.down rack code shift, h.kept⟩
  | up code shift => exact ⟨h.backed.up rack code shift, h.pedalled.up rack code shift, h.kept⟩
  | sustain on =>
    exact ⟨h.backed.setSustain rack on, c.keyboard.pedalled_setSustain rack on, h.kept⟩
  | snapshot =>
    refine ⟨h.backed, h.pedalled, List.forall_mem_append.mpr ⟨h.kept, ?_⟩⟩
    refine List.forall_mem_singleton.mpr fun kb => ?_
    rw [Keyboard.restore_snapshot]
    exact ⟨h.backed, h.pedalled⟩
  | restore index =>
    -- what is taken back was put away in a good state
    have hkeyboard : (c.step rack (.restore index)).keyboard.Backed ∧
        (c.step rack (.restore index)).keyboard.Pedalled := by
      dsimp only [Console.step]
      cases hkept : c.kept[index]? with
      | none => exact ⟨h.backed, h.pedalled⟩
      | some snapshot => exact h.kept snapshot (List.mem_of_getElem? hkept) c.keyboard
    exact ⟨hkeyboard.1, hkeyboard.2, h.kept⟩

theorem run (h : c.Sound) (calls : List (Rack α × Keyboard.Call α)) : (c.run calls).Sound := by
  induction calls generalizing c with
  | nil => exact h
  | cons call calls ih => exact ih (h.step call.1 call.2)

end Sound

end Console

/-! ## What is scheduled -/

variable [Scalar α]

namespace Envelope

/-- Of the rack only primitives are changed, and of these only the courses of parameters. -/
theorem frame_schedule (cues : α → α → List (Cue α)) (rack : Rack α) (dial : Dial) :
    (schedule cues rack dial =
      { rack with primitives := (schedule cues rack dial).primitives }) ∧
    rack.Automated (schedule cues rack dial) := by
  unfold schedule
  generalize cues rack.clock (rack.valueNow dial) = l
  induction l generalizing rack with
  | nil => exact ⟨rfl, .refl rack⟩
  | cons cue l ih =>
    obtain ⟨hrest, hautomated⟩ := ih (rack.schedule dial cue)
    exact ⟨hrest, (Rack.Automated.schedule rack dial cue).trans hautomated⟩

end Envelope

/-- The voices of a list have been played, each once and with the profile that it has in the
voicing, and nothing else has happened. Every parameter has been given the cues of those voices
whose gain it is, one voice after another, each from where it was then. -/
structure Voicing.Played (v : Voicing α) (cues : Profile α → α → α → List (Cue α))
    (voices : List Voice) (rack rack' : Rack α) : Prop where
  rest : rack' = { rack with primitives := rack'.primitives }
  automated : rack.Automated rack'
  courses : ∀ dial, rack'.timeline? dial = (rack.timeline? dial).map fun tl =>
    (voices.filter (·.gain = dial)).foldl (fun tl voice =>
      tl.play rack.clock (cues (v.profileAt voice.profile) rack.clock (tl.valueAt rack.clock))) tl

namespace Voicing

variable (v : Voicing α) (cues : Profile α → α → α → List (Cue α)) (voices : List Voice)
  (rack : Rack α)

theorem frame_play :
    v.play cues voices rack = { rack with primitives := (v.play cues voices rack).primitives } ∧
    rack.Automated (v.play cues voices rack) := by
  induction voices generalizing rack with
  | nil => exact ⟨rfl, .refl rack⟩
  | cons voice voices ih =>
    obtain ⟨hfirst, hautomated⟩ :=
      Envelope.frame_schedule (cues (v.profileAt voice.profile)) rack voice.gain
    obtain ⟨hrest, hautomated'⟩ :=
      ih (Envelope.schedule (cues (v.profileAt voice.profile)) rack voice.gain)
    refine ⟨hrest.trans ?_, hautomated.trans hautomated'⟩
    exact congrArg (fun first : Rack α =>
      { first with primitives := (v.play cues (voice :: voices) rack).primitives }) hfirst

theorem played_play : v.Played cues voices rack (v.play cues voices rack) := by
  obtain ⟨hrest, hautomated⟩ := v.frame_play cues voices rack
  exact ⟨hrest, hautomated, v.timeline?_play cues voices rack⟩

end Voicing

namespace Keyboard

/-- The voices of the keys that have become idle have been closed, each once, and nothing else has
been scheduled. -/
def Releases (kb : Keyboard α) (rack : Rack α) (after : Keyboard α × Rack α) : Prop :=
  ∃ keys : List Key, keys.Nodup ∧
    (∀ key, key ∈ keys ↔ kb.states key ≠ .idle ∧ after.1.states key = .idle) ∧
    kb.voicing.Played Envelope.release (keys.flatMap kb.voicing.voicesOf) rack after.2

variable {kb : Keyboard α} {rack : Rack α}

/-- No key becomes idle, and nothing is scheduled. -/
theorem Releases.of_same {after : Keyboard α}
    (h : ∀ key, after.states key = .idle → kb.states key = .idle) :
    kb.Releases rack (after, rack) := by
  refine ⟨[], List.nodup_nil, fun key => ?_, kb.voicing.played_play Envelope.release [] rack⟩
  exact iff_of_false List.not_mem_nil fun ⟨hbefore, hafter⟩ => hbefore (h key hafter)

omit [Scalar α] in
theorem nodup_deferredKeys (kb : Keyboard α) : kb.deferredKeys.Nodup :=
  List.Nodup.filter _ (by decide)

/-- Keys that are not idle are let go. -/
theorem Releases.of_letGoAll {keys : List Key} (hkeys : keys.Nodup)
    (hdown : ∀ key ∈ keys, kb.states key ≠ .idle) (pedal : Bool) :
    kb.Releases rack ({ kb with sustaining := pedal }.letGoAll rack keys) := by
  rw [letGoAll_eq]
  refine ⟨keys, hkeys, fun key => ?_, kb.voicing.played_play Envelope.release _ rack⟩
  by_cases hkey : key ∈ keys
  · simp [hkey, hdown key hkey]
  · simp [hkey]

/-- The pedal closes the voices of the keys that only it kept, in whatever order. -/
theorem releases_sustainIn {order : List Key} (h : order.Perm kb.deferredKeys) (rack : Rack α)
    (on : Bool) : kb.Releases rack (kb.sustainIn order rack on) := by
  cases on with
  | true => exact .of_same fun _ hidle => hidle
  | false =>
    refine .of_letGoAll (h.nodup_iff.mpr kb.nodup_deferredKeys) (fun key hkey => ?_) false
    rw [mem_deferredKeys.mp (h.mem_iff.mp hkey)]
    decide

theorem releases_upIn {order : List Key} (h : order.Perm kb.deferredKeys) (rack : Rack α)
    (code : String) (shift : Bool) : kb.Releases rack (kb.upIn order rack code shift) := by
  unfold upIn
  split
  next key hkey =>
    have hheld : kb.states key = .held := of_decide_eq_true (Option.filter_eq_some_iff.mp hkey).2
    split
    next =>
      refine .of_same fun other hidle => ?_
      have hidle : (if other = key then KeyState.deferred else kb.states other) = .idle := hidle
      split at hidle
      next => cases hidle
      next => exact hidle
    next =>
      refine .of_letGoAll (List.nodup_singleton key) (fun other hother => ?_) kb.sustaining
      rw [List.mem_singleton.mp hother, hheld]
      decide
  next =>
    split
    next => exact .of_same fun _ hidle => hidle
    next => exact releases_sustainIn h rack false

/-- In whatever order the pedal lets keys go, they come to the same states. -/
theorem keyboard_sustainIn {order : List Key} (h : order.Perm kb.deferredKeys) (rack : Rack α)
    (on : Bool) : (kb.sustainIn order rack on).1 = (kb.setSustain rack on).1 := by
  rw [← sustainIn_deferredKeys]
  cases on with
  | true => rfl
  | false =>
    show (letGoAll { kb with sustaining := false } rack order).1 =
      (letGoAll { kb with sustaining := false } rack kb.deferredKeys).1
    rw [keyboard_letGoAll, keyboard_letGoAll]
    simp only [h.mem_iff]

theorem keyboard_upIn {order : List Key} (h : order.Perm kb.deferredKeys) (rack : Rack α)
    (code : String) (shift : Bool) :
    (kb.upIn order rack code shift).1 = (kb.up rack code shift).1 := by
  rw [← upIn_deferredKeys]
  unfold upIn
  cases (kb.playable? code).filter (kb.states · = .held) with
  | some key => rfl
  | none =>
    cases shift with
    | true => rfl
    | false => exact keyboard_sustainIn h rack false

/-- A press that opens voices holds the key with its code and opens each of its voices once, and no
other press schedules anything. -/
theorem presses_down (kb : Keyboard α) (rack : Rack α) (code : String) (shift : Bool) :
    ((kb.down rack code shift).1 = true → ∃ key, Key.ofCode? code = some key ∧
      (kb.down rack code shift).2.1.states key = .held ∧
      kb.voicing.Played Envelope.attack (kb.voicing.voicesOf key) rack
        (kb.down rack code shift).2.2) ∧
    ((kb.down rack code shift).1 = false → (kb.down rack code shift).2.2 = rack) := by
  unfold down
  split
  next key hkey =>
    have hplayable : kb.playable? code = some key := (Option.filter_eq_some_iff.mp hkey).1
    have hcode : Key.ofCode? code = some key := (Option.filter_eq_some_iff.mp hplayable).1
    exact ⟨fun _ => ⟨key, hcode, if_pos rfl, kb.voicing.played_play Envelope.attack _ rack⟩, nofun⟩
  next => exact ⟨nofun, fun _ => rfl⟩

end Keyboard

namespace Console

/-- A keyboard on which anything was called, any number of times and on any racks. A key is kept by
the pedal only while that is down, and every key that is not idle has a voice. A press that opens
voices holds its key and opens each of the key's voices once, and one that opens none schedules
nothing. When a key or the pedal goes up, the voices of exactly those keys that become idle are
closed, each once, and nothing else is scheduled. In whatever order the pedal lets keys go, they
come to the same states. -/
theorem played_of_run (calls : List (Rack α × Keyboard.Call α)) (rack : Rack α) :
    let kb := ((new : Console α).run calls).keyboard
    (∀ key, kb.states key = .deferred → kb.sustaining = true) ∧
    (∀ key, kb.states key ≠ .idle → kb.voicing.voicesOf key ≠ []) ∧
    (∀ code shift,
      ((kb.down rack code shift).1 = true → ∃ key, Key.ofCode? code = some key ∧
        (kb.down rack code shift).2.1.states key = .held ∧
        kb.voicing.Played Envelope.attack (kb.voicing.voicesOf key) rack
          (kb.down rack code shift).2.2) ∧
      ((kb.down rack code shift).1 = false → (kb.down rack code shift).2.2 = rack)) ∧
    ∀ order : List Key, order.Perm kb.deferredKeys →
      (∀ code shift, kb.Releases rack (kb.upIn order rack code shift) ∧
        (kb.upIn order rack code shift).1 = (kb.up rack code shift).1) ∧
      ∀ on, kb.Releases rack (kb.sustainIn order rack on) ∧
        (kb.sustainIn order rack on).1 = (kb.setSustain rack on).1 := by
  intro kb
  have hsound : ((new : Console α).run calls).Sound := Sound.new.run calls
  exact ⟨hsound.pedalled, hsound.backed, fun code shift => kb.presses_down rack code shift,
    fun order horder => ⟨fun code shift => ⟨Keyboard.releases_upIn horder rack code shift,
      Keyboard.keyboard_upIn horder rack code shift⟩, fun on =>
        ⟨Keyboard.releases_sustainIn horder rack on, Keyboard.keyboard_sustainIn horder rack on⟩⟩⟩

/-- Two gains, both of which one key opens. -/
noncomputable def pair : Rack Reals := ((Rack.new 48000.0).add (.gain 0.0)).add (.gain 0.0)

/-- The pedal keeps a key while the keyboard is put away. The key is let go and all voices are
dropped, and then the keyboard is taken back. -/
noncomputable def resumed : Console Reals :=
  new.run [(pair, .install ⟨[.standard], [(.a, ⟨⟨0, .gain⟩, 0⟩), (.a, ⟨⟨1, .gain⟩, 0⟩)]⟩),
    (pair, .down "KeyA" false), (pair, .sustain true), (pair, .up "KeyA" true), (pair, .snapshot),
    (pair, .sustain false), (pair, .reset), (pair, .restore 0)]

theorem played_of_resumed : resumed.keyboard.states .a = .deferred ∧
    resumed.keyboard.sustaining = true ∧
    resumed.keyboard.Releases pair (resumed.keyboard.upIn [.a] pair "ShiftLeft" false) := by
  obtain ⟨hpedal, -, -, hreleases⟩ := played_of_run
    [(pair, .install ⟨[.standard], [(.a, ⟨⟨0, .gain⟩, 0⟩), (.a, ⟨⟨1, .gain⟩, 0⟩)]⟩),
      (pair, .down "KeyA" false), (pair, .sustain true), (pair, .up "KeyA" true), (pair, .snapshot),
      (pair, .sustain false), (pair, .reset), (pair, .restore 0)] pair
  have hkept : resumed.keyboard.states .a = .deferred := by decide +kernel
  have hkeys : resumed.keyboard.deferredKeys = [.a] := by decide +kernel
  refine ⟨hkept, hpedal .a hkept, ((hreleases [.a] ?_).1 "ShiftLeft" false).1⟩
  exact hkeys ▸ List.Perm.refl _

end Console

end Patchbay
