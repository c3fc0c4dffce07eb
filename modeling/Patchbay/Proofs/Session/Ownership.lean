import Patchbay.Proofs.Patch.Frame
import Patchbay.Proofs.Session.Current
import Patchbay.Proofs.Session.Playing
/-!
# Who owns the primitives

Nothing leaks and nothing is released too early. At any time the primitives that are not released
are the two of the master chain, those of the patch that sounds and those of a patch that has been
built and waits to be installed, each of them owned once (`Observed.unreleased_owned`).

The invariant (`Owned`) names the owners in the order in which their primitives were created. A
rebuild that fails leaves nothing behind, one that succeeds adds an owner, and the primitives of
that owner come into the place of what sounded once that has been discarded.
-/

namespace Patchbay

variable {α : Type}

/-- Dropping the middle one of three lists that have nothing in common. -/
theorem filter_notMem_of_nodup {l m r : List PrimitiveId} (h : (l ++ m ++ r).Nodup) :
    (l ++ m ++ r).filter (· ∉ m) = l ++ r := by
  obtain ⟨hlm, -, hr⟩ := List.nodup_append.mp h
  obtain ⟨-, -, hl⟩ := List.nodup_append.mp hlm
  rw [List.filter_append, List.filter_append]
  have hleft : l.filter (· ∉ m) = l := by
    refine List.filter_eq_self.mpr fun i hi => decide_eq_true fun him => ?_
    exact hl i hi i him rfl
  have hmiddle : m.filter (· ∉ m) = [] := by
    refine List.filter_eq_nil_iff.mpr fun i hi => ?_
    simp [hi]
  have hright : r.filter (· ∉ m) = r := by
    refine List.filter_eq_self.mpr fun i hi => decide_eq_true fun him => ?_
    exact hr i (List.mem_append_right l him) i hi rfl
  rw [hleft, hmiddle, hright, List.append_nil]

theorem Mixer.unreleased_new [Scalar α] {rack : Rack α} {level : α} {noise : Noise.Source α}
    {m : Mixer α} (h : Mixer.new rack level noise = .ok m) :
    m.rack.unreleased = rack.unreleased ++ [m.master, m.compressor] := by
  obtain ⟨⟨master, rack₁⟩, hmaster, h⟩ := bind_eq_ok.mp h
  obtain ⟨⟨compressor, rack₂⟩, hcompressor, h⟩ := bind_eq_ok.mp h
  cases h
  obtain ⟨-, rfl, rfl⟩ := Rack.create_eq_ok.mp hmaster
  obtain ⟨-, rfl, rfl⟩ := Rack.create_eq_ok.mp hcompressor
  -- patching the two into each other releases nothing
  have hpatched : ∀ (rack : Rack α) (a b : PrimitiveId) (i j : Inlet),
      rack.Played (fun _ => True) ((rack.connect a i).connect b j) := fun rack a b i j =>
    (Rack.Played.connect rack trivial i).trans (.connect _ trivial j)
  rw [(hpatched _ _ _ _ _).unreleased_eq, Rack.unreleased_add, Rack.unreleased_add,
    List.append_assoc]
  rfl

theorem Mixer.compressor_fadeOut [Scalar α] (m : Mixer α) (ramp : α) :
    (m.fadeOut ramp).2.compressor = m.compressor := by
  unfold fadeOut
  split <;> rfl

namespace Session

/-! ## Owners -/

/-- The primitives of what sounds. -/
def liveIds (s : Session α) : List PrimitiveId :=
  match s.live with
  | some patch => patch.ids
  | none => []

/-- The primitives of the patch that a rebuild has built and not yet installed. -/
def Stage.ids : Stage α → List PrimitiveId
  | .discard staged | .install staged => staged.patch.ids
  | .start _ | .finish _ => []

/-- The primitives of a patch that waits to be installed. -/
def stagedIds (s : Session α) : List PrimitiveId :=
  match s.pass with
  | some pass => pass.stage.ids
  | none => []

/-- Everything that is owned: the master chain, what sounds, and what waits. -/
def ownedIds (s : Session α) : List PrimitiveId :=
  [s.mixer.master, s.mixer.compressor] ++ s.liveIds ++ s.stagedIds

theorem liveIds_eq_of_some {s : Session α} {patch : Patch α} (h : s.live = some patch) :
    s.liveIds = patch.ids := by
  unfold liveIds
  rw [h]

theorem liveIds_eq_of_none {s : Session α} (h : s.live = none) : s.liveIds = [] := by
  unfold liveIds
  rw [h]

theorem stagedIds_eq_of_some {s : Session α} {pass : Pass α} (h : s.pass = some pass) :
    s.stagedIds = pass.stage.ids := by
  unfold stagedIds
  rw [h]

theorem stagedIds_eq_of_none {s : Session α} (h : s.pass = none) : s.stagedIds = [] := by
  unfold stagedIds
  rw [h]

/-- Exactly what is owned is not released, and nothing sounds while a patch is about to be
installed. -/
structure Owned (s : Session α) : Prop where
  unreleased : s.mixer.rack.unreleased = s.ownedIds
  silent : ∀ pass staged, s.pass = some pass → pass.stage = .install staged → s.live = none

namespace Owned

variable {s s' : Session α}

/-- What is owned does not depend on anything but the rack, what sounds and what waits. -/
theorem of_same (h : Owned s) (hrack : s'.mixer.rack.unreleased = s.mixer.rack.unreleased)
    (hmaster : s'.mixer.master = s.mixer.master)
    (hcompressor : s'.mixer.compressor = s.mixer.compressor) (hlive : s'.live = s.live)
    (hpass : s'.pass = s.pass) : Owned s' := by
  refine ⟨?_, fun pass staged hsome hstage => ?_⟩
  · rw [hrack, h.unreleased]
    unfold ownedIds liveIds stagedIds
    rw [hmaster, hcompressor, hlive, hpass]
  · rw [hlive]
    exact h.silent pass staged (hpass ▸ hsome) hstage

/-- Each primitive has one owner. -/
theorem nodup (h : Owned s) : s.ownedIds.Nodup := h.unreleased ▸ s.mixer.rack.nodup_unreleased

/-- What waits is what the stage has to install. -/
theorem eq_of_pass (h : Owned s) {pass : Pass α} (hpass : s.pass = some pass) :
    s.mixer.rack.unreleased =
      [s.mixer.master, s.mixer.compressor] ++ s.liveIds ++ pass.stage.ids := by
  rw [h.unreleased, ownedIds, stagedIds_eq_of_some hpass]

/-- When no rebuild is running nothing waits. -/
theorem eq_of_no_pass (h : Owned s) (hpass : s.pass = none) :
    s.mixer.rack.unreleased = [s.mixer.master, s.mixer.compressor] ++ s.liveIds := by
  rw [h.unreleased, ownedIds, stagedIds_eq_of_none hpass, List.append_nil]

/-- The patch that waited is what sounds. -/
theorem install (h : Owned s) {pass : Pass α} (hpass : s.pass = some pass) {staged : Staged α}
    (hstage : pass.stage = .install staged) {summary : Summary} {delay : Nat} :
    Owned ((s.install staged).next pass (.start summary) delay) := by
  refine ⟨?_, fun pass' staged' hsome hstage' => by cases hsome; cases hstage'⟩
  have hlive : s.liveIds = [] := liveIds_eq_of_none (h.silent pass staged hpass hstage)
  have howned := h.eq_of_pass hpass
  rw [hstage, hlive, List.append_nil] at howned
  show s.mixer.rack.unreleased = [s.mixer.master, s.mixer.compressor] ++ staged.patch.ids ++ []
  rw [howned, List.append_nil]
  rfl

variable [Scalar α]

theorem new {rack : Rack α} {settings : Settings} (hrack : rack.primitives = #[])
    (h : Session.new rack settings = .ok s) : Owned s := by
  obtain ⟨mixer, hmixer, h⟩ := bind_eq_ok.mp h
  cases h
  refine ⟨?_, fun pass staged hpass => by cases hpass⟩
  have hempty : rack.unreleased = [] := by
    unfold Rack.unreleased
    rw [hrack]
    rfl
  show mixer.rack.unreleased = [mixer.master, mixer.compressor] ++ [] ++ []
  rw [Mixer.unreleased_new hmixer, hempty, List.nil_append, List.append_nil, List.append_nil]

theorem call (h : Owned s) {c : Call α} (hc : c.Spares) : Owned (s.call c) := by
  have hplays : Plays (fun _ => True) s (s.call c) :=
    plays_call ⟨fun _ _ => trivial, fun _ _ _ _ _ _ => trivial⟩ hc
  have hcourse := sameCourse_call s c
  refine h.of_same hplays.rack.unreleased_eq ?_ ?_ hcourse.live hcourse.pass
  · rw [hplays.mixer]
  · rw [hplays.mixer]

/-- A rebuild that fails leaves nothing behind; one that succeeds owns all that it added. -/
theorem begin (h : Owned s) (hpass : s.pass = none) : Owned s.begin := by
  have hbuilt : (s.mixer.build s.graph .empty).2.1.rack.unreleased =
      [s.mixer.master, s.mixer.compressor] ++ s.liveIds ++
        Graph.builtIds (s.mixer.build s.graph .empty).1 := by
    rw [← h.eq_of_no_pass hpass]
    exact Graph.unreleased_build
  rcases s.begin_cases with ⟨fault, hfault, hbegin⟩ | ⟨patch, hpatch, hbegin⟩
  · rw [hfault] at hbuilt
    rw [hbegin]
    exact ⟨hbuilt, fun pass staged hnone => by cases hnone⟩
  · rw [hpatch] at hbuilt
    rw [hbegin]
    refine ⟨?_, fun pass staged hsome hstage => by cases hsome; cases hstage⟩
    have hfaded : Rack.Played (fun _ => True) (s.mixer.build s.graph .empty).2.1.rack
        ((s.mixer.build s.graph .empty).2.1.fadeOut (seconds s.settings.fade)).2.rack :=
      Mixer.played_fadeOut trivial (fun _ _ => trivial) _
    show Rack.unreleased (Mixer.fadeOut _ _).2.rack =
      [(Mixer.fadeOut _ _).2.master, (Mixer.fadeOut _ _).2.compressor] ++ s.liveIds ++ patch.ids
    rw [hfaded.unreleased_eq, hbuilt, Mixer.master_fadeOut, Mixer.compressor_fadeOut]
    rfl

omit [Scalar α] in
/-- What sounded is released, and nothing else. -/
theorem discard (h : Owned s) {pass : Pass α} (hpass : s.pass = some pass) {staged : Staged α}
    (hstage : pass.stage = .discard staged) {delay : Nat} :
    Owned (s.discardLive.next pass (.install staged) delay) := by
  have howned := h.eq_of_pass hpass
  rw [hstage] at howned
  have hnodup := s.mixer.rack.nodup_unreleased
  unfold discardLive
  cases hlive : s.live with
  | none =>
    refine ⟨?_, fun _ _ _ _ => hlive⟩
    rw [liveIds_eq_of_none hlive] at howned
    have hnone : (s.next pass (.install staged) delay).liveIds = [] := liveIds_eq_of_none hlive
    show s.mixer.rack.unreleased =
      [s.mixer.master, s.mixer.compressor] ++ liveIds _ ++ staged.patch.ids
    rw [howned, hnone]
    rfl
  | some old =>
    refine ⟨?_, fun _ _ _ _ => rfl⟩
    rw [liveIds_eq_of_some hlive] at howned
    rw [howned] at hnodup
    show (s.mixer.rack.releaseAll old.ids).unreleased =
      [s.mixer.master, s.mixer.compressor] ++ [] ++ staged.patch.ids
    rw [Rack.unreleased_releaseAll, howned, filter_notMem_of_nodup hnodup, List.append_nil]
    rfl

theorem proceed (h : Owned s) {pass : Pass α} (hpass : s.pass = some pass) :
    Owned (s.proceed pass) := by
  have howned := h.eq_of_pass hpass
  unfold Session.proceed
  split
  next staged hstage => exact h.discard hpass hstage
  next staged hstage => exact h.install hpass hstage
  next summary hstage =>
    -- the sources are started and the master gain is opened
    refine ⟨?_, fun pass' staged' hsome hstage' => by cases hsome; cases hstage'⟩
    have hfaded : Rack.Played (fun _ => True) s.mixer.rack
        (s.mixer.fadeIn (seconds s.settings.fade)).rack :=
      Mixer.played_fadeIn trivial (fun _ _ => trivial) _
    show (s.mixer.fadeIn (seconds s.settings.fade)).rack.unreleased =
      [s.mixer.master, s.mixer.compressor] ++ s.liveIds ++ []
    rw [hfaded.unreleased_eq, howned, hstage]
    rfl
  next summary hstage =>
    refine ⟨?_, fun pass' staged' hnone => by cases hnone⟩
    show s.mixer.rack.unreleased = [s.mixer.master, s.mixer.compressor] ++ s.liveIds ++ []
    rw [howned, hstage]
    rfl

end Owned

/-! ## Histories -/

variable [Scalar α] {o : Observed α}

theorem Observed.Undisturbed.owned (h : o.Undisturbed) : Owned o.session := by
  refine h.induction (fun rack settings s hrack hnew => .new hrack hnew)
    (fun s c hc hs => hs.call hc) (fun s hpass hs => hs.begin hpass) fun s pass hpass hs => ?_
  have htime : Owned { s with time := pass.due } := hs.of_same rfl rfl rfl rfl rfl
  exact htime.proceed hpass

/-- At any time in any history in which nobody else works on the primitives: what is not released
are the two primitives of the master chain, those of the patch that sounds, and those of a patch
that a rebuild has built and not yet installed, and none of these is among them twice. When no
rebuild is running or asked for, it is the master chain and what sounds. -/
theorem Observed.unreleased_owned (h : o.Undisturbed) :
    o.session.mixer.rack.unreleased =
      [o.session.mixer.master, o.session.mixer.compressor] ++ o.session.liveIds ++
        o.session.stagedIds ∧
    ([o.session.mixer.master, o.session.mixer.compressor] ++ o.session.liveIds ++
      o.session.stagedIds).Nodup ∧
    (o.session.scheduler.state = .idle → o.session.mixer.rack.unreleased =
      [o.session.mixer.master, o.session.mixer.compressor] ++ o.session.liveIds) := by
  have howned := h.owned
  refine ⟨howned.unreleased, howned.nodup, fun hidle => ?_⟩
  exact howned.eq_of_no_pass (h.reachable.current.idle hidle)

/-- A tone is played; a second output cannot be built while gains are refused, and waits to be
installed once they are not. -/
def refusedOnce (s : Session Float) : Observed Float :=
  Observed.run ⟨s, none, false⟩ <|
    [.call (.addNode .oscillator), .call (.addNode .audioOutput),
      .call (.connect ⟨"n1", "signal", "n2", "signal"⟩)] ++ List.replicate 10 .checkpoint ++
    [.call (.changeRack (·.advanceBy 1.0)), .call (.changeRack (·.refuse .gain)),
      .call (.addNode .universalOutput), .checkpoint, .call (.changeRack (·.accept .gain)),
      .call .requestRebuild, .checkpoint]

theorem undisturbed_refusedOnce {s : Session Float}
    (h : Session.new (Rack.new 48000.0) {} = .ok s) : (refusedOnce s).Undisturbed := by
  refine ⟨Rack.new 48000.0, {}, s, _, rfl, h, ?_, rfl⟩
  refine List.forall_mem_append.mpr
    ⟨List.forall_mem_append.mpr ⟨?_, Event.spares_checkpoints 10⟩, ?_⟩
  · simp [Event.Spares, Call.Spares]
  · simp only [List.forall_mem_cons]
    exact ⟨Call.spares_advanceBy 1.0, Call.spares_refuse .gain, trivial, trivial,
      Call.spares_accept .gain, trivial, trivial, List.forall_mem_nil _⟩

theorem owned_refusedOnce : ∃ s, Session.new (Rack.new 48000.0) {} = .ok s ∧
    (refusedOnce s).Undisturbed ∧
    (refusedOnce s).session.mixer.rack.primitives.size = 9 ∧
    (refusedOnce s).session.mixer.rack.unreleased = [0, 1] ++ [3] ++ [5, 6, 7, 8] := by
  refine ⟨_, rfl, undisturbed_refusedOnce rfl, by decide +kernel, ?_⟩
  rw [(Observed.unreleased_owned (undisturbed_refusedOnce rfl)).1]
  decide +kernel

end Session

end Patchbay
