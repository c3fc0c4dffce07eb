import Patchbay.Proofs.Keyboard.States
import Patchbay.Proofs.Keyboard.Voices
import Patchbay.Proofs.Session.Automation
import Patchbay.Proofs.Session.Origin
/-!
# Keys never outlive what they play

The keyboard, what sounds and the primitives change at different points of a rebuild, and keys go
down and up at any time between. Still every voice of the keyboard is the gain of a gain primitive
of what sounds, and that primitive is not released; a key that is not idle has a voice; and so a key
touches neither what has been released nor what waits to be installed (`Observed.keys_of_run`).

The invariant (`Keyed`) carries what makes this so: patches hold what they list on the rack
(`Rack.Holds`), the voices of a patch open its own gains (`Patch.Gates`), and nothing is bound to a
key from the time a rebuild has built its patch until the patch is installed.
-/

namespace Patchbay

variable {α : Type}

/-! ## Patches on a rack -/

theorem mem_numbered {first : PrimitiveId} {l : List Family} {i : Nat} {family : Family}
    (h : l[i]? = some family) : (first + i, family) ∈ numbered first l := by
  have hplace : (family, first + i) ∈ l.zipIdx first := by
    rw [List.mk_mem_zipIdx_iff_le_and_getElem?_sub, Nat.add_sub_cancel_left]
    exact ⟨Nat.le_add_right _ _, h⟩
  exact List.mem_map_of_mem (f := Prod.swap) hplace

theorem getElem?_of_mem_numbered {first : PrimitiveId} {l : List Family}
    {entry : PrimitiveId × Family} (h : entry ∈ numbered first l) :
    first ≤ entry.1 ∧ l[entry.1 - first]? = some entry.2 := by
  obtain ⟨⟨family, id⟩, hplace, rfl⟩ := List.mem_map.mp h
  exact List.mk_mem_zipIdx_iff_le_and_getElem?_sub.mp hplace

namespace Rack

theorem families_start (rack : Rack α) (id : PrimitiveId) (time : α) :
    (rack.start id time).families = rack.families :=
  rack.families_update id fun _ => rfl

theorem families_stop (rack : Rack α) (id : PrimitiveId) (time : α) :
    (rack.stop id time).families = rack.families :=
  rack.families_update id fun _ => rfl

theorem families_release (rack : Rack α) (id : PrimitiveId) :
    (rack.release id).families = rack.families :=
  rack.families_update id fun _ => rfl

/-- What a patch lists is on the rack under the family that is listed, and is not released. -/
def Holds (rack : Rack α) (patch : Patch α) : Prop :=
  ∀ entry ∈ patch.primitives,
    entry.1 ∈ rack.unreleased ∧ rack.families[entry.1]? = some entry.2

namespace Holds

variable {rack rack' : Rack α} {patch : Patch α}

theorem of_same (h : rack.Holds patch) (hreleased : rack'.unreleased = rack.unreleased)
    (hfamilies : rack'.families = rack.families) : rack'.Holds patch := by
  unfold Holds
  rw [hreleased, hfamilies]
  exact h

theorem mem_unreleased (h : rack.Holds patch) {id : PrimitiveId} (hid : id ∈ patch.ids) :
    id ∈ rack.unreleased := by
  obtain ⟨entry, hentry, rfl⟩ := List.mem_map.mp hid
  exact (h entry hentry).1

theorem lt_size (h : rack.Holds patch) {id : PrimitiveId} (hid : id ∈ patch.ids) :
    id < rack.primitives.size :=
  List.mem_range.mp (List.mem_filter.mp (h.mem_unreleased hid)).1

theorem exists_primitive? (h : rack.Holds patch) {entry : PrimitiveId × Family}
    (hentry : entry ∈ patch.primitives) :
    ∃ p, rack.primitive? entry.1 = some p ∧ p.family = entry.2 ∧ p.released = false := by
  obtain ⟨hunreleased, hfamily⟩ := h entry hentry
  have hany := (List.mem_filter.mp hunreleased).2
  rw [families, List.getElem?_map, Array.getElem?_toList] at hfamily
  obtain ⟨p, hp, hfamily⟩ := Option.map_eq_some_iff.mp hfamily
  have hp : rack.primitive? entry.1 = some p := hp
  rw [hp] at hany
  exact ⟨p, hp, hfamily, by simpa using hany⟩

/-- Releasing others leaves a patch on the rack. -/
theorem releaseAll (h : rack.Holds patch) {ids : List PrimitiveId}
    (hids : ∀ id ∈ patch.ids, id ∉ ids) : (rack.releaseAll ids).Holds patch := by
  have hfamilies : (rack.releaseAll ids).families = rack.families :=
    List.foldlRecOn (motive := fun rack' : Rack α => rack'.families = rack.families) ids _ rfl
      fun rack' hsame id _ => (rack'.families_release id).trans hsame
  intro entry hentry
  obtain ⟨hunreleased, hfamily⟩ := h entry hentry
  rw [unreleased_releaseAll, hfamilies]
  have hkept : entry.1 ∉ ids := hids entry.1 (List.mem_map_of_mem hentry)
  exact ⟨List.mem_filter.mpr ⟨hunreleased, decide_eq_true hkept⟩, hfamily⟩

end Holds

end Rack

namespace Graph

variable [Scalar α] {g : Graph α} {master : PrimitiveId} {noise : Noise.Source α} {rack : Rack α}
  {voicing : Voicing α}

theorem exists_families_build (g : Graph α) (master : PrimitiveId) (noise : Noise.Source α)
    (rack : Rack α) (voicing : Voicing α) : ∃ more,
    (g.build master noise rack voicing).rack.families = rack.families ++ more ∧
      ∀ patch, (g.build master noise rack voicing).outcome = .ok patch →
        patch.primitives = numbered rack.primitives.size more := by
  obtain ⟨added, hadded, houtcome⟩ := g.build_atomic master noise rack voicing
  refine ⟨added.map (·.family), by rw [hadded, Rack.families_append], fun patch hpatch => ?_⟩
  rw [hpatch] at houtcome
  exact houtcome.1

/-- Building leaves the patches that were there on the rack. -/
theorem holds_build {patch : Patch α} (h : rack.Holds patch) :
    (g.build master noise rack voicing).rack.Holds patch := by
  obtain ⟨more, hfamilies, -⟩ := exists_families_build g master noise rack voicing
  intro entry hentry
  obtain ⟨hunreleased, hfamily⟩ := h entry hentry
  rw [unreleased_build, hfamilies]
  refine ⟨List.mem_append_left _ hunreleased, ?_⟩
  rw [List.getElem?_append_left (List.getElem?_eq_some_iff.mp hfamily).1]
  exact hfamily

/-- The patch that was built is on the rack, all of it after what was there. -/
theorem holds_of_build {patch : Patch α}
    (h : (g.build master noise rack voicing).outcome = .ok patch) :
    (g.build master noise rack voicing).rack.Holds patch ∧
      ∀ id ∈ patch.ids, rack.primitives.size ≤ id := by
  obtain ⟨more, hfamilies, hnumbered⟩ := exists_families_build g master noise rack voicing
  have hplace : ∀ entry ∈ patch.primitives,
      rack.primitives.size ≤ entry.1 ∧ more[entry.1 - rack.primitives.size]? = some entry.2 :=
    fun entry hentry => getElem?_of_mem_numbered (hnumbered patch h ▸ hentry)
  refine ⟨fun entry hentry => ?_, fun id hid => ?_⟩
  · obtain ⟨hle, hfamily⟩ := hplace entry hentry
    rw [unreleased_build, hfamilies, h]
    refine ⟨List.mem_append_right _ (List.mem_map_of_mem hentry), ?_⟩
    rw [List.getElem?_append_right (by rwa [Rack.length_families]), Rack.length_families]
    exact hfamily
  · obtain ⟨entry, hentry, rfl⟩ := List.mem_map.mp hid
    exact (hplace entry hentry).1

end Graph

namespace Mixer

variable [Scalar α]

theorem families_fadeOut (m : Mixer α) (ramp : α) :
    (m.fadeOut ramp).2.rack.families = m.rack.families := by
  unfold fadeOut
  split
  next => rfl
  next =>
    refine List.foldlRecOn (motive := fun rack : Rack α => rack.families = m.rack.families) _ _
      (Rack.Automated.rampTo m.rack m.masterGain _ _).families_eq fun rack hsame s _ => ?_
    exact (rack.families_stop s.id _).trans hsame

theorem families_fadeIn (m : Mixer α) (ramp : α) :
    (m.fadeIn ramp).rack.families = m.rack.families := by
  refine (Rack.Automated.rampTo _ m.masterGain _ _).families_eq.trans ?_
  refine List.foldlRecOn (motive := fun rack : Rack α => rack.families = m.rack.families) _ _ rfl
    fun rack hsame s _ => ?_
  exact (rack.families_start s.id _).trans hsame

end Mixer

/-! ## Voices of a patch -/

/-- The voice opens a gain of the patch. -/
def Patch.Gates (patch : Patch α) (voice : Voice) : Prop :=
  voice.gain.param = .gain ∧ (voice.gain.primitive, Family.gain) ∈ patch.primitives

theorem Step.map_family_setups (steps : List (Step α)) :
    (setups steps).map (·.family) = families steps := by
  unfold setups families
  rw [List.map_filterMap]
  refine List.filterMap_congr fun step _ => ?_
  cases step <;> rfl

namespace Assembly

variable [Scalar α] {g : Graph α} {master : PrimitiveId} {noise : Noise.Source α}

/-- Every voice that was bound opens a gain that was made. -/
def Gated (a : Assembly α) : Prop :=
  ∀ b ∈ a.voicing.bindings, b.2.gain.param = .gain ∧ (b.2.gain.primitive, Family.gain) ∈ a.made

theorem preserves_gated (n : Node α) : Preserves Gated (buildNode g master noise n) := by
  intro a a' ha hbuild
  obtain ⟨plan, b, hplan, hrun, rfl⟩ := run_of_buildNode hbuild
  have hmade := (ran_of_run hrun).made
  intro binding hbinding
  show _ ∧ _ ∈ b.made
  rw [hmade]
  have hbinding : binding ∈ b.voicing.bindings := hbinding
  rw [(voicing_of_run hrun).2.trans (Kind.voicing_of_blueprint hplan a.voicing)] at hbinding
  rcases List.mem_append.mp hbinding with hold | hnew
  · exact ⟨(ha binding hold).1, List.mem_append_left _ (ha binding hold).2⟩
  · obtain ⟨voice, hvoice, rfl⟩ := List.mem_map.mp hnew
    have hgate : (Step.families plan.steps)[voice.2]? = some .gain := by
      rw [← Step.map_family_setups, List.getElem?_map, Kind.gate_of_blueprint hplan hvoice]
      rfl
    exact ⟨rfl, List.mem_append_right _ (mem_numbered hgate)⟩

end Assembly

/-- The voices of a graph that was built open gains of the patch. -/
theorem Graph.gates_of_build [Scalar α] {g : Graph α} {master : PrimitiveId}
    {noise : Noise.Source α} {rack : Rack α} {patch : Patch α}
    (h : (g.build master noise rack .empty).outcome = .ok patch) :
    ∀ b ∈ (g.build master noise rack .empty).voicing.bindings, patch.Gates b.2 := by
  rcases g.build_of_ends master noise rack .empty (P := Assembly.Gated)
    (fun b hb => absurd hb List.not_mem_nil) (fun _ _ => trivial)
    (fun n _ => (Assembly.preserves_gated n).ends) with ⟨a, ha, hbuild⟩ | ⟨a, -, fault, hbuild⟩
  · rw [hbuild] at h ⊢
    cases h
    exact ha
  · rw [hbuild] at h
    cases h

/-! ## The invariant -/

namespace Session

variable [Scalar α] {s : Session α}

theorem backed_call (h : s.keyboard.Backed) (c : Call α) : (s.call c).keyboard.Backed := by
  cases hedit : c.edit? with
  | some e =>
    obtain ⟨scheduler, hcall⟩ := s.call_of_edit hedit
    rw [hcall]
    exact h
  | none =>
    cases c with
    | addNode | removeNode | connect | disconnect | setControl | importDocument
    | addComment | removeComment | setCommentText => cases hedit
    | setPlaying | requestRebuild | changeRack | setTime => exact h
    | updateLive id key value =>
      show (s.outcome _).keyboard.Backed
      cases hcalled : s.updateLive id key value with
      | error fault => exact h
      | ok updated =>
        have hsame : updated.2.keyboard = s.keyboard := by
          rcases updateLive_cases hcalled with ⟨hsame, -⟩ | ⟨_, _, _, -, -, -, hmoved⟩
          · exact congrArg Session.keyboard hsame
          · exact (congrArg Session.keyboard hmoved).trans rfl
        show updated.2.keyboard.Backed
        rw [hsame]
        exact h
    | keyDown code shift => exact h.down s.mixer.rack code shift
    | keyUp code shift => exact h.up s.mixer.rack code shift

/-- The keyboard, the patches and the primitives go together. -/
structure Keyed (s : Session α) : Prop where
  /-- What sounds and what waits is on the rack. -/
  held : Carries s.mixer.rack.Holds s
  /-- They have no primitive in common. -/
  apart : ∀ id ∈ s.liveIds, id ∉ s.stagedIds
  /-- Keys play what sounds. -/
  gated : ∀ b ∈ s.keyboard.voicing.bindings, ∃ patch, s.live = some patch ∧ patch.Gates b.2
  /-- While a patch waits nothing is bound to a key, and the voices that wait are its own. -/
  waiting : ∀ pass staged, s.pass = some pass → pass.stage.staged? = some staged →
    s.keyboard.voicing.bindings = [] ∧ ∀ b ∈ staged.voicing.bindings, staged.patch.Gates b.2
  backed : s.keyboard.Backed

namespace Keyed

omit [Scalar α] in
theorem stagedIds_eq {pass : Pass α} (hpass : s.pass = some pass) {staged : Staged α}
    (hstaged : pass.stage.staged? = some staged) : s.stagedIds = staged.patch.ids := by
  rw [stagedIds_eq_of_some hpass]
  unfold Stage.staged? at hstaged
  split at hstaged
  next heq => cases hstaged; rw [heq]; rfl
  next heq => cases hstaged; rw [heq]; rfl
  next => cases hstaged
  next => cases hstaged

omit [Scalar α] in
/-- When nothing waits. -/
theorem of_unstaged (hnone : ∀ pass, s.pass = some pass → pass.stage.staged? = none)
    (hholds : ∀ patch, s.live = some patch → s.mixer.rack.Holds patch)
    (hgated : ∀ b ∈ s.keyboard.voicing.bindings, ∃ patch, s.live = some patch ∧ patch.Gates b.2)
    (hbacked : s.keyboard.Backed) : Keyed s := by
  have habsurd : ∀ pass staged, s.pass = some pass → pass.stage.staged? ≠ some staged := by
    intro pass staged hpass hstaged
    rw [hnone pass hpass] at hstaged
    cases hstaged
  refine ⟨⟨hholds, fun pass staged hpass hstaged => absurd hstaged (habsurd pass staged hpass)⟩,
    fun id _ hstaged => ?_, hgated,
    fun pass staged hpass hstaged => absurd hstaged (habsurd pass staged hpass), hbacked⟩
  cases hpass : s.pass with
  | none =>
    rw [stagedIds_eq_of_none hpass] at hstaged
    cases hstaged
  | some pass =>
    have hstage := hnone pass hpass
    rw [stagedIds_eq_of_some hpass] at hstaged
    unfold Stage.ids at hstaged
    split at hstaged
    next heq => rw [heq] at hstage; cases hstage
    next heq => rw [heq] at hstage; cases hstage
    next => cases hstaged
    next => cases hstaged

omit [Scalar α] in
/-- When a patch waits. -/
theorem of_staged {pass : Pass α} (hpass : s.pass = some pass) {staged : Staged α}
    (hstaged : pass.stage.staged? = some staged) (hwaits : s.mixer.rack.Holds staged.patch)
    (hgates : ∀ b ∈ staged.voicing.bindings, staged.patch.Gates b.2)
    (hlive : ∀ patch, s.live = some patch →
      s.mixer.rack.Holds patch ∧ ∀ id ∈ patch.ids, id ∉ staged.patch.ids)
    (hquiet : s.keyboard.voicing.bindings = []) (hbacked : s.keyboard.Backed) : Keyed s := by
  have heq : ∀ pass' staged', s.pass = some pass' → pass'.stage.staged? = some staged' →
      staged' = staged := by
    intro pass' staged' hpass' hstaged'
    cases hpass.symm.trans hpass'
    exact Option.some.inj (hstaged'.symm.trans hstaged)
  refine ⟨⟨fun patch hsome => (hlive patch hsome).1, fun pass' staged' hpass' hstaged' => ?_⟩,
    fun id hid => ?_, fun b hb => ?_, fun pass' staged' hpass' hstaged' => ?_, hbacked⟩
  · rw [heq pass' staged' hpass' hstaged']
    exact hwaits
  · rw [stagedIds_eq hpass hstaged]
    cases hsome : s.live with
    | none =>
      rw [liveIds_eq_of_none hsome] at hid
      cases hid
    | some patch =>
      rw [liveIds_eq_of_some hsome] at hid
      exact (hlive patch hsome).2 id hid
  · rw [hquiet] at hb
    cases hb
  · rw [heq pass' staged' hpass' hstaged']
    exact ⟨hquiet, hgates⟩

theorem new {rack : Rack α} {settings : Settings} (h : Session.new rack settings = .ok s) :
    Keyed s := by
  obtain ⟨mixer, -, h⟩ := bind_eq_ok.mp h
  cases h
  refine of_unstaged (fun pass hpass => ?_) (fun patch hlive => ?_)
    (fun _ hb => absurd hb List.not_mem_nil) (Keyboard.backed_withVoicing _)
  · cases hpass
  · cases hlive

theorem call (h : Keyed s) {c : Call α} (hc : c.Spares) : Keyed (s.call c) := by
  have hplays : Plays (fun _ => True) s (s.call c) :=
    plays_call ⟨fun _ _ => trivial, fun _ _ _ _ _ _ => trivial⟩ hc
  have hcourse := sameCourse_call s c
  have hholds : ∀ patch, s.mixer.rack.Holds patch → (s.call c).mixer.rack.Holds patch :=
    fun _ hpatch => hpatch.of_same hplays.rack.unreleased_eq (s.automated_call hc).families_eq
  refine ⟨(h.held.imp hholds).call c, ?_, ?_, fun pass staged hpass hstaged => ?_,
    backed_call h.backed c⟩
  · unfold liveIds stagedIds
    rw [hcourse.live, hcourse.pass]
    exact h.apart
  · rw [hplays.voicing, hcourse.live]
    exact h.gated
  · rw [hplays.voicing]
    exact h.waiting pass staged (hcourse.pass ▸ hpass) hstaged

/-- A rebuild begins. What it has built lies after all that sounds, and its voices wait with it. -/
theorem begin (h : Keyed s) : Keyed s.begin := by
  have hlive : ∀ patch, s.live = some patch →
      (s.mixer.build s.graph .empty).2.1.rack.Holds patch :=
    fun patch hsome => Graph.holds_build (h.held.live patch hsome)
  rcases s.begin_cases with ⟨fault, -, hbegin⟩ | ⟨patch, hpatch, hbegin⟩
  · rw [hbegin]
    exact of_unstaged (fun pass hpass => by cases hpass) hlive h.gated h.backed
  · obtain ⟨hbuilt, hnew⟩ := Graph.holds_of_build hpatch
    have hfaded : Rack.Played (fun _ => True) (s.mixer.build s.graph .empty).2.1.rack _ :=
      Mixer.played_fadeOut trivial (fun _ _ => trivial) (seconds s.settings.fade)
    have hsame : ∀ patch, (s.mixer.build s.graph .empty).2.1.rack.Holds patch → _ :=
      fun _ hholds => hholds.of_same hfaded.unreleased_eq (Mixer.families_fadeOut _ _)
    rw [hbegin]
    refine of_staged rfl rfl (hsame patch hbuilt) (Graph.gates_of_build hpatch)
      (fun old hsome => ⟨hsame old (hlive old hsome), fun id hid hwaits => ?_⟩) rfl
      (Keyboard.backed_withVoicing _)
    exact absurd ((h.held.live old hsome).lt_size hid) (Nat.not_lt_of_le (hnew id hwaits))

omit [Scalar α] in
/-- What sounded is released, and it is not what waits. -/
theorem discard (h : Keyed s) {pass : Pass α} (hpass : s.pass = some pass) {staged : Staged α}
    (hstage : pass.stage = .discard staged) {delay : Nat} :
    Keyed (s.discardLive.next pass (.install staged) delay) := by
  have hstaged : pass.stage.staged? = some staged := by rw [hstage]; rfl
  have hholds : s.mixer.rack.Holds staged.patch := h.held.staged pass staged hpass hstaged
  obtain ⟨hquiet, hgates⟩ := h.waiting pass staged hpass hstaged
  have hapart := h.apart
  rw [stagedIds_eq hpass hstaged] at hapart
  unfold discardLive
  split
  next old hlive =>
    rw [liveIds_eq_of_some hlive] at hapart
    have hkept : (s.mixer.rack.releaseAll old.ids).Holds staged.patch :=
      hholds.releaseAll fun id hid hold => hapart id hold hid
    exact of_staged rfl rfl hkept hgates (fun _ hsome => by cases hsome) hquiet h.backed
  next hlive =>
    refine of_staged rfl rfl hholds hgates (fun patch hsome => ?_) hquiet h.backed
    cases hlive.symm.trans hsome

/-- A rebuild goes on. -/
theorem proceed (h : Keyed s) {pass : Pass α} (hpass : s.pass = some pass) :
    Keyed (s.proceed pass) := by
  unfold Session.proceed
  split
  next staged hstage => exact h.discard hpass hstage
  next staged hstage =>
    have hstaged : pass.stage.staged? = some staged := by rw [hstage]; rfl
    refine of_unstaged (fun _ hnext => by cases hnext; rfl) (fun patch hlive => ?_)
      (fun b hb => ?_) (Keyboard.backed_withVoicing _)
    · cases hlive
      exact h.held.staged pass staged hpass hstaged
    · exact ⟨staged.patch, rfl, (h.waiting pass staged hpass hstaged).2 b hb⟩
  next summary hstage =>
    -- sources are started and the master gain is opened
    have hfaded : Rack.Played (fun _ => True) s.mixer.rack _ :=
      Mixer.played_fadeIn trivial (fun _ _ => trivial) (seconds s.settings.fade)
    refine of_unstaged (fun _ hnext => by cases hnext; rfl) (fun patch hlive => ?_) h.gated h.backed
    exact (h.held.live patch hlive).of_same hfaded.unreleased_eq (Mixer.families_fadeIn _ _)
  next summary hstage =>
    exact of_unstaged (fun _ hnone => by cases hnone) h.held.live h.gated h.backed

end Keyed

/-! ## Histories -/

theorem keyed_run {rack : Rack α} {settings : Settings} (hnew : Session.new rack settings = .ok s)
    {events : List (Event α)} (hspares : ∀ e ∈ events, Event.Spares e) :
    Keyed (Observed.run ⟨s, none, false⟩ events).session := by
  refine Observed.run_induction (fun s c hc hs => hs.call hc) (fun s _ hs => hs.begin)
    (fun s pass hpass hs => ?_) (Keyed.new hnew) hspares
  have htime : Keyed { s with time := pass.due } :=
    ⟨⟨hs.held.live, hs.held.staged⟩, hs.apart, hs.gated, hs.waiting, hs.backed⟩
  exact htime.proceed hpass

/-- A key goes down or up. -/
def Call.IsKey : Call α → Prop
  | .keyDown _ _ | .keyUp _ _ => True
  | _ => False

/-- A key touches nothing but the gains of the keyboard's voices. -/
theorem kept_key {c : Call α} (hc : c.IsKey) {id : PrimitiveId}
    (hid : ∀ b ∈ s.keyboard.voicing.bindings, b.2.gain.primitive ≠ id) :
    (s.call c).mixer.rack.primitive? id = s.mixer.rack.primitive? id := by
  have hwithin : s.keyboard.Within (· ≠ id) := hid
  cases c with
  | keyDown code shift => exact (Keyboard.played_down hwithin _ code shift).1.kept id fun h => h rfl
  | keyUp code shift => exact (Keyboard.played_up hwithin _ code shift).1.kept id fun h => h rfl
  | _ => cases hc

/-- At any time in any history in which nobody else works on the primitives: every voice of the
keyboard opens the gain of a gain primitive that what sounds lists and that is not released; every
key that is not idle has a voice; and a primitive that a key going down or up changes is one of
these gains, so it is not released and no part of what waits to be installed. -/
theorem Observed.keys_of_run {rack : Rack α} {settings : Settings}
    (hnew : Session.new rack settings = .ok s) {events : List (Event α)}
    (hspares : ∀ e ∈ events, Event.Spares e) :
    let now := (run ⟨s, none, false⟩ events).session
    (∀ b ∈ now.keyboard.voicing.bindings, b.2.gain.param = .gain ∧
      (∃ patch, now.live = some patch ∧ (b.2.gain.primitive, Family.gain) ∈ patch.primitives) ∧
      ∃ p, now.mixer.rack.primitive? b.2.gain.primitive = some p ∧ p.family = .gain ∧
        p.released = false) ∧
    (∀ key, now.keyboard.states key ≠ .idle → now.keyboard.voicing.voicesOf key ≠ []) ∧
    ∀ c : Call α, c.IsKey → ∀ id,
      (now.call c).mixer.rack.primitive? id ≠ now.mixer.rack.primitive? id →
        (∃ b ∈ now.keyboard.voicing.bindings, b.2.gain.primitive = id) ∧
        id ∈ now.liveIds ∧ id ∈ now.mixer.rack.unreleased ∧ id ∉ now.stagedIds := by
  intro now
  have hkeyed : Keyed now := keyed_run hnew hspares
  refine ⟨fun b hb => ?_, hkeyed.backed, fun c hc id hchanged => ?_⟩
  · obtain ⟨patch, hlive, hparam, hlisted⟩ := hkeyed.gated b hb
    exact ⟨hparam, ⟨patch, hlive, hlisted⟩,
      (hkeyed.held.live patch hlive).exists_primitive? hlisted⟩
  · obtain ⟨b, hb, rfl⟩ : ∃ b ∈ now.keyboard.voicing.bindings, b.2.gain.primitive = id := by
      by_contra hnone
      exact hchanged (kept_key hc fun b hb heq => hnone ⟨b, hb, heq⟩)
    obtain ⟨patch, hlive, -, hlisted⟩ := hkeyed.gated b hb
    have hid : b.2.gain.primitive ∈ patch.ids := List.mem_map_of_mem hlisted
    have hlives : b.2.gain.primitive ∈ now.liveIds := by
      rw [liveIds_eq_of_some hlive]
      exact hid
    exact ⟨⟨b, hb, rfl⟩, hlives, (hkeyed.held.live patch hlive).mem_unreleased hid,
      hkeyed.apart _ hlives⟩

/-- A tone goes through a key that is held down when a rebuild begins that cannot succeed. -/
def heldThrough : List (Event Float) :=
  [.call (.addNode .oscillator), .call (.addNode .keyboardAdsr), .call (.addNode .audioOutput),
    .call (.connect ⟨"n1", "signal", "n2", "signal"⟩),
    .call (.connect ⟨"n2", "signal", "n3", "signal"⟩)] ++ List.replicate 10 .checkpoint ++
  [.call (.keyDown "KeyA" false), .call (.changeRack (·.refuse .gain)), .call .requestRebuild,
    .checkpoint]

theorem spares_heldThrough : ∀ e ∈ heldThrough, Event.Spares e := by
  simp only [heldThrough, List.forall_mem_append, List.forall_mem_cons]
  refine ⟨⟨⟨trivial, trivial, trivial, trivial, trivial, List.forall_mem_nil _⟩,
    Event.spares_checkpoints 10⟩, trivial, Call.spares_refuse .gain, trivial, trivial,
    List.forall_mem_nil _⟩

/-- After the rebuild has failed the key is held as before, on a gain that sounds. -/
theorem keys_of_heldThrough : ∃ s, Session.new (Rack.new 48000.0) {} = .ok s ∧
    (Observed.run ⟨s, none, false⟩ heldThrough).session.keyboard.states .a = .held ∧
    (Observed.run ⟨s, none, false⟩ heldThrough).session.keyboard.voicing.bindings =
      [(.a, ⟨⟨5, .gain⟩, 0⟩)] ∧
    ∃ p, (Observed.run ⟨s, none, false⟩ heldThrough).session.mixer.rack.primitive? 5 = some p ∧
      p.family = .gain ∧ p.released = false := by
  obtain ⟨s, hs⟩ : ∃ s, Session.new (Rack.new 48000.0) {} = .ok s := ⟨_, rfl⟩
  have hheld : (Observed.run ⟨s, none, false⟩ heldThrough).session.keyboard.states .a = .held := by
    cases hs; decide +kernel
  have hbound : (Observed.run ⟨s, none, false⟩ heldThrough).session.keyboard.voicing.bindings =
      [(.a, ⟨⟨5, .gain⟩, 0⟩)] := by
    cases hs; decide +kernel
  obtain ⟨hvoices, -, -⟩ := Observed.keys_of_run hs spares_heldThrough
  have hvoice := hvoices (.a, ⟨⟨5, .gain⟩, 0⟩) (by rw [hbound]; exact List.mem_singleton_self _)
  exact ⟨s, hs, hheld, hbound, hvoice.2.2⟩

end Session

end Patchbay
