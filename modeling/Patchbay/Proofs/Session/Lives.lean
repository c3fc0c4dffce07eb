import Patchbay.Proofs.Session.Deeds
/-!
# The life of sources

Whatever is edited and however rebuilds end: a primitive is started at most once, stopped at most
once and only after it was started, and released at most once, after it was stopped if it was ever
started. When no rebuild is running or asked for, the mixer's sources are those of what sounds, and
each of them has been started and not stopped (`Observed.lives_of_run`).

Two invariants make this so. The sources that the mixer keeps are those of what sounds, all of them
started or none (`Tracked`); and what was done to them is what belongs to the stage that comes next,
while of all else nothing was done to what is not released (`Orderly`).
-/

namespace Patchbay

variable {α : Type}

namespace Mixer

/-- All sources that are kept are started. -/
theorem ids_started {sources : List Source} {ids : List PrimitiveId}
    (h : sources = ids.map (⟨·, true⟩)) : (sources.filter (·.started)).map (·.id) = ids := by
  rw [h, List.filter_map, List.map_map]
  show (ids.filter fun _ => true).map id = ids
  rw [List.filter_true, List.map_id]

/-- None of the sources that are kept is started. -/
theorem ids_waiting {sources : List Source} {ids : List PrimitiveId}
    (h : sources = ids.map (⟨·, false⟩)) : (sources.filter (!·.started)).map (·.id) = ids := by
  rw [h, List.filter_map, List.map_map]
  show (ids.filter fun _ => true).map id = ids
  rw [List.filter_true, List.map_id]

variable [Scalar α] {m : Mixer α} {ids : List PrimitiveId}

theorem sources_fadeIn_eq {started : Bool} (h : m.sources = ids.map (⟨·, started⟩)) (ramp : α) :
    (m.fadeIn ramp).sources = ids.map (⟨·, true⟩) := by
  show m.sources.map _ = _
  rw [h, List.map_map]
  rfl

/-- After a fade out nothing counts as started, whether there was anything to stop or not. -/
theorem sources_fadeOut_eq (h : m.sources = ids.map (⟨·, true⟩)) (ramp : α) :
    (m.fadeOut ramp).2.sources = ids.map (⟨·, false⟩) := by
  unfold fadeOut
  split
  next hnone =>
    have hids : m.startedSources.map (·.id) = ids := ids_started h
    rw [List.isEmpty_iff.mp hnone] at hids
    rw [← hids] at h ⊢
    exact h
  next =>
    show m.sources.map _ = _
    rw [h, List.map_map]
    rfl

end Mixer

theorem Patch.nodup_sources {patch : Patch α} (h : patch.ids.Nodup) : patch.sources.Nodup :=
  h.sublist ((List.filter_sublist).map _)

namespace Session

/-! ## Sources of what sounds -/

def liveSources (s : Session α) : List PrimitiveId :=
  match s.live with
  | some patch => patch.sources
  | none => []

theorem liveSources_eq_of_some {s : Session α} {patch : Patch α} (h : s.live = some patch) :
    s.liveSources = patch.sources := by
  unfold liveSources
  rw [h]

theorem liveSources_eq_of_none {s : Session α} (h : s.live = none) : s.liveSources = [] := by
  unfold liveSources
  rw [h]

theorem exists_live_of_mem_liveIds {s : Session α} {id : PrimitiveId} (h : id ∈ s.liveIds) :
    ∃ patch, s.live = some patch ∧ id ∈ patch.ids := by
  cases hlive : s.live with
  | some patch => exact ⟨patch, rfl, liveIds_eq_of_some hlive ▸ h⟩
  | none =>
    rw [liveIds_eq_of_none hlive] at h
    cases h

theorem mem_liveIds_of_mem_liveSources {s : Session α} {id : PrimitiveId}
    (h : id ∈ s.liveSources) : id ∈ s.liveIds := by
  cases hlive : s.live with
  | some patch =>
    rw [liveSources_eq_of_some hlive] at h
    rw [liveIds_eq_of_some hlive]
    exact Patch.mem_ids_of_mem_sources h
  | none =>
    rw [liveSources_eq_of_none hlive] at h
    cases h

theorem discardLive_cases (s : Session α) :
    (s.live = none ∧ s.discardLive = s) ∨
    ∃ old, s.live = some old ∧
      s.discardLive = { s with live := none, mixer := s.mixer.release old } := by
  unfold discardLive
  cases hlive : s.live with
  | none => exact Or.inl ⟨rfl, rfl⟩
  | some old => exact Or.inr ⟨old, rfl, rfl⟩

/-- What is discarded is released, and nothing sounds afterwards. -/
theorem discardLive_spec (s : Session α) : s.discardLive.liveSources = [] ∧
    s.discardLive.mixer.rack.primitives.size = s.mixer.rack.primitives.size ∧
    ∀ id ∈ s.discardLive.mixer.rack.unreleased, id ∉ s.liveIds ∧ id ∈ s.mixer.rack.unreleased := by
  rcases s.discardLive_cases with ⟨hlive, hsame⟩ | ⟨old, hlive, hreleased⟩
  · rw [hsame, liveIds_eq_of_none hlive]
    exact ⟨liveSources_eq_of_none hlive, rfl, fun id hid => ⟨List.not_mem_nil, hid⟩⟩
  · rw [hreleased, liveIds_eq_of_some hlive]
    refine ⟨rfl, s.mixer.rack.size_releaseAll old.ids, fun id hid => ?_⟩
    have hid : id ∈ (s.mixer.rack.releaseAll old.ids).unreleased := hid
    rw [Rack.unreleased_releaseAll, List.mem_filter] at hid
    exact ⟨of_decide_eq_true hid.2, hid.1⟩

/-- Before this stage the sources of what sounds have been started and none has been stopped. -/
def Stage.started : Stage α → Bool
  | .discard _ | .install _ | .start _ => false
  | .finish _ => true

/-- The sources of what sounds have been started and none has been stopped. -/
def allStarted (s : Session α) : Bool :=
  match s.pass with
  | some pass => pass.stage.started
  | none => true

/-- The mixer keeps the sources of what sounds. Patches lie on the rack, after the first `size`
primitives, and nothing sounds while a patch is about to be installed. -/
structure Tracked (size : Nat) (s : Session α) : Prop where
  keyed : Keyed s
  own : Carries (fun patch => patch.ids.Nodup ∧ ∀ id ∈ patch.ids, size ≤ id) s
  grown : size ≤ s.mixer.rack.primitives.size
  silent : ∀ pass staged, s.pass = some pass → pass.stage = .install staged → s.live = none
  sources : s.mixer.sources = s.liveSources.map (⟨·, s.allStarted⟩)

namespace Tracked

variable {size : Nat} {s : Session α}

theorem live_lt (h : Tracked size s) {id : PrimitiveId} (hid : id ∈ s.liveIds) :
    id < s.mixer.rack.primitives.size := by
  obtain ⟨patch, hlive, hid⟩ := exists_live_of_mem_liveIds hid
  exact (h.keyed.held.live patch hlive).lt_size hid

theorem live_unreleased (h : Tracked size s) {id : PrimitiveId} (hid : id ∈ s.liveIds) :
    id ∈ s.mixer.rack.unreleased := by
  obtain ⟨patch, hlive, hid⟩ := exists_live_of_mem_liveIds hid
  exact (h.keyed.held.live patch hlive).mem_unreleased hid

theorem nodup_liveIds (h : Tracked size s) : s.liveIds.Nodup := by
  cases hlive : s.live with
  | none =>
    rw [liveIds_eq_of_none hlive]
    exact List.nodup_nil
  | some patch =>
    rw [liveIds_eq_of_some hlive]
    exact (h.own.live patch hlive).1

theorem nodup_liveSources (h : Tracked size s) : s.liveSources.Nodup := by
  cases hlive : s.live with
  | none =>
    rw [liveSources_eq_of_none hlive]
    exact List.nodup_nil
  | some patch =>
    rw [liveSources_eq_of_some hlive]
    exact Patch.nodup_sources (h.own.live patch hlive).1

theorem placed (h : Tracked size s) : s.Placed := by
  refine ⟨fun source hsource => ?_, fun id hid => h.live_lt hid⟩
  rw [h.sources] at hsource
  obtain ⟨id, hid, rfl⟩ := List.mem_map.mp hsource
  exact h.live_lt (mem_liveIds_of_mem_liveSources hid)

theorem withTime (h : Tracked size s) (time : Nat) : Tracked size { s with time } :=
  ⟨⟨⟨h.keyed.held.live, h.keyed.held.staged⟩, h.keyed.apart, h.keyed.gated, h.keyed.waiting,
    h.keyed.backed⟩, ⟨h.own.live, h.own.staged⟩, h.grown, h.silent, h.sources⟩

variable [Scalar α]

theorem new {rack : Rack α} {settings : Settings} (h : Session.new rack settings = .ok s) :
    Tracked s.mixer.rack.primitives.size s := by
  have hkeyed := Keyed.new h
  obtain ⟨mixer, hmixer, h⟩ := bind_eq_ok.mp h
  obtain ⟨_, -, hmixer⟩ := bind_eq_ok.mp hmixer
  obtain ⟨_, -, hmixer⟩ := bind_eq_ok.mp hmixer
  cases hmixer
  cases h
  exact ⟨hkeyed, ⟨fun _ hlive => (by cases hlive), fun _ _ hpass => (by cases hpass)⟩,
    Nat.le_refl _, fun _ _ hpass => (by cases hpass), rfl⟩

theorem call (h : Tracked size s) {c : Call α} (hc : c.Spares) : Tracked size (s.call c) := by
  have hplays : Plays (fun _ => True) s (s.call c) :=
    plays_call ⟨fun _ _ => trivial, fun _ _ _ _ _ _ => trivial⟩ hc
  have hcourse := sameCourse_call s c
  refine ⟨h.keyed.call hc, h.own.call c, hplays.rack.size.symm ▸ h.grown,
    fun pass staged hpass hstage => ?_, ?_⟩
  · rw [hcourse.live]
    exact h.silent pass staged (hcourse.pass ▸ hpass) hstage
  · unfold liveSources allStarted
    rw [hcourse.live, hcourse.pass, hplays.mixer]
    exact h.sources

theorem begin (h : Tracked size s) (hpass : s.pass = none) : Tracked size s.begin := by
  have hextends : s.mixer.rack.Extends (s.mixer.build s.graph .empty).2.1.rack :=
    Graph.extends_build
  have hown : Carries (fun patch => patch.ids.Nodup ∧ ∀ id ∈ patch.ids, size ≤ id) s.begin := by
    refine h.own.begin fun patch hpatch => ?_
    obtain ⟨hids, -⟩ := Graph.patch_of_build hpatch
    rw [hids]
    refine ⟨List.nodup_range', fun id hid => ?_⟩
    exact Nat.le_trans h.grown (List.mem_range'_1.mp hid).1
  have hsources := h.sources
  unfold allStarted at hsources
  rw [hpass] at hsources
  have hkeyed := h.keyed.begin
  have hgrown := Nat.le_trans h.grown hextends.size
  rcases s.begin_cases with ⟨fault, -, hbegin⟩ | ⟨patch, -, hbegin⟩
  · rw [hbegin] at hown hkeyed ⊢
    exact ⟨hkeyed, hown, hgrown, fun _ _ hnone => (by cases hnone), hsources⟩
  · have hfaded : Rack.Played (fun _ => True) (s.mixer.build s.graph .empty).2.1.rack _ :=
      Mixer.played_fadeOut trivial (fun _ _ => trivial) (seconds s.settings.fade)
    have hfadedSources := Mixer.sources_fadeOut_eq (m := (s.mixer.build s.graph .empty).2.1)
      hsources (seconds s.settings.fade)
    rw [hbegin] at hown hkeyed ⊢
    refine ⟨hkeyed, hown, hfaded.size.symm ▸ hgrown, fun _ _ hnext hstage => ?_, hfadedSources⟩
    cases hnext
    cases hstage

theorem proceed (h : Tracked size s) {pass : Pass α} (hpass : s.pass = some pass) :
    Tracked size (s.proceed pass) := by
  have hkeyed := h.keyed.proceed hpass
  have hown := h.own.proceed hpass
  have hsources := h.sources
  unfold allStarted at hsources
  rw [hpass] at hsources
  obtain ⟨number, stage, due⟩ := pass
  cases stage with
  | discard staged =>
    unfold Session.proceed at hkeyed hown ⊢
    dsimp only at hkeyed hown ⊢
    rcases s.discardLive_cases with ⟨hlive, hsame⟩ | ⟨old, hlive, hreleased⟩
    · rw [hsame] at hkeyed hown ⊢
      rw [liveSources_eq_of_none hlive] at hsources
      refine ⟨hkeyed, hown, h.grown, fun _ _ _ _ => hlive, hsources.trans ?_⟩
      have hnone : (s.next ⟨number, .discard staged, due⟩ (.install staged)
        s.settings.settle).liveSources = [] := liveSources_eq_of_none hlive
      rw [hnone]
      rfl
    · rw [hreleased] at hkeyed hown ⊢
      have hgone : (s.mixer.release old).sources = [] := by
        refine List.filter_eq_nil_iff.mpr fun source hsource => ?_
        rw [hsources, liveSources_eq_of_some hlive] at hsource
        obtain ⟨id, hid, rfl⟩ := List.mem_map.mp hsource
        simp [Patch.mem_ids_of_mem_sources hid]
      exact ⟨hkeyed, hown, (s.mixer.rack.size_releaseAll old.ids).symm ▸ h.grown,
        fun _ _ _ _ => rfl, hgone⟩
  | install staged =>
    refine ⟨hkeyed, hown, h.grown, fun _ _ hnext hstage => ?_, rfl⟩
    cases hnext
    cases hstage
  | start summary =>
    have hfaded : Rack.Played (fun _ => True) s.mixer.rack _ :=
      Mixer.played_fadeIn trivial (fun _ _ => trivial) (seconds s.settings.fade)
    refine ⟨hkeyed, hown, hfaded.size.symm ▸ h.grown, fun _ _ hnext hstage => ?_,
      Mixer.sources_fadeIn_eq hsources _⟩
    cases hnext
    cases hstage
  | finish summary =>
    exact ⟨hkeyed, hown, h.grown, fun _ _ hnone => (by cases hnone), hsources⟩

end Tracked

/-! ## What was done to sources -/

/-- What has been done to the sources of what sounds by the time a stage comes. -/
def Stage.Lived : Stage α → List (Act α) → Prop
  | .discard _, acts => ∃ time ended, acts = [.start time, .stop ended]
  | .install _, acts | .start _, acts => acts = []
  | .finish _, acts => ∃ time, acts = [.start time]

/-- What has been done to the sources of what sounds. -/
def Lived (s : Session α) (acts : List (Act α)) : Prop :=
  match s.pass with
  | some pass => pass.stage.Lived acts
  | none => ∃ time, acts = [.start time]

/-- What comes of a primitive, as far as it has come: it is started, stopped and released. -/
def Underway (acts : List (Act α)) : Prop :=
  ∃ time ended, acts <+: [.start time, .stop ended, .release]

theorem Underway.nil [Scalar α] : Underway ([] : List (Act α)) := ⟨0.0, 0.0, List.nil_prefix⟩

theorem Underway.started (time : α) : Underway [.start time] := ⟨time, time, ⟨_, rfl⟩⟩

theorem Underway.stopped (time ended : α) : Underway [.start time, .stop ended] :=
  ⟨time, ended, ⟨_, rfl⟩⟩

theorem Lived.underway [Scalar α] {s : Session α} {acts : List (Act α)} (h : s.Lived acts) :
    Underway acts := by
  unfold Lived Stage.Lived at h
  split at h
  next =>
    split at h
    next => obtain ⟨time, ended, rfl⟩ := h; exact .stopped time ended
    next => rw [h]; exact .nil
    next => rw [h]; exact .nil
    next => obtain ⟨time, rfl⟩ := h; exact .started time
  next => obtain ⟨time, rfl⟩ := h; exact .started time

/-- Nothing was done, or it has come to its end. -/
def Ended (acts : List (Act α)) : Prop :=
  acts = [] ∨ acts = [.release] ∨ ∃ time ended, acts = [.start time, .stop ended, .release]

/-- What was done to the sources of what sounds is what belongs to the stage that comes next.
Nothing was done to anything else that is not released or not there yet. -/
structure Orderly (past : List (Deed α)) (s : Session α) : Prop where
  sounding : ∀ id ∈ s.liveSources, s.Lived (Deed.actsOn past id)
  others : ∀ id ∉ s.liveSources, Ended (Deed.actsOn past id)
  untouched : ∀ id ∉ s.liveSources,
    id ∈ s.mixer.rack.unreleased ∨ s.mixer.rack.primitives.size ≤ id → Deed.actsOn past id = []

namespace Orderly

variable {past : List (Deed α)} {size : Nat} {s s' : Session α}

/-- When a stage does nothing to the sources of what sounds. -/
theorem of_same (h : Orderly past s) (hsources : s'.liveSources = s.liveSources)
    (hlived : ∀ acts, s.Lived acts → s'.Lived acts)
    (hunreleased : s'.mixer.rack.unreleased = s.mixer.rack.unreleased)
    (hsize : s'.mixer.rack.primitives.size = s.mixer.rack.primitives.size) : Orderly past s' := by
  refine ⟨?_, ?_, ?_⟩
  · rw [hsources]
    exact fun id hid => hlived _ (h.sounding id hid)
  · rw [hsources]
    exact h.others
  · rw [hsources, hunreleased, hsize]
    exact h.untouched

/-- When one thing is done to all sources of what sounds, and nothing to anything else. -/
theorem toSources (h : Orderly past s) (htracked : Tracked size s)
    (hsources : s'.liveSources = s.liveSources) {act : Act α}
    (hlived : ∀ acts, s.Lived acts → s'.Lived (acts ++ [act]))
    (huntouched : ∀ id, id ∈ s'.mixer.rack.unreleased ∨ s'.mixer.rack.primitives.size ≤ id →
      id ∈ s.mixer.rack.unreleased ∨ s.mixer.rack.primitives.size ≤ id) :
    Orderly (past ++ Deed.toAll act s.liveSources) s' := by
  refine ⟨fun id hid => ?_, fun id hid => ?_, fun id hid hfree => ?_⟩
  · rw [hsources] at hid
    rw [Deed.actsOn_append_toAll_of_mem htracked.nodup_liveSources hid]
    exact hlived _ (h.sounding id hid)
  · rw [hsources] at hid
    rw [Deed.actsOn_append_toAll_of_notMem hid]
    exact h.others id hid
  · rw [hsources] at hid
    rw [Deed.actsOn_append_toAll_of_notMem hid]
    exact h.untouched id hid (huntouched id hfree)

/-- When primitives are released to which nothing was done, or that have been stopped. -/
theorem released (h : Orderly past s) {ids : List PrimitiveId} (hnodup : ids.Nodup)
    (hsources : ∀ id ∈ s'.liveSources, id ∈ s.liveSources ∧ id ∉ ids)
    (hgone : ∀ id ∈ s.liveSources, id ∉ s'.liveSources →
      id ∈ ids ∧ ∃ time ended, Deed.actsOn past id = [.start time, .stop ended])
    (hids : ∀ id ∈ ids, id ∈ s.mixer.rack.unreleased ∨ s.mixer.rack.primitives.size ≤ id)
    (hlived : ∀ id ∈ s'.liveSources, ∀ acts, s.Lived acts → s'.Lived acts)
    (huntouched : ∀ id, id ∈ s'.mixer.rack.unreleased ∨ s'.mixer.rack.primitives.size ≤ id →
      id ∉ ids ∧ (id ∈ s.mixer.rack.unreleased ∨ s.mixer.rack.primitives.size ≤ id)) :
    Orderly (past ++ Deed.toAll .release ids) s' := by
  refine ⟨fun id hid => ?_, fun id hid => ?_, fun id hid hfree => ?_⟩
  · obtain ⟨hold, hkept⟩ := hsources id hid
    rw [Deed.actsOn_append_toAll_of_notMem hkept]
    exact hlived id hid _ (h.sounding id hold)
  · by_cases hin : id ∈ ids
    · rw [Deed.actsOn_append_toAll_of_mem hnodup hin]
      by_cases hold : id ∈ s.liveSources
      · obtain ⟨-, time, ended, hacts⟩ := hgone id hold hid
        rw [hacts]
        exact Or.inr (Or.inr ⟨time, ended, rfl⟩)
      · rw [h.untouched id hold (hids id hin)]
        exact Or.inr (Or.inl rfl)
    · rw [Deed.actsOn_append_toAll_of_notMem hin]
      exact h.others id fun hold => hin (hgone id hold hid).1
  · obtain ⟨hkept, hfree⟩ := huntouched id hfree
    rw [Deed.actsOn_append_toAll_of_notMem hkept]
    exact h.untouched id (fun hold => hkept (hgone id hold hid).1) hfree

variable [Scalar α]

theorem new {rack : Rack α} {settings : Settings} (h : Session.new rack settings = .ok s) :
    Orderly [] s := by
  obtain ⟨mixer, -, h⟩ := bind_eq_ok.mp h
  cases h
  exact ⟨fun id hid => absurd hid List.not_mem_nil, fun _ _ => Or.inl rfl, fun _ _ _ => rfl⟩

theorem call (h : Orderly past s) {c : Call α} (hc : c.Spares) : Orderly past (s.call c) := by
  have hplays : Plays (fun _ => True) s (s.call c) :=
    plays_call ⟨fun _ _ => trivial, fun _ _ _ _ _ _ => trivial⟩ hc
  have hcourse := sameCourse_call s c
  refine h.of_same ?_ (fun acts hacts => ?_) hplays.rack.unreleased_eq hplays.rack.size
  · unfold liveSources
    rw [hcourse.live]
  · unfold Lived at hacts ⊢
    rw [hcourse.pass]
    exact hacts

/-- What sounds is stopped when a rebuild begins; if it fails, all that it added is released. -/
theorem begin (h : Orderly past s) (htracked : Tracked size s) (hpass : s.pass = none) :
    Orderly (past ++ s.beginDeeds) s.begin := by
  have hextends : s.mixer.rack.Extends (s.mixer.build s.graph .empty).2.1.rack :=
    Graph.extends_build
  have hunreleased : (s.mixer.build s.graph .empty).2.1.rack.unreleased =
      s.mixer.rack.unreleased ++ Graph.builtIds (s.mixer.build s.graph .empty).1 :=
    Graph.unreleased_build
  have hsources := htracked.sources
  unfold allStarted at hsources
  rw [hpass] at hsources
  have hnow : ∀ acts, s.Lived acts → ∃ time, acts = [.start time] := by
    unfold Lived
    rw [hpass]
    exact fun _ hacts => hacts
  have hlt : ∀ id ∈ s.mixer.rack.unreleased, id < s.mixer.rack.primitives.size :=
    fun id hid => List.mem_range.mp (List.mem_filter.mp hid).1
  unfold beginDeeds
  dsimp only
  rcases s.begin_cases with ⟨fault, hfault, hbegin⟩ | ⟨patch, hpatch, hbegin⟩
  · -- what was added is not among what was there
    rw [hfault] at hunreleased ⊢
    have hunreleased := hunreleased.trans (List.append_nil _)
    rw [hbegin]
    refine h.released (List.nodup_range' ..) (fun id hid => ⟨hid, fun hnew => ?_⟩)
      (fun id hid hnot => absurd hid hnot) (fun id hid => .inr (List.mem_range'_1.mp hid).1)
      (fun _ _ acts hacts => hnow acts hacts) fun id hfree => ?_
    · have hold := htracked.live_lt (mem_liveIds_of_mem_liveSources hid)
      exact absurd hold (Nat.not_lt_of_le (List.mem_range'_1.mp hnew).1)
    · rw [List.mem_range'_1, Nat.add_sub_cancel' hextends.size]
      rcases hfree with hfree | hfree
      · have hfree : id ∈ s.mixer.rack.unreleased := hunreleased ▸ hfree
        exact ⟨fun hnew => absurd (hlt id hfree) (Nat.not_lt_of_le hnew.1), .inl hfree⟩
      · exact ⟨fun hnew => absurd hnew.2 (Nat.not_lt_of_le hfree),
          .inr (Nat.le_trans hextends.size hfree)⟩
  · have hfaded : Rack.Played (fun _ => True) (s.mixer.build s.graph .empty).2.1.rack _ :=
      Mixer.played_fadeOut trivial (fun _ _ => trivial) (seconds s.settings.fade)
    obtain ⟨hids, -⟩ := Graph.patch_of_build hpatch
    have hstops : (s.mixer.build s.graph .empty).2.1.stops (seconds s.settings.fade) =
        Deed.toAll (.stop _) s.liveSources := congrArg (Deed.toAll _) (Mixer.ids_started hsources)
    rw [hpatch] at hunreleased ⊢
    rw [hbegin]
    dsimp only
    rw [hstops]
    refine h.toSources htracked ?_ (fun acts hacts => ?_) fun id hfree => ?_
    · rfl
    · obtain ⟨time, rfl⟩ := hnow acts hacts
      exact ⟨time, _, rfl⟩
    · rw [hfaded.unreleased_eq, hfaded.size, hunreleased, List.mem_append] at hfree
      rcases hfree with (hfree | hnew) | hfree
      · exact .inl hfree
      · have hnew : id ∈ patch.ids := hnew
        rw [hids, List.mem_range'_1] at hnew
        exact .inr hnew.1
      · exact .inr (Nat.le_trans hextends.size hfree)

/-- What was stopped is released, what was installed has not been touched, and then it is
started. -/
theorem proceed (h : Orderly past s) (htracked : Tracked size s) {pass : Pass α}
    (hpass : s.pass = some pass) :
    Orderly (past ++ pass.stage.deeds s) (s.proceed pass) := by
  have hsources := htracked.sources
  unfold allStarted at hsources
  rw [hpass] at hsources
  have hnow : ∀ acts, s.Lived acts → pass.stage.Lived acts := by
    unfold Lived
    rw [hpass]
    exact fun _ hacts => hacts
  obtain ⟨number, stage, due⟩ := pass
  cases stage with
  | discard staged =>
    have hstopped : ∀ id ∈ s.liveSources, id ∈ s.liveIds ∧
        ∃ time ended, Deed.actsOn past id = [.start time, .stop ended] :=
      fun id hid => ⟨mem_liveIds_of_mem_liveSources hid, hnow _ (h.sounding id hid)⟩
    obtain ⟨hgone, hsize, hunreleased⟩ := s.discardLive_spec
    have hgone : (s.proceed ⟨number, .discard staged, due⟩).liveSources = [] := hgone
    refine h.released htracked.nodup_liveIds (fun id hid => ?_) (fun id hid _ => hstopped id hid)
      (fun id hid => .inl (htracked.live_unreleased hid)) (fun id hid => ?_) fun id hfree => ?_
    · rw [hgone] at hid
      cases hid
    · rw [hgone] at hid
      cases hid
    · rcases hfree with hfree | hfree
      · exact ⟨(hunreleased id hfree).1, .inl (hunreleased id hfree).2⟩
      · have hfree : s.mixer.rack.primitives.size ≤ id := hsize ▸ hfree
        exact ⟨fun hid => absurd (htracked.live_lt hid) (Nat.not_lt_of_le hfree), .inr hfree⟩
  | install staged =>
    have hnone : s.liveSources = [] := liveSources_eq_of_none (htracked.silent _ staged hpass rfl)
    have hholds : s.mixer.rack.Holds staged.patch := htracked.keyed.held.staged _ staged hpass rfl
    have hall : ∀ id, id ∉ s.liveSources := by
      rw [hnone]
      exact fun _ => List.not_mem_nil
    show Orderly (past ++ []) _
    rw [List.append_nil]
    refine ⟨fun id hid => ?_, fun id _ => h.others id (hall id),
      fun id _ hfree => h.untouched id (hall id) hfree⟩
    have hid : id ∈ staged.patch.sources := hid
    exact h.untouched id (hall id) (.inl (hholds.mem_unreleased (Patch.mem_ids_of_mem_sources hid)))
  | start summary =>
    have hfaded : Rack.Played (fun _ => True) s.mixer.rack _ :=
      Mixer.played_fadeIn trivial (fun _ _ => trivial) (seconds s.settings.fade)
    have hstarts : s.mixer.starts = Deed.toAll (.start _) s.liveSources :=
      congrArg (Deed.toAll _) (Mixer.ids_waiting hsources)
    show Orderly (past ++ s.mixer.starts) _
    rw [hstarts]
    refine h.toSources htracked ?_ (fun acts hacts => ?_) fun id hfree => ?_
    · rfl
    · rw [show acts = [] from hnow acts hacts]
      exact ⟨_, rfl⟩
    · rw [← hfaded.unreleased_eq, ← hfaded.size]
      exact hfree
  | finish summary =>
    show Orderly (past ++ []) _
    rw [List.append_nil]
    exact h.of_same rfl hnow rfl rfl

end Orderly

/-! ## Histories -/

variable [Scalar α] {size : Nat} {past : List (Deed α)} {o : Observed α}

theorem tracked_run (h : Tracked size o.session) {events : List (Event α)}
    (hspares : ∀ e ∈ events, Event.Spares e) : Tracked size (o.run events).session :=
  Observed.run_induction (fun _ _ hc hs => hs.call hc) (fun _ hpass hs => hs.begin hpass)
    (fun _ pass hpass hs => (hs.withTime pass.due).proceed hpass) h hspares

theorem orderly_checkpoint (htracked : Tracked size o.session) (h : Orderly past o.session) :
    Orderly (past ++ o.session.deeds) (o.step .checkpoint).session := by
  rcases o.checkpoint_deeds with ⟨hsame, hnone⟩ | ⟨pass, hpass, hnext, hdeeds⟩ |
    ⟨hpass, hnext, hdeeds⟩
  · rw [hsame, hnone, List.append_nil]
    exact h
  · have htime : Orderly past { o.session with time := pass.due } :=
      h.of_same rfl (fun _ hacts => hacts) rfl rfl
    rw [hnext, hdeeds]
    exact htime.proceed (htracked.withTime pass.due) hpass
  · rw [hnext, hdeeds]
    exact h.begin htracked hpass

theorem orderly_run (htracked : Tracked size o.session) (h : Orderly past o.session)
    {events : List (Event α)} (hspares : ∀ e ∈ events, Event.Spares e) :
    Orderly (past ++ o.log events) (o.run events).session := by
  induction events generalizing o past with
  | nil =>
    show Orderly (past ++ []) o.session
    rw [List.append_nil]
    exact h
  | cons e events ih =>
    obtain ⟨he, hmore⟩ := List.forall_mem_cons.mp hspares
    have hnext : Tracked size (o.step e).session :=
      (tracked_run htracked (List.forall_mem_singleton.mpr he) : Tracked size (o.run [e]).session)
    cases e with
    | call c => exact ih hnext (h.call he) hmore
    | checkpoint =>
      have hrest := ih hnext (orderly_checkpoint htracked h) hmore
      rwa [List.append_assoc] at hrest

/-- The rack after a history is the rack before it with the deeds of the log performed. -/
theorem performed_run (htracked : Tracked size o.session) {events : List (Event α)}
    (hspares : ∀ e ∈ events, Event.Spares e) :
    o.session.mixer.rack.Performed (o.log events) (o.run events).session.mixer.rack := by
  induction events generalizing o with
  | nil => exact .nothing
  | cons e events ih =>
    obtain ⟨he, hmore⟩ := List.forall_mem_cons.mp hspares
    have hnext : Tracked size (o.step e).session :=
      (tracked_run htracked (List.forall_mem_singleton.mpr he) : Tracked size (o.run [e]).session)
    cases e with
    | call c =>
      have hcall : o.session.mixer.rack.Performed [] (o.session.call c).mixer.rack :=
        .automated .nothing (o.session.automated_call he)
      exact hcall.trans (ih hnext hmore)
    | checkpoint => exact (performed_checkpoint htracked.placed).trans (ih hnext hmore)

/-- At any time in any history in which nobody else works on the primitives: the deeds of the log,
and no others, have been performed on the rack; a primitive has been started, then stopped, then
released, as far as it has come, or it was released and nothing else; its record says just that; and
when no rebuild is running or asked for, the mixer has as its sources those of what sounds, all of
them started and none stopped. -/
theorem Observed.lives_of_run {rack : Rack α} {settings : Settings} {s : Session α}
    (hnew : Session.new rack settings = .ok s) {events : List (Event α)}
    (hspares : ∀ e ∈ events, Event.Spares e) :
    let past := log ⟨s, none, false⟩ events
    let now := (run ⟨s, none, false⟩ events).session
    s.mixer.rack.Performed past now.mixer.rack ∧
    (∀ id, (∃ time ended, Deed.actsOn past id <+: [.start time, .stop ended, .release]) ∨
      Deed.actsOn past id = [.release]) ∧
    (∀ id, now.mixer.rack.lifeOf id =
      (Deed.actsOn past id).foldl .after (s.mixer.rack.lifeOf id)) ∧
    (now.scheduler.state = .idle → now.mixer.sources = now.liveSources.map (⟨·, true⟩) ∧
      ∀ id ∈ now.liveSources, ∃ time, Deed.actsOn past id = [.start time] ∧
        now.mixer.rack.lifeOf id = ⟨some time, none, false⟩) := by
  intro past now
  have hbegun := Tracked.new hnew
  have htracked : Tracked s.mixer.rack.primitives.size now := tracked_run hbegun hspares
  have horderly : Orderly past now :=
    (orderly_run hbegun (.new hnew) hspares : Orderly ([] ++ past) now)
  have hperformed : s.mixer.rack.Performed past now.mixer.rack :=
    performed_run (o := ⟨s, none, false⟩) hbegun hspares
  have hlives : ∀ id, now.mixer.rack.lifeOf id = _ := hperformed.lifeOf_eq
  refine ⟨hperformed, fun id => ?_, hlives, fun hidle => ?_⟩
  · by_cases hid : id ∈ now.liveSources
    · exact .inl (horderly.sounding id hid).underway
    · rcases horderly.others id hid with hnone | hreleased | ⟨time, ended, hall⟩
      · rw [hnone]
        exact .inl Underway.nil
      · exact .inr hreleased
      · exact .inl ⟨time, ended, hall ▸ List.prefix_rfl⟩
  · have hreachable : Reachable (run ⟨s, none, false⟩ events) :=
      ⟨rack, settings, s, events, hnew, rfl⟩
    have hpass : now.pass = none := hreachable.current.idle hidle
    have hsources := htracked.sources
    unfold allStarted at hsources
    rw [hpass] at hsources
    refine ⟨hsources, fun id hid => ?_⟩
    have hlived := horderly.sounding id hid
    unfold Lived at hlived
    rw [hpass] at hlived
    obtain ⟨time, hacts⟩ := hlived
    -- it is no primitive of the master chain, so its life began unbegun
    have hunbegun : s.mixer.rack.lifeOf id = .unbegun := by
      obtain ⟨patch, hlive, hmem⟩ :=
        exists_live_of_mem_liveIds (mem_liveIds_of_mem_liveSources hid)
      have hnone : s.mixer.rack.primitive? id = none :=
        Array.getElem?_eq_none ((htracked.own.live patch hlive).2 id hmem)
      unfold Rack.lifeOf
      rw [hnone]
      rfl
    refine ⟨time, hacts, (hlives id).trans ?_⟩
    rw [hacts, hunbegun]
    rfl

/-- A tone is played, and built anew after a rebuild that could not be finished because gains were
refused. -/
def replayed : List (Event Float) :=
  [.call (.addNode .oscillator), .call (.addNode .universalOutput),
    .call (.connect ⟨"n1", "signal", "n2", "signal"⟩)] ++ List.replicate 10 .checkpoint ++
  [.call (.changeRack (·.refuse .gain)), .call .requestRebuild, .checkpoint,
    .call (.changeRack (·.accept .gain)), .call .requestRebuild] ++ List.replicate 5 .checkpoint

theorem spares_replayed : ∀ e ∈ replayed, Event.Spares e := by
  simp only [replayed, List.forall_mem_append, List.forall_mem_cons]
  refine ⟨⟨⟨⟨trivial, trivial, trivial, List.forall_mem_nil _⟩, Event.spares_checkpoints 10⟩,
    Call.spares_refuse .gain, trivial, trivial, Call.spares_accept .gain, trivial,
    List.forall_mem_nil _⟩, Event.spares_checkpoints 5⟩

/-- The tone that sounds at the end has been started. -/
theorem lives_of_replayed : ∃ s, Session.new (Rack.new 48000.0) {} = .ok s ∧
    (Observed.run ⟨s, none, false⟩ replayed).session.scheduler.state = .idle ∧
    (Observed.run ⟨s, none, false⟩ replayed).session.liveSources = [11] ∧
    ∃ time, (Observed.run ⟨s, none, false⟩ replayed).session.mixer.rack.lifeOf 11 =
      ⟨some time, none, false⟩ := by
  obtain ⟨s, hs⟩ : ∃ s, Session.new (Rack.new 48000.0) {} = .ok s := ⟨_, rfl⟩
  have hidle : (Observed.run ⟨s, none, false⟩ replayed).session.scheduler.state = .idle := by
    cases hs; decide +kernel
  have hlive : (Observed.run ⟨s, none, false⟩ replayed).session.liveSources = [11] := by
    cases hs; decide +kernel
  obtain ⟨-, -, -, hsounding⟩ := Observed.lives_of_run hs spares_replayed
  obtain ⟨time, -, hlife⟩ := (hsounding hidle).2 11 (hlive ▸ List.mem_singleton_self 11)
  exact ⟨s, hs, hidle, hlive, time, hlife⟩

end Session

end Patchbay
