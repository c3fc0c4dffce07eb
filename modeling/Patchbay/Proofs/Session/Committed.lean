import Patchbay.Proofs.Program.Built
import Patchbay.Proofs.Session.Settled
/-!
# Live and committed values

A live control can be given a number in two ways. A live change moves the parameter that sounds,
within the bounds of its primitive; a committed value is what the next build sets the parameter to,
and this is taken as it is. So the two agree exactly on the numbers within the bounds that the knob
of the control has (`Mixer.live_and_committed`).

What a build sets is read off the states of the primitives that it leaves (`Panel.level_tuned`).
Committing a live control changes one value on one panel, and neither what is built nor the bounds
of any knob (`Panel.reach_of_set`).
-/

namespace Patchbay

/-! ## What a build sets -/

/-- A kind with a live control has a primitive. -/
theorem Kind.outfit_pos_of_tuned {k : Kind} {key : String} {param : Param}
    (h : (key, param) ∈ k.tuned) : 0 < k.outfit.length := by
  cases k
  all_goals first | exact Nat.succ_pos _ | cases h

section

variable {α : Type} [Scalar α]

/-- The course of a parameter that is there has the level of the state of its primitive. -/
theorem Rack.map_valueAt_timeline? (rack : Rack α) (dial : Dial) (t : α) :
    (rack.timeline? dial).map (·.valueAt t) =
      ((rack.primitive? dial.primitive).map (·.stateAt t)).bind fun state =>
        (state.levels.find? (·.1 == dial.param)).map (·.2) := by
  unfold timeline?
  cases rack.primitive? dial.primitive with
  | none => rfl
  | some p =>
    simp only [Option.bind_some, Option.map_some, Primitive.stateAt, Primitive.timeline?,
      List.find?_map, Function.comp_def]
    cases p.timelines.find? (·.1 == dial.param) <;> rfl

/-- Every parameter of a compressor is at the number of its control. -/
theorem Panel.states_dynamicsCompressor (values : List (Control.Value α)) (level : String → α) :
    Panel.states ⟨.dynamicsCompressor, values⟩ level =
      [⟨.dynamicsCompressor, Kind.compressorDials.map fun (control, param) =>
        (param, number ⟨.dynamicsCompressor, values⟩ control)⟩] := rfl

/-- The parameter of a live control stands at the level of the socket that it is the inline value
of, or at its number when there is no such socket. -/
theorem Panel.level_tuned {panel : Panel α} {key : String} {param : Param}
    (h : (key, param) ∈ panel.kind.tuned) (level : String → α) :
    ((panel.states level)[0]?).bind (fun state =>
        (state.levels.find? (·.1 == param)).map (·.2)) =
      some (((panel.kind.socketOf? key).map (level ·.name)).getD (panel.number key)) := by
  obtain ⟨kind, values⟩ := panel
  cases kind
  case dynamicsCompressor =>
    rw [states_dynamicsCompressor]
    simp only [Kind.tuned, Kind.compressorDials] at h
    fin_cases h <;> rfl
  all_goals
    simp only [Kind.tuned] at h
    fin_cases h
    all_goals rfl

/-- A control whose inline value is in effect holds its parameter at its number. -/
theorem Graph.level_of_not_bypasses {g : Graph α} {n : Node α} {key : String}
    (h : g.bypasses n key = false) :
    ((n.kind.socketOf? key).map (g.levelOf n ·.name)).getD (n.panel.number key) =
      n.panel.number key := by
  unfold bypasses at h
  cases hsocket : n.kind.socketOf? key with
  | none => rfl
  | some s =>
    rw [hsocket] at h
    have hfound : n.panel.kind.input? s.name = some s :=
      Kind.input?_eq_some_iff.mpr ⟨List.mem_of_find?_eq_some hsocket, rfl⟩
    have hinline : s.inline = some key := by simpa using List.find?_some hsocket
    have hfree : g.isConnected n.id s.name = false := h
    show g.levelOf n s.name = _
    rw [levelOf, hfree, if_neg Bool.false_ne_true, Panel.inlineLevel, hfound, Option.bind_some,
      hinline, Option.getD_some]

end

/-- At a time that is past all its points, a parameter that is there has a value. -/
def Rack.Stands {α : Type} [Scalar α] (rack : Rack α) (dial : Dial) (t value : α) : Prop :=
  ∃ tl, rack.timeline? dial = some tl ∧ tl.Past t ∧ tl.valueAt t = value

theorem Rack.Stands.valueAt {α : Type} [Scalar α] {rack : Rack α} {dial : Dial} {t value : α}
    (h : rack.Stands dial t value) : rack.valueAt dial t = value := by
  obtain ⟨tl, htl, -, hvalue⟩ := h
  rw [valueAt_of_timeline? htl, hvalue]

open Assembly in
/-- When a graph could be built, the parameters that its knobs move stand at the numbers of their
controls from the time of building on. -/
theorem Graph.Sound.tuned_of_build {g : Graph Float} (hg : g.Sound) {master : PrimitiveId}
    {noise : Noise.Source Float} {rack : Rack Float} {patch : Patch Float}
    (hpatch : (g.build master noise rack .empty).outcome = .ok patch) :
    ∃ first : NodeId → PrimitiveId, ∀ n ∈ g.nodes, g.Upstream n.id →
      ∃ part, patch.part? n.id = some part ∧
        part.knobs = g.knobsOf n (first n.id) rack.sampleRate ∧
        ∀ key param, (key, param) ∈ n.kind.tuned → g.bypasses n key = false →
          ∀ t, rack.clock ≤ t → (g.build master noise rack .empty).rack.Stands
            ⟨first n.id, param⟩ t (n.panel.number key) := by
  have hwell := hg.wellFormed
  obtain ⟨order, first, b, hbuilt, rfl, -, horder, -, hlaid, -, hknobbed, hdescribed⟩ :=
    hwell.exists_laid_of_build hpatch
      (P := fun order first a =>
        Knobbed g rack order first a ∧ Described g rack order first a.voicing a)
      (fun h _ hn hnode hP => ⟨hP.1.step h hwell hn hnode, voicing_of_buildNode hnode ▸
        hP.2.step h hwell hn (Binary64.lt_irrefl _)
          ((hg.panels _ hn.there).greatest_amp) hnode⟩)
      ⟨⟨.begun rack .empty, fun _ hn => absurd hn List.not_mem_nil⟩, described_fresh g rack .empty⟩
  refine ⟨first, fun n hn hup => ?_⟩
  have hmem : n ∈ order := (horder n).mpr ⟨hn, hup⟩
  obtain ⟨part, hpart, hknobs⟩ := hknobbed.knobs n hmem
  refine ⟨part, by rw [part?_finish, if_pos (List.mem_map_of_mem hn)]; exact hpart, hknobs,
    fun key param htuned hinline t ht => ?_⟩
  have hplace : first n.id = firstIn order rack.primitives.size n.id + 0 := hdescribed.places n hmem
  have hlevel : (b.rack.timeline? ⟨first n.id, param⟩).map (·.valueAt t) =
      some (n.panel.number key) := by
    rw [Rack.map_valueAt_timeline?]
    dsimp only
    rw [hplace, hdescribed.arranged.state hmem (Kind.outfit_pos_of_tuned htuned) ht,
      Panel.level_tuned htuned]
    exact congrArg some (Graph.level_of_not_bypasses hinline)
  obtain ⟨tl, htl, hvalue⟩ := Option.map_eq_some_iff.mp hlevel
  refine ⟨tl, by rw [hbuilt]; exact htl, ?_, hvalue⟩
  obtain ⟨p, hp, hcourse⟩ := Option.bind_eq_some_iff.mp htl
  obtain ⟨entry, hentry, rfl⟩ := Option.map_eq_some_iff.mp hcourse
  have hlow : rack.primitives.size ≤ first n.id :=
    hplace ▸ Nat.le_add_right_of_le (start_le_firstIn _ _ _)
  exact fun point hpoint =>
    (hdescribed.quiet t ht _ p hlow hp entry (List.mem_of_find?_eq_some hentry) point hpoint).2

/-! ## What committing changes -/

section

variable {α : Type} [Scalar α]

/-- The name of a control that a panel takes a number for holds that number then. -/
theorem Panel.number_of_set {panel panel' : Panel α} (hpanel : panel.Accepted) {key : String}
    {v : α} (h : panel.set key (.number v) = .ok panel') : panel'.number key = v := by
  obtain ⟨c, hc, rfl, -⟩ := accepts_of_set h
  obtain ⟨old, hold, -⟩ := hpanel.exists_get? hc
  unfold number
  rw [get?_set h, if_pos rfl, hold]
  rfl

/-- The bounds of no knob depend on a live control. -/
theorem Panel.reach_of_set {panel panel' : Panel α} {key : String} {param : Param}
    {v : Control.Value α} (h : panel.set key v = .ok panel')
    (htuned : (key, param) ∈ panel.kind.tuned) (rate : α) (other : Param) :
    panel'.reach rate other = panel.reach rate other := by
  unfold reach
  rw [kind_of_set h]
  cases hkind : panel.kind
  case delay =>
    rw [hkind] at htuned
    have hkey : key = "delay" := (Prod.mk.inj (List.mem_singleton.mp htuned)).1
    have hlongest : panel'.get? "maxDelay" = panel.get? "maxDelay" :=
      get?_of_set h (hkey ▸ by decide)
    unfold number
    rw [hlongest]
  all_goals rfl

namespace Graph

variable {g g' : Graph α}

/-- Setting a control puts a panel with the value in place of the panel of the node. -/
theorem WellFormed.exists_set (hg : g.WellFormed) {n : Node α} (hn : n ∈ g.nodes) {key : String}
    {v : Control.Value α} (h : g.setControl n.id key v = .ok g') :
    ∃ panel, n.panel.set key v = .ok panel ∧ { n with panel } ∈ g'.nodes ∧
      g'.nodes.map signature = g.nodes.map signature ∧ g'.connections = g.connections := by
  unfold Graph.setControl at h
  split at h
  next => cases h
  next place node hlocated =>
    obtain ⟨hplace, hid⟩ := hg.located?_eq_some_iff.mp hlocated
    obtain rfl : node = n := hg.eq_of_id_eq (List.mem_of_getElem? hplace) hn hid
    split at h
    next => cases h
    next panel hpanel =>
      cases h
      obtain ⟨hlt, -⟩ := List.getElem?_eq_some_iff.mp hplace
      exact ⟨panel, hpanel, List.mem_iff_getElem.mpr ⟨place, by rwa [List.length_set],
        List.getElem_set_self _⟩, WellFormed.signatures_set hplace hpanel, rfl⟩

omit [Scalar α] in
theorem feeds_congr (h : g'.connections = g.connections) : g'.Feeds = g.Feeds := by
  unfold Feeds
  rw [h]

omit [Scalar α] in
theorem bypasses_congr (h : g'.connections = g.connections) {n n' : Node α} (hid : n'.id = n.id)
    (hkind : n'.kind = n.kind) (key : String) : g'.bypasses n' key = g.bypasses n key := by
  unfold bypasses isConnected connectionsInto
  rw [h, hid, hkind]

omit [Scalar α] in
theorem upstream_iff_signature {id : NodeId} : g.Upstream id ↔
    ∃ entry ∈ g.nodes.map signature, entry.2.isSink = true ∧
      Relation.ReflTransGen g.Feeds id entry.1 := by
  simp only [Upstream, sinks, List.mem_filter, List.mem_map, signature, exists_exists_and_eq_and,
    and_assoc]

omit [Scalar α] in
/-- What is upstream is told by names, kinds and connections. -/
theorem upstream_congr (hnodes : g'.nodes.map signature = g.nodes.map signature)
    (hconnections : g'.connections = g.connections) (id : NodeId) :
    g'.Upstream id ↔ g.Upstream id := by
  rw [upstream_iff_signature, upstream_iff_signature, hnodes, feeds_congr hconnections]

/-- Where a graph could be built, so can one with the same names, kinds and connections. -/
theorem Sound.exists_patch_congr (hg : g.Sound) (hg' : g'.Sound)
    (hnodes : g'.nodes.map signature = g.nodes.map signature)
    (hconnections : g'.connections = g.connections) {master master' : PrimitiveId}
    {noise noise' : Noise.Source α} {rack rack' : Rack α} (hrefused : rack'.refused = rack.refused)
    {voicing voicing' : Voicing α} {patch : Patch α}
    (hpatch : (g.build master noise rack voicing).outcome = .ok patch) :
    ∃ patch', (g'.build master' noise' rack' voicing').outcome = .ok patch' := by
  obtain ⟨hacyclic, haccepted⟩ := hg.exists_patch_iff.mp ⟨patch, hpatch⟩
  refine hg'.exists_patch_iff.mpr ⟨fun id hup => ?_, fun n hn hup f hf => ?_⟩
  · rw [feeds_congr hconnections]
    exact hacyclic id ((upstream_congr hnodes hconnections id).mp hup)
  · have hhas : (n.id, n.kind) ∈ g'.nodes.map signature := List.mem_map_of_mem hn
    obtain ⟨m, hm, hid, hkind⟩ := has_iff.mp (hnodes ▸ hhas)
    rw [hrefused]
    exact haccepted m hm (hid ▸ (upstream_congr hnodes hconnections n.id).mp hup) f (hkind ▸ hf)

end Graph

end

/-! ## Agreement -/

/-- A number that a control accepts is within its bounds already. -/
theorem Control.Domain.clamp_of_accepts {α : Type} [Scalar α] {d : Control.Domain α} {x : α}
    (h : d.Accepts (.number x)) : d.clamp x = x := by
  cases d with
  | number standard range =>
    obtain ⟨-, hrange⟩ := accepts_number_iff.mp h
    rw [not_or] at hrange
    simp only [clamp, Range.clamp, Scalar.clamp, if_neg hrange.1, if_neg hrange.2]
  | _ => rfl

/-- A number that a live control accepts is finite and within the bounds of the control. -/
theorem Kind.holds_of_accepts {k : Kind} {c : Control Float} (hc : c ∈ k.controls)
    (hlive : c.live = true) {v : Float} (h : c.domain.Accepts (.number v)) :
    v.isFinite = true ∧ ∃ range, c.domain.range? = some range ∧ range.Holds v := by
  obtain ⟨param, htuned⟩ := exists_tuned hc hlive
  obtain ⟨range, hrange, hproper, -⟩ := exists_range hc hlive htuned
  cases hdomain : c.domain with
  | number standard bounds =>
    rw [hdomain] at h hrange
    cases hrange
    obtain ⟨hfinite, hbounds⟩ := Control.Domain.accepts_number_iff.mp h
    rw [not_or] at hbounds
    have hself := Binary64.beq_self_of_isFinite hfinite
    exact ⟨hfinite, range, rfl,
      (Scalar.Comparable.le_or_lt hproper.low hself).resolve_right hbounds.1,
      (Scalar.Comparable.le_or_lt hself hproper.high).resolve_right hbounds.2⟩
  | _ =>
    rw [hdomain] at hrange
    cases hrange

/-- What the controls of a compressor and the gain of a universal output accept lies within the
bounds of their parameters. -/
theorem Kind.holds_reach {panel : Panel Float} (hkind : panel.kind = .dynamicsCompressor ∨
    panel.kind = .universalOutput) {c : Control Float} (hc : c ∈ panel.kind.controls)
    (hlive : c.live = true) {param : Param} (htuned : (c.key, param) ∈ panel.kind.tuned) {v : Float}
    (h : c.domain.Accepts (.number v)) (rate : Float) : (panel.reach rate param).Holds v := by
  have hreach : panel.reach rate param = Panel.reach ⟨panel.kind, []⟩ 1.0 param := by
    have hparam : param ≠ .frequency := by
      rintro rfl
      rcases hkind with hkind | hkind <;> simp [hkind, tuned, compressorDials] at htuned
    rw [panel.reach_congr hparam rate 1.0]
    obtain ⟨kind, values⟩ := panel
    obtain rfl | rfl : kind = .dynamicsCompressor ∨ kind = .universalOutput := hkind <;> rfl
  have hall : ∀ k : Kind, k = .dynamicsCompressor ∨ k = .universalOutput →
      ∀ c ∈ k.controls (α := Float), c.live = true → ∀ entry ∈ k.tuned, entry.1 = c.key →
        c.domain.range?.all fun range =>
          decide ((Panel.reach ⟨k, []⟩ 1.0 entry.2).low ≤ range.low) &&
            decide (range.high ≤ (Panel.reach ⟨k, []⟩ 1.0 entry.2).high) := by
    intro k
    cases k <;> decide +kernel
  obtain ⟨-, range, hrange, hholds⟩ := holds_of_accepts hc hlive h
  have hwithin := hall _ hkind c hc hlive _ htuned rfl
  rw [hrange, Option.all_some, Bool.and_eq_true, decide_eq_true_eq, decide_eq_true_eq] at hwithin
  rw [hreach]
  exact ⟨Scalar.Ordered.le_trans hwithin.1 hholds.1, Scalar.Ordered.le_trans hholds.2 hwithin.2⟩

/-- A part with the knobs that the graph tells has one for each control that is in effect. -/
theorem Graph.knob?_of_knobs {α : Type} [Scalar α] {g : Graph α} {n : Node α}
    {first : PrimitiveId} {rate : α} {part : Part α} (h : part.knobs = g.knobsOf n first rate)
    {key : String} {param : Param} (htuned : (key, param) ∈ n.kind.tuned)
    (hinline : g.bypasses n key = false) :
    part.knob? key = some ⟨key, ⟨first, param⟩, n.panel.reach rate param⟩ := by
  rw [Part.knob?, h, knobsOf, Panel.find?_knobs htuned _ _ (!g.bypasses n ·), hinline]
  rfl

namespace Mixer

variable {g g' : Graph Float} {m built : Mixer Float} {patch : Patch Float}
  {voicing : Voicing Float} {n : Node Float} {c : Control Float} {v : Float}

/-- When a graph could be built on a mixer, the control of a node that is in effect has a knob, and
the parameter of this stands at the number of the control. -/
theorem exists_knob_of_build (hg : g.Sound)
    (hbuilt : m.build g .empty = (.ok patch, built, voicing)) (hn : n ∈ g.nodes)
    (hup : g.Upstream n.id) {key : String} {param : Param} (htuned : (key, param) ∈ n.kind.tuned)
    (hinline : g.bypasses n key = false) :
    ∃ first, (patch.part? n.id).bind (·.knob? key) =
        some ⟨key, ⟨first, param⟩, n.panel.reach m.rack.sampleRate param⟩ ∧
      ∀ t, m.rack.clock ≤ t → built.rack.Stands ⟨first, param⟩ t (n.panel.number key) := by
  have hpatch : (g.build m.master m.noise m.rack .empty).outcome = .ok patch :=
    congrArg (·.1) hbuilt
  have hrack : (g.build m.master m.noise m.rack .empty).rack = built.rack :=
    congrArg (·.2.1.rack) hbuilt
  obtain ⟨first, hfirst⟩ := hg.tuned_of_build hpatch
  obtain ⟨part, hpart, hknobs, hstands⟩ := hfirst n hn hup
  refine ⟨first n.id, ?_, fun t ht => hrack ▸ hstands key param htuned hinline t ht⟩
  rw [hpart, Option.bind_some, Graph.knob?_of_knobs hknobs htuned hinline]

theorem clock_of_build (hbuilt : m.build g .empty = (.ok patch, built, voicing)) :
    built.rack.clock = m.rack.clock := by
  have hrack : (g.build m.master m.noise m.rack .empty).rack = built.rack :=
    congrArg (·.2.1.rack) hbuilt
  rw [← hrack, (Graph.extends_build : m.rack.Extends _).rest]

/-- When a number is committed, the next build gives the control a knob with the bounds that it had,
and leaves the parameter at the number. -/
theorem committed_of_build (hg : g.Sound)
    (hbuilt : m.build g .empty = (.ok patch, built, voicing)) (hn : n ∈ g.nodes)
    (hup : g.Upstream n.id) {key : String} {param : Param} (htuned : (key, param) ∈ n.kind.tuned)
    (hinline : g.bypasses n key = false) (hset : g.setControl n.id key (.number v) = .ok g')
    {m' : Mixer Float} (hrate : m'.rack.sampleRate = m.rack.sampleRate)
    (hrefused : m'.rack.refused = m.rack.refused) :
    ∃ patch' built' voicing' dial, m'.build g' .empty = (.ok patch', built', voicing') ∧
      (patch'.part? n.id).bind (·.knob? key) =
        some ⟨key, dial, n.panel.reach m.rack.sampleRate param⟩ ∧
      ∀ t, m'.rack.clock ≤ t → built'.rack.valueAt dial t = v := by
  obtain ⟨panel, hpanel, hn', hnodes, hconnections⟩ := hg.wellFormed.exists_set hn hset
  have hg' : g'.Sound := hg.setControl hset
  have hkind : panel.kind = n.kind := Panel.kind_of_set hpanel
  have hinline' : g'.bypasses { n with panel } key = false :=
    (Graph.bypasses_congr hconnections (show ({ n with panel } : Node Float).id = n.id from rfl)
      hkind _).trans hinline
  have hpatch : (g.build m.master m.noise m.rack .empty).outcome = .ok patch :=
    congrArg (·.1) hbuilt
  obtain ⟨patch', hpatch'⟩ :
      ∃ patch', (g'.build m'.master m'.noise m'.rack .empty).outcome = .ok patch' :=
    hg.exists_patch_congr hg' hnodes hconnections hrefused hpatch
  have hbuilt' : m'.build g' .empty = (.ok patch', (m'.build g' .empty).2) :=
    congrArg (·, _) hpatch'
  obtain ⟨first, hknob, hstands⟩ := exists_knob_of_build hg' hbuilt' hn'
    ((Graph.upstream_congr hnodes hconnections n.id).mpr hup)
    (show (key, param) ∈ panel.kind.tuned from hkind ▸ htuned) hinline'
  refine ⟨patch', _, _, ⟨first, param⟩, hbuilt', ?_, fun t ht => ?_⟩
  · rw [← Panel.reach_of_set hpanel htuned, ← hrate]
    exact hknob
  · rw [(hstands t ht).valueAt]
    exact Panel.number_of_set (hg.panels n hn) hpanel

end Mixer

namespace Session

/-- A session that plays a graph, built into a patch on a rack, in which a parameter is as it was
built: it may have gone on since, and a ramp does not end before it begins. -/
structure Performs {α : Type} [Scalar α] (s : Session α) (g : Graph α) (patch : Patch α)
    (rack : Rack α) (dial : Dial) : Prop where
  graph : s.graph = g
  live : s.live = some patch
  course : s.mixer.rack.timeline? dial = rack.timeline? dial
  clock : rack.clock ≤ s.mixer.rack.clock
  ramp : s.mixer.rack.clock ≤ s.mixer.rack.clock + Scalar.ofMilliseconds s.settings.ramp

/-- A live change of a parameter that stands as it was built leads to the number taken into the
bounds of the knob. -/
theorem Performs.updateLive {s : Session Float} {g : Graph Float} {patch : Patch Float}
    {rack : Rack Float} {dial : Dial} (h : s.Performs g patch rack dial) (hg : g.WellFormed)
    {n : Node Float} (hn : n ∈ g.nodes) {c : Control Float} (hc : c ∈ n.kind.controls)
    (hlive : c.live = true) (hinline : g.bypasses n c.key = false) {range : Range Float}
    (hknob : (patch.part? n.id).bind (·.knob? c.key) = some ⟨c.key, dial, range⟩)
    (hstands : ∀ t, rack.clock ≤ t → rack.Stands dial t (n.panel.number c.key)) {v : Float}
    (haccepts : c.domain.Accepts (.number v)) :
    ∃ after, s.updateLive n.id c.key v = .ok (.applied (range.clamp v), after) ∧
      ∀ t, s.mixer.rack.clock + Scalar.ofMilliseconds s.settings.ramp ≤ t →
        after.mixer.rack.valueAt dial t = range.clamp v := by
  obtain ⟨tl, htl, hpast, -⟩ := hstands _ h.clock
  have hnode : s.graph.node? n.id = some n := h.graph ▸ hg.node?_eq_some_iff.mpr ⟨hn, rfl⟩
  have hfound : s.knob? n.id c.key = some ⟨c.key, dial, range⟩ := by
    unfold knob?
    rw [h.live]
    exact hknob
  rw [updateLive_eq hnode hc hlive (Kind.holds_of_accepts hc hlive haccepts).1, h.graph, hinline,
    hfound, Control.Domain.clamp_of_accepts haccepts]
  refine ⟨_, rfl, fun t ht => ?_⟩
  show (Rack.rampTo _ _ _ _).valueAt _ t = _
  rw [Rack.valueAt_of_timeline? (Rack.timeline?_rampTo (h.course.trans htl) _ _)]
  exact Timeline.valueAt_ramp_of_past hpast h.ramp ht _

end Session

namespace Mixer

/-- Of a graph that was built, a live control that is in effect has a knob, and to a number that the
control accepts this does two things. A live change ends at the number taken into the bounds of the
knob; and when the number is committed, every build on such a rack succeeds, gives the control a
knob with the same bounds, and leaves the parameter at the number as it is. So on a rack of positive
rate the two agree exactly on the numbers within the bounds, which for a compressor and a universal
output are all that the control accepts. -/
theorem live_and_committed {g g' : Graph Float} (hg : g.Reachable) {m built : Mixer Float}
    {patch : Patch Float} {voicing : Voicing Float}
    (hbuilt : m.build g .empty = (.ok patch, built, voicing)) {n : Node Float} (hn : n ∈ g.nodes)
    (hpart : (patch.part? n.id).isSome) {c : Control Float} (hc : c ∈ n.kind.controls)
    (hlive : c.live = true) (hinline : g.bypasses n c.key = false) {v : Float}
    (hset : g.setControl n.id c.key (.number v) = .ok g') :
    ∃ dial range, (patch.part? n.id).bind (·.knob? c.key) = some ⟨c.key, dial, range⟩ ∧
      (∀ s : Session Float, s.Performs g patch built.rack dial →
        ∃ after, s.updateLive n.id c.key v = .ok (.applied (range.clamp v), after) ∧
          ∀ t, s.mixer.rack.clock + Scalar.ofMilliseconds s.settings.ramp ≤ t →
            after.mixer.rack.valueAt dial t = range.clamp v) ∧
      (∀ m' : Mixer Float, m'.rack.sampleRate = m.rack.sampleRate →
        m'.rack.refused = m.rack.refused →
        ∃ patch' built' voicing' dial', m'.build g' .empty = (.ok patch', built', voicing') ∧
          (patch'.part? n.id).bind (·.knob? c.key) = some ⟨c.key, dial', range⟩ ∧
          ∀ t, m'.rack.clock ≤ t → built'.rack.valueAt dial' t = v) ∧
      (0.0 < m.rack.sampleRate → (range.clamp v = v ↔ range.Holds v)) ∧
      (n.kind = .dynamicsCompressor ∨ n.kind = .universalOutput → range.Holds v) := by
  have hsound := hg.sound
  obtain ⟨param, htuned⟩ := Kind.exists_tuned hc hlive
  obtain ⟨panel, hpanel, -⟩ := hsound.wellFormed.exists_set hn hset
  have haccepts : c.domain.Accepts (.number v) := by
    obtain ⟨c', hc', hkey, haccepts⟩ := Panel.accepts_of_set hpanel
    exact Kind.control?_eq_of_mem (Kind.control?_of_mem hc) hc' hkey ▸ haccepts
  have hup : g.Upstream n.id :=
    hsound.wellFormed.upstream_of_part (congrArg (·.1) hbuilt) hn hpart
  obtain ⟨first, hknob, hstands⟩ := exists_knob_of_build hsound hbuilt hn hup htuned hinline
  rw [← clock_of_build hbuilt] at hstands
  refine ⟨⟨first, param⟩, n.panel.reach m.rack.sampleRate param, hknob,
    fun s hs => hs.updateLive hsound.wellFormed hn hc hlive hinline hknob hstands haccepts,
    fun m' => committed_of_build hsound hbuilt hn hup htuned hinline hset,
    fun hrate => Range.clamp_eq_self_iff (Panel.proper_reach hrate n.panel param) ?_,
    fun hkind => Kind.holds_reach hkind hc hlive htuned haccepts _⟩
  exact Binary64.beq_self_of_isFinite (Kind.holds_of_accepts hc hlive haccepts).1

/-- An oscillator that is heard. -/
def heardTone : Graph Float :=
  Graph.empty.run [.addNode .oscillator, .addNode .audioOutput,
    .connect ⟨"n1", "signal", "n2", "signal"⟩]

/-- The same with a frequency above half of the usual rate. -/
def shrillTone : Graph Float := heardTone.edit (.setControl "n1" "baseFreq" (.number 30000.0))

theorem setControl_heardTone :
    heardTone.setControl "n1" "baseFreq" (.number 30000.0) = .ok shrillTone := by
  have hset : (heardTone.setControl "n1" "baseFreq" (.number 30000.0)).toOption.isSome = true := by
    decide +kernel
  cases h : heardTone.setControl "n1" "baseFreq" (.number 30000.0) with
  | error fault =>
    rw [h] at hset
    cases hset
  | ok g' =>
    unfold shrillTone
    simp only [Graph.edit, h]
    rfl

/-- A session in which the oscillator has been made and is heard. -/
def hearing (s : Session Float) : Session Float :=
  (Session.Observed.run ⟨s, none, false⟩ <|
    [.call (.addNode .oscillator), .call (.addNode .audioOutput),
      .call (.connect ⟨"n1", "signal", "n2", "signal"⟩)] ++
    List.replicate 5 .checkpoint).session

set_option maxRecDepth 4000 in
/-- A frequency above half the rate is taken down by a live change and committed as it is. -/
theorem live_ne_committed_heardTone : heardTone.Reachable ∧
    heardTone.setControl "n1" "baseFreq" (.number 30000.0) = .ok shrillTone ∧
    ∃ s, Session.new (Rack.new 48000.0) {} = .ok s ∧
    ∃ patch built voicing, s.mixer.build heardTone .empty = (.ok patch, built, voicing) ∧
    (hearing s).Performs heardTone patch built.rack ⟨2, .frequency⟩ ∧
    (∃ w after, (hearing s).updateLive "n1" "baseFreq" 30000.0 = .ok (.applied w, after) ∧
      after.mixer.rack.valueAt ⟨2, .frequency⟩ 1.0 = 24000.0) ∧
    ((s.mixer.build shrillTone .empty).1.toOption.bind fun patch =>
      ((patch.part? "n1").bind (·.knob? "baseFreq")).map (·.dial)) = some ⟨2, .frequency⟩ ∧
    (s.mixer.build shrillTone .empty).2.1.rack.valueAt ⟨2, .frequency⟩ 1.0 = 30000.0 := by
  refine ⟨⟨_, rfl⟩, setControl_heardTone, _, rfl, _, _, _, rfl, ⟨rfl, rfl, rfl, ?_, ?_⟩,
    ⟨_, _, rfl, ?_⟩, ?_, ?_⟩ <;>
  decide +kernel

/-- On a rack of the usual rate, a live change to that frequency ends within the bounds of the knob,
and a build after committing it leaves it. -/
theorem live_and_committed_heardTone : ∃ m, Mixer.new (Rack.new 48000.0) 1.0 ⟨2.0, 1⟩ = .ok m ∧
    ∃ patch built voicing, m.build heardTone .empty = (.ok patch, built, voicing) ∧
    ∃ (dial : Dial) (range : Range Float),
      (∀ s : Session Float, s.Performs heardTone patch built.rack dial → ∃ after, s.updateLive
          "n1" "baseFreq" 30000.0 = .ok (.applied (range.clamp 30000.0), after)) ∧
      (∃ patch' built' voicing' dial', m.build shrillTone .empty = (.ok patch', built', voicing') ∧
        ∀ t, m.rack.clock ≤ t → built'.rack.valueAt dial' t = 30000.0) ∧
      (range.clamp 30000.0 = 30000.0 ↔ range.Holds 30000.0) := by
  obtain ⟨m, hm⟩ : ∃ m, Mixer.new (Rack.new (48000.0 : Float)) 1.0 ⟨2.0, 1⟩ = .ok m := ⟨_, rfl⟩
  obtain ⟨⟨patch, hpatch⟩, hsounds, hrate⟩ :
      (∃ patch, (m.build heardTone .empty).1 = .ok patch) ∧
      (∀ patch, (m.build heardTone .empty).1 = .ok patch → (patch.part? "n1").isSome) ∧
      (0.0 : Float) < m.rack.sampleRate := by
    cases hm
    refine ⟨⟨_, rfl⟩, fun patch hpatch => ?_, by decide +kernel⟩
    cases hpatch
    rfl
  have hbuilt : m.build heardTone .empty = (.ok patch, (m.build heardTone .empty).2) :=
    congrArg (·, _) hpatch
  obtain ⟨⟨_, panel⟩, htone, rfl, hkind⟩ :
      ∃ n ∈ heardTone.nodes, n.id = "n1" ∧ n.kind = .oscillator := by decide +kernel
  have hfrequency : (Control.number "baseFreq" "Base Frequency" (440.0 : Float)).alive ∈
      Kind.oscillator.controls := List.mem_cons_self
  have hinline : heardTone.bypasses ⟨"n1", panel⟩ "baseFreq" = false :=
    (Graph.bypasses_mk hkind "baseFreq").trans (by decide +kernel)
  have hg : heardTone.Reachable := ⟨_, rfl⟩
  obtain ⟨dial, range, -, hmoved, hcommitted, hagree, -⟩ :=
    live_and_committed hg (c := (Control.number "baseFreq" "Base Frequency" 440.0).alive) hbuilt
      htone (hsounds patch hpatch) (hkind ▸ hfrequency) rfl hinline setControl_heardTone
  obtain ⟨patch', built', voicing', dial', hbuilt', -, hvalue⟩ := hcommitted m rfl rfl
  refine ⟨m, hm, patch, _, _, hbuilt, dial, range, fun s hs => ?_,
    ⟨patch', built', voicing', dial', hbuilt', hvalue⟩, hagree hrate⟩
  obtain ⟨after, hupdated, -⟩ := hmoved s hs
  exact ⟨after, hupdated⟩

end Mixer

end Patchbay
