import Patchbay.Proofs.Patch.Frame
import Patchbay.Proofs.Patch.Wiring
import Patchbay.Proofs.Range
/-!
# Knobs

Which knobs a node has once it is built. Every live control of its kind moves one parameter of its
first primitive (`Kind.tuned`), within a range that the panel and the rate of the rack say
(`Panel.reach`), unless it is the inline value of a socket that is connected
(`Kind.knobs_of_blueprint`). So the knobs of what was built are told by the graph
(`Graph.WellFormed.knobs_of_build`).
-/

namespace Patchbay

variable {α : Type}

/-- Whether a control is the inline value of a socket that is connected. -/
def Graph.bypasses (g : Graph α) (n : Node α) (key : String) : Bool :=
  (n.kind.socketOf? key).any fun s => g.isConnected n.id s.name

theorem Graph.bypasses_mk {g : Graph α} {id : NodeId} {panel : Panel α} {k : Kind}
    (hkind : panel.kind = k) (key : String) : g.bypasses ⟨id, panel⟩ key =
      (k.socketOf? key).any fun s => g.isConnected id s.name := by
  unfold Graph.bypasses
  exact congrArg (fun k : Kind => (k.socketOf? key).any _) hkind

namespace Kind

/-- The live controls of a kind, each with the parameter that it moves. -/
def tuned : Kind → List (String × Param)
  | .constant => [("value", .offset)]
  | .oscillator => [("baseFreq", .frequency)]
  | .gain | .universalOutput => [("gain", .gain)]
  | .biquadFilter => [("freq", .frequency), ("q", .q), ("gain", .gain)]
  | .delay => [("delay", .delayTime)]
  | .dynamicsCompressor => compressorDials
  | _ => []

theorem nodup_tuned (k : Kind) : (k.tuned.map (·.1)).Nodup := by
  cases k <;> decide

variable [Scalar α]

theorem map_fst_tuned (k : Kind) :
    k.tuned.map (·.1) = ((k.controls (α := α)).filter (·.live)).map (·.key) := by
  cases k <;> rfl

/-- A live control moves a parameter. -/
theorem exists_tuned {k : Kind} {c : Control α} (hc : c ∈ k.controls) (hlive : c.live = true) :
    ∃ param, (c.key, param) ∈ k.tuned := by
  have hkey : c.key ∈ k.tuned.map (·.1) := by
    rw [map_fst_tuned (α := α)]
    exact List.mem_map_of_mem (List.mem_filter.mpr ⟨hc, hlive⟩)
  obtain ⟨⟨_, param⟩, htuned, rfl⟩ := List.mem_map.mp hkey
  exact ⟨param, htuned⟩

end Kind

namespace Panel

variable [Scalar α]

/-- The values that a live control can give to the parameter that it moves, on a rack of some
rate. -/
def reach (panel : Panel α) (rate : α) (param : Param) : Range α :=
  match panel.kind with
  | .delay => ⟨0.0, Scalar.greatest (panel.number "maxDelay") 1.0⟩
  | .universalOutput => ⟨0.0, 1.0⟩
  | _ => param.range rate

/-- A knob for every live control of a node whose first primitive is given. -/
def knobs (panel : Panel α) (first : PrimitiveId) (rate : α) : List (Knob α) :=
  panel.kind.tuned.map fun (key, param) => ⟨key, ⟨first, param⟩, panel.reach rate param⟩

/-- Only the range of a frequency depends on the rate. -/
theorem reach_congr (panel : Panel α) {param : Param} (h : param ≠ .frequency) (rate rate' : α) :
    panel.reach rate param = panel.reach rate' param := by
  unfold reach
  split
  next => rfl
  next => rfl
  next => exact Param.range_congr h rate rate'

theorem reach_frequency {panel : Panel α} {key : String}
    (h : (key, .frequency) ∈ panel.kind.tuned) (rate : α) :
    panel.reach rate .frequency = Param.frequency.range rate := by
  unfold reach
  split
  next hkind => simp [hkind, Kind.tuned] at h
  next hkind => simp [hkind, Kind.tuned] at h
  next => rfl

/-- Of the knobs of which some are left out, the one with a key. -/
theorem find?_knobs {panel : Panel α} {key : String} {param : Param}
    (h : (key, param) ∈ panel.kind.tuned) (first : PrimitiveId) (rate : α) (keep : String → Bool) :
    ((panel.knobs first rate).filter (keep ·.control)).find? (·.control == key) =
      if keep key then some ⟨key, ⟨first, param⟩, panel.reach rate param⟩ else none := by
  have hmem : (⟨key, ⟨first, param⟩, panel.reach rate param⟩ : Knob α) ∈ panel.knobs first rate :=
    List.mem_map.mpr ⟨_, h, rfl⟩
  split
  next hkeep =>
    have hsome : (((panel.knobs first rate).filter (keep ·.control)).find?
        (·.control == key)).isSome :=
      List.find?_isSome.mpr ⟨_, List.mem_filter.mpr ⟨hmem, hkeep⟩, beq_self_eq_true key⟩
    obtain ⟨knob, hknob⟩ := Option.isSome_iff_exists.mp hsome
    have hkey : knob.control = key := by simpa using List.find?_some hknob
    obtain ⟨hfound, -⟩ := List.mem_filter.mp (List.mem_of_find?_eq_some hknob)
    obtain ⟨entry, hentry, rfl⟩ := List.mem_map.mp hfound
    obtain rfl : entry = (key, param) :=
      List.inj_on_of_nodup_map panel.kind.nodup_tuned hentry h hkey
    exact hknob
  next hkeep =>
    rw [List.find?_eq_none]
    intro knob hknob heq
    have hkey : knob.control = key := by simpa using heq
    exact hkeep (hkey ▸ (List.mem_filter.mp hknob).2)

end Panel

/-! ## Bounds -/

/-- What a live control can give to its parameter is a range, at any positive rate. -/
theorem Panel.proper_reach {rate : Float} (h : 0.0 < rate) (panel : Panel Float) (param : Param) :
    (panel.reach rate param).Proper := by
  unfold reach
  split
  next =>
    have hlongest := Scalar.Comparable.le_greatest_right (a := panel.number "maxDelay")
      (b := (1.0 : Float)) (by decide +kernel)
    exact Binary64.proper_of_le
      (Scalar.Ordered.le_trans (by decide +kernel : (0.0 : Float) ≤ 1.0) hlongest)
  next => exact Binary64.proper_of_le (by decide +kernel : (0.0 : Float) ≤ 1.0)
  next => exact Param.proper_range h param

/-- The bounds of the numbers in a domain. -/
def Control.Domain.range? : Control.Domain α → Option (Range α)
  | .number _ range => some range
  | _ => none

theorem Control.Domain.clamp_eq [Scalar α] {d : Control.Domain α} {range : Range α}
    (h : d.range? = some range) (x : α) : d.clamp x = range.clamp x := by
  cases d <;> cases h
  rfl

/-- A live control takes the numbers of a range, within which what it can give to its parameter
begins. -/
theorem Kind.exists_range {k : Kind} {c : Control Float} (hc : c ∈ k.controls)
    (hlive : c.live = true) {param : Param} (hparam : (c.key, param) ∈ k.tuned) :
    ∃ range, c.domain.range? = some range ∧ range.Proper ∧
      ∀ panel : Panel Float, panel.kind = k → ∀ rate, range.Holds (panel.reach rate param).low := by
  let low (k : Kind) (param : Param) : Float := (Panel.reach ⟨k, []⟩ 1.0 param).low
  -- where it begins depends on the kind and the parameter only
  have hlow : ∀ (panel : Panel Float) rate,
      (panel.reach rate param).low = low panel.kind param := by
    rintro ⟨k, values⟩ rate
    cases k <;> cases param <;> rfl
  have hall : ∀ k : Kind, ∀ c ∈ k.controls (α := Float), c.live = true →
      ∀ entry ∈ k.tuned, entry.1 = c.key → c.domain.range?.any fun range =>
        decide (range.low ≤ range.high) && decide (range.Holds (low k entry.2)) := by
    intro k
    cases k <;> decide +kernel
  obtain ⟨range, hrange, hholds⟩ := (Option.any_eq_true _ _).mp (hall k c hc hlive _ hparam rfl)
  rw [Bool.and_eq_true, decide_eq_true_eq, decide_eq_true_eq] at hholds
  refine ⟨range, hrange, Binary64.proper_of_le hholds.1, fun panel hkind rate => ?_⟩
  rw [hlow, hkind]
  exact hholds.2

/-! ## Blueprints -/

/-- A node that is built has a knob for each of its live controls but those of connected sockets. -/
theorem Kind.knobs_of_blueprint [Scalar α] {panel : Panel α} {site : Site α} {plan : Blueprint α}
    (h : blueprint panel site = .ok plan) :
    plan.part.knobs = (panel.knobs site.next site.sampleRate).filter fun knob =>
      (panel.kind.socketOf? knob.control).all fun s => (site.inputs s.name).isEmpty := by
  obtain ⟨kind, values⟩ := panel
  cases kind
  case keyboardAdsr =>
    obtain ⟨key, rfl⟩ := steps_keyboardAdsr h
    rfl
  case oscillator =>
    cases h
    by_cases hbase : site.inputs "baseFrequency" = [] <;>
      simp [driven, Socket.knobs, Socket.usesInline, Panel.knobs, tuned, Panel.reach, socketOf?,
        inputs, baseFrequency, Socket.base, hbase]
  case gain =>
    cases h
    by_cases hgain : site.inputs "gain" = [] <;>
      simp [driven, Socket.knobs, Socket.usesInline, Panel.knobs, tuned, Panel.reach, socketOf?,
        inputs, signalIn, Socket.signalInput, gainLevel, Socket.additive, hgain]
  case biquadFilter =>
    cases h
    by_cases hfrequency : site.inputs "frequency" = [] <;>
      by_cases hq : site.inputs "q" = [] <;> by_cases hgain : site.inputs "gain" = [] <;>
      simp [driven, Socket.knobs, Socket.usesInline, Panel.knobs, tuned, Panel.reach, socketOf?,
        inputs, signalIn, Socket.signalInput, filterFrequency, filterQ, gainLevel, Socket.additive,
        hfrequency, hq, hgain]
  case delay =>
    cases h
    by_cases htime : site.inputs "delayTime" = [] <;>
      simp [driven, Socket.knobs, Socket.usesInline, Panel.knobs, tuned, Panel.reach, socketOf?,
        inputs, signalIn, Socket.signalInput, delayTime, Socket.base, htime]
  all_goals
    cases h
    rfl

/-! ## What was built -/

section

variable [Scalar α] {g : Graph α} {master : PrimitiveId} {noise : Noise.Source α} {rack : Rack α}
  {order : List (Node α)} {first : NodeId → PrimitiveId} {a a' : Assembly α} {n : Node α}

/-- The knobs of a node that is built at a place: one for each live control that is in effect. -/
def Graph.knobsOf (g : Graph α) (n : Node α) (first : PrimitiveId) (rate : α) : List (Knob α) :=
  (n.panel.knobs first rate).filter (!g.bypasses n ·.control)

namespace Assembly

/-- The next node has the knobs that the graph tells. -/
theorem Laid.knobs_of_blueprint (h : Laid g rack order first a) (hg : g.WellFormed)
    (hn : g.Next a.done n) {plan : Blueprint α}
    (hplan : Kind.blueprint n.panel (a.site master noise (a.feeds g n.id)) = .ok plan) :
    plan.part.knobs = g.knobsOf n a.rack.primitives.size a.rack.sampleRate := by
  refine (Kind.knobs_of_blueprint hplan).trans (List.filter_congr fun knob _ => ?_)
  show ((n.kind.socketOf? knob.control).all fun s => (a.feeds g n.id s.name).isEmpty) =
    !(n.kind.socketOf? knob.control).any fun s => g.isConnected n.id s.name
  cases n.kind.socketOf? knob.control with
  | none => rfl
  | some s =>
    show (a.feeds g n.id s.name).isEmpty = !g.isConnected n.id s.name
    rw [h.feeds hg hn, List.isEmpty_map]
    cases hconnected : g.isConnected n.id s.name with
    | false => rw [Graph.isConnected_eq_false.mp hconnected]; rfl
    | true => exact List.isEmpty_eq_false_iff.mpr (Graph.feeding_ne_nil.mpr hconnected)

/-- The nodes that are built have the knobs that the graph tells. -/
structure Knobbed (g : Graph α) (rack : Rack α) (order : List (Node α))
    (first : NodeId → PrimitiveId) (a : Assembly α) : Prop where
  assembling : Assembling g rack .empty a
  knobs : ∀ n ∈ order, ∃ part, a.part? n.id = some part ∧
    part.knobs = g.knobsOf n (first n.id) rack.sampleRate

theorem Knobbed.step (h : Knobbed g rack order first a) (hlaid : Laid g rack order first a)
    (hg : g.WellFormed) (hn : g.Next a.done n) (hbuild : buildNode g master noise n a = .ok a') :
    Knobbed g rack (order ++ [n]) (Function.update first n.id a.rack.primitives.size) a' := by
  have hassembling : Assembling g rack .empty a' := by
    have hkeeps : Keeps (Assembling g rack .empty) (buildNode g master noise n) :=
      Assembling.keeps_buildNode hn.there
    have hkept := hkeeps a h.assembling
    rwa [hbuild] at hkept
  refine ⟨hassembling, List.forall_mem_append.mpr ⟨fun m hm => ?_,
    List.forall_mem_singleton.mpr ?_⟩⟩
  · have hdone : m.id ∈ a.done := hlaid.done ▸ List.mem_map_of_mem hm
    have hne : m.id ≠ n.id := fun hid => hn.new (hid ▸ hdone)
    rw [part?_of_buildNode hbuild hne, hn.update_of_mem _ hdone]
    exact h.knobs m hm
  · obtain ⟨plan, b, hplan, hran, rfl⟩ := built_of_buildNode hbuild
    have hnone : b.part? n.id = none := by
      rw [← Option.not_isSome_iff_eq_none, isSome_part?_iff, done, hran.parts]
      exact hn.new
    refine ⟨plan.part, ?_, ?_⟩
    · rw [part?_concat, hnone, if_pos rfl, Option.none_or]
    · have hrate : a.rack.sampleRate = rack.sampleRate := by rw [h.assembling.extended.rest]
      rw [hlaid.knobs_of_blueprint hg hn hplan, Function.update_self, hrate]

end Assembly

open Assembly in
/-- When a graph could be built, a node has a part just when it reaches a sink, and this has the
knobs that the graph tells. -/
theorem Graph.WellFormed.knobs_of_build (hg : g.WellFormed) {patch : Patch α}
    (hpatch : (g.build master noise rack .empty).outcome = .ok patch) :
    ∃ first : NodeId → PrimitiveId, ∀ n ∈ g.nodes,
      (¬g.Upstream n.id → patch.part? n.id = none) ∧
      (g.Upstream n.id → ∃ part, patch.part? n.id = some part ∧
        part.knobs = g.knobsOf n (first n.id) rack.sampleRate) := by
  obtain ⟨order, first, b, -, rfl, -, horder, -, hlaid, -, hknobbed⟩ :=
    hg.exists_laid_of_build hpatch (P := Knobbed g rack)
      (fun h _ hn hbuild hP => hP.step h hg hn hbuild)
      ⟨.begun rack .empty, fun _ hn => absurd hn List.not_mem_nil⟩
  refine ⟨first, fun n hn => ⟨fun hup => ?_, fun hup => ?_⟩⟩
  · rw [← Option.not_isSome_iff_eq_none, Option.isSome_iff_exists]
    rintro ⟨part, hpart⟩
    have hmem := (hlaid.mem_order_iff hg).mpr ⟨hn, hpart ▸ rfl⟩
    exact hup ((horder n).mp hmem).2
  · rw [part?_finish, if_pos (List.mem_map_of_mem hn)]
    exact hknobbed.knobs n ((horder n).mpr ⟨hn, hup⟩)

/-- Only a node that reaches a sink has a part. -/
theorem Graph.WellFormed.upstream_of_part (hg : g.WellFormed) {patch : Patch α}
    (hpatch : (g.build master noise rack .empty).outcome = .ok patch) (hn : n ∈ g.nodes)
    (hpart : (patch.part? n.id).isSome) : g.Upstream n.id := by
  by_contra hup
  obtain ⟨_, hknobs⟩ := hg.knobs_of_build hpatch
  rw [(hknobs n hn).1 hup] at hpart
  cases hpart

end

end Patchbay
