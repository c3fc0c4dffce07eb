import Patchbay.Proofs.Sums.Merged
/-!
# The frequency of an oscillator

Two sockets act on the frequency of an Oscillator. What is connected into the one takes the place of
the inline value, and what is connected into the other is added. A node that is connected into both
is patched into the frequency twice, but what is patched into a parameter is listed by where it
comes from, so it counts once (`Graph.adding`).
-/

namespace Patchbay

open Scalar.Exact (toReal)

variable {α : Type}

/-- The connections that add onto the frequency of a node: those into the additional socket from
nodes that are not connected into the base socket too. -/
def Graph.adding (g : Graph α) (id : NodeId) : List Connection :=
  (g.feeding id "frequency").filter
    (·.source ∉ (g.feeding id "baseFrequency").map (·.source))

section

variable {g : Graph α} {id : NodeId} {c : Connection}

theorem Graph.mem_adding : c ∈ g.adding id ↔
    c ∈ g.feeding id "frequency" ∧ ∀ c' ∈ g.feeding id "baseFrequency", c'.source ≠ c.source := by
  simp [adding]

theorem Graph.mem_of_adding (hc : c ∈ g.feeding id "baseFrequency" ++ g.adding id) :
    c ∈ g.feeding id "baseFrequency" ++ g.feeding id "frequency" :=
  ((List.Sublist.refl _).append List.filter_sublist).subset hc

/-- Every node that is connected into one of the two sockets is the source of a connection into the
base socket or of one that adds onto the frequency. -/
theorem Graph.exists_same_source
    (hc : c ∈ g.feeding id "baseFrequency" ++ g.feeding id "frequency") :
    ∃ c' ∈ g.feeding id "baseFrequency" ++ g.adding id, c'.source = c.source := by
  rcases List.mem_append.mp hc with hc | hc
  · exact ⟨c, List.mem_append_left _ hc, rfl⟩
  · by_cases hshared : ∃ c' ∈ g.feeding id "baseFrequency", c'.source = c.source
    · obtain ⟨c', hc', hsource⟩ := hshared
      exact ⟨c', List.mem_append_left _ hc', hsource⟩
    · exact ⟨c, List.mem_append_right _ (mem_adding.mpr ⟨hc, by simpa using hshared⟩), rfl⟩

theorem Graph.mem_connectionsInto_of_frequency
    (hc : c ∈ g.feeding id "baseFrequency" ++ g.feeding id "frequency") :
    c ∈ g.connectionsInto id :=
  (List.mem_append.mp hc).elim (fun hc => (List.mem_filter.mp hc).1)
    fun hc => (List.mem_filter.mp hc).1

end

variable [Scalar α]

theorem Graph.levelOf_of_feeding_eq_nil {g : Graph α} {n : Node α}
    (hkind : n.kind = .oscillator) (hbase : g.feeding n.id "baseFrequency" = []) :
    g.levelOf n "baseFrequency" = n.panel.number "baseFreq" := by
  unfold levelOf
  rw [if_neg (Bool.eq_false_iff.mp (isConnected_eq_false.mpr hbase))]
  obtain ⟨id, kind, values⟩ := n
  obtain rfl : kind = .oscillator := hkind
  rfl

/-- The base is the inline value, or what is connected in its place. -/
theorem Graph.base_eq [Scalar.Exact α] {g : Graph α} {n : Node α} (hkind : n.kind = .oscillator)
    (hsingle : (g.feeding n.id "baseFrequency").length ≤ 1) (v : Connection → α) :
    toReal (g.levelOf n "baseFrequency") +
        ((g.feeding n.id "baseFrequency").map fun c => toReal (v c)).sum =
      (g.feeding n.id "baseFrequency").head?.elim (toReal (n.panel.number "baseFreq"))
        fun c => toReal (v c) := by
  match hbase : g.feeding n.id "baseFrequency" with
  | [] =>
    rw [levelOf_of_feeding_eq_nil hkind hbase]
    exact add_zero _
  | [c] =>
    have hconnected : g.isConnected n.id "baseFrequency" = true :=
      feeding_ne_nil.mp (hbase.trans_ne (List.cons_ne_nil _ _))
    rw [levelOf, if_pos hconnected, Scalar.Exact.toReal_zero, zero_add]
    exact List.sum_singleton
  | c :: c' :: l =>
    rw [hbase] at hsingle
    exact absurd hsingle (by simp)

namespace Graph.Standing

variable {g : Graph α} {m : Mixer α} {patch : Patch α} {order : List (Node α)} {rack : Rack α}
  {n : Node α} {t : α}

theorem nodup_frequencyHandles (h : g.Standing m patch order rack) (hn : n ∈ order) :
    ((g.feeding n.id "baseFrequency" ++ g.adding n.id).map
      (g.handle (firstIn order m.rack.primitives.size))).Nodup := by
  rw [List.map_append]
  refine (h.nodup_handles hn _).append ((h.nodup_handles hn "frequency").sublist
    (List.filter_sublist.map _)) fun q hbase hadded => ?_
  obtain ⟨c, hc, rfl⟩ := List.mem_map.mp hbase
  obtain ⟨c', hc', heq⟩ := List.mem_map.mp hadded
  obtain ⟨hc', hother⟩ := mem_adding.mp hc'
  exact hother c hc
    ((h.handle_eq_iff hn (List.mem_filter.mp hc).1 (List.mem_filter.mp hc').1).mp heq.symm)

/-- What is connected into the two sockets comes from the same primitives as what is connected into
the base socket or adds onto the frequency. -/
theorem exists_same_handle (h : g.Standing m patch order rack) (hn : n ∈ order) {c : Connection}
    (hc : c ∈ g.feeding n.id "baseFrequency" ++ g.feeding n.id "frequency") :
    ∃ c' ∈ g.feeding n.id "baseFrequency" ++ g.adding n.id,
      g.handle (firstIn order m.rack.primitives.size) c' =
        g.handle (firstIn order m.rack.primitives.size) c := by
  obtain ⟨c', hc', hsource⟩ := exists_same_source hc
  exact ⟨c', hc', (h.handle_eq_iff hn (mem_connectionsInto_of_frequency (mem_of_adding hc'))
    (mem_connectionsInto_of_frequency hc)).mpr hsource⟩

/-- The primitives patched into the frequency of an Oscillator, each once. -/
theorem inputsOf_frequency_perm (h : g.Standing m patch order rack) (hn : n ∈ order)
    (hkind : n.kind = .oscillator) :
    (rack.inputsOf (.dial ⟨firstIn order m.rack.primitives.size n.id, .frequency⟩)).Perm
      ((g.feeding n.id "baseFrequency" ++ g.adding n.id).map
        (g.handle (firstIn order m.rack.primitives.size))) := by
  have hinputs : n.kind.inputs = [Kind.baseFrequency, Kind.addedFrequency] := by
    rw [hkind]
    rfl
  have hbase : Kind.baseFrequency ∈ n.kind.inputs := hinputs ▸ List.mem_cons_self
  refine (List.perm_ext_iff_of_nodup (rack.nodup_inputsOf _) (h.nodup_frequencyHandles hn)).mpr
    fun q => (h.mem_inputsOf_dial hn hbase rfl).trans ?_
  rw [List.mem_map]
  constructor
  · rintro ⟨s, hs, -, -, c, hc, rfl⟩
    rw [hinputs, List.mem_pair] at hs
    refine h.exists_same_handle hn ?_
    rcases hs with rfl | rfl
    · exact List.mem_append_left _ hc
    · exact List.mem_append_right _ hc
  · rintro ⟨c, hc, rfl⟩
    rw [hinputs]
    rcases List.mem_append.mp (mem_of_adding hc) with hc | hc
    · exact ⟨_, List.mem_cons_self, by decide, rfl, c, hc, rfl⟩
    · exact ⟨_, List.mem_cons_of_mem _ List.mem_cons_self, by decide, rfl, c, hc, rfl⟩

variable [Scalar.Exact α]

/-- The frequency is the inline value, unless the base socket is connected, and all that is patched
into it. -/
theorem known_frequency (h : g.Standing m patch order rack) (hn : n ∈ order)
    (hkind : n.kind = .oscillator) (ht : m.rack.clock ≤ t) :
    known (rack.effectiveAt
        ⟨firstIn order m.rack.primitives.size n.id, .frequency⟩ t) =
      ((toReal (g.levelOf n "baseFrequency") : ℝ) : WithTop ℝ) +
        ((g.feeding n.id "baseFrequency" ++ g.adding n.id).map fun c =>
          known (rack.outputAt (g.handle (firstIn order m.rack.primitives.size) c) t)).sum := by
  have hbase : Kind.baseFrequency ∈ n.kind.inputs := by
    rw [hkind]
    exact List.mem_cons_self
  rw [Rack.known_effectiveAt, ((h.inputsOf_frequency_perm hn hkind).map _).sum_eq, List.map_map]
  congr 3
  exact h.valueAt_eq hn hbase rfl ht

/-- The frequency is known just when all that is connected into the two sockets is. Then it is the
sum of the base and of what adds onto it. -/
theorem frequency_sum (h : g.Standing m patch order rack) (hn : n ∈ order)
    (hkind : n.kind = .oscillator) (hsingle : (g.feeding n.id "baseFrequency").length ≤ 1)
    (ht : m.rack.clock ≤ t) :
    let dial : Dial := ⟨firstIn order m.rack.primitives.size n.id, .frequency⟩
    let source := g.handle (firstIn order m.rack.primitives.size)
    let connections := g.feeding n.id "baseFrequency" ++ g.feeding n.id "frequency"
    (∀ v : Connection → α, (∀ c ∈ connections, rack.outputAt (source c) t = some (v c)) →
      ∃ x, rack.effectiveAt dial t = some x ∧
        toReal x = (g.feeding n.id "baseFrequency").head?.elim
            (toReal (n.panel.number "baseFreq")) (fun c => toReal (v c)) +
          ((g.adding n.id).map fun c => toReal (v c)).sum) ∧
    (rack.effectiveAt dial t = none ↔
      ∃ c ∈ connections, rack.outputAt (source c) t = none) := by
  have hsum := h.known_frequency hn hkind ht
  refine ⟨fun v hv => ?_, ?_⟩
  · rw [sum_known_eq_coe fun c hc => hv c (mem_of_adding hc), ← WithTop.coe_add, List.map_append,
      List.sum_append, ← add_assoc, base_eq hkind hsingle] at hsum
    exact known_eq_coe.mp hsum
  · rw [← known_eq_top, hsum, WithTop.add_eq_top, or_iff_right (WithTop.coe_ne_top),
      sum_known_eq_top]
    constructor
    · rintro ⟨c, hc, hnone⟩
      exact ⟨c, mem_of_adding hc, hnone⟩
    · rintro ⟨c, hc, hnone⟩
      obtain ⟨c', hc', heq⟩ := h.exists_same_handle hn hc
      exact ⟨c', hc', heq ▸ hnone⟩

end Graph.Standing

namespace Mixer

/-- On an Oscillator that was built, the frequency is known just when the outputs are that are
connected into its base socket, which takes one at most, and into its additional socket. Then it is
the base, which is the output connected into the base socket or the inline value when there is none,
and on top of it all outputs connected into the additional socket, except that of a node which is
connected into the base socket too. -/
theorem InUse.frequency_of_build [Scalar.Exact α] {m : Mixer α} (h : m.InUse) {g : Graph α}
    (hg : g.Reachable) {voicing : Voicing α} {patch : Patch α}
    (hpatch : (m.build g voicing).1 = .ok patch) :
    ∀ n ∈ g.nodes, (patch.part? n.id).isSome → n.kind = .oscillator →
      (g.feeding n.id "baseFrequency").length ≤ 1 ∧
      ∃ (oscillator : PrimitiveId) (source : Connection → PrimitiveId),
        let connections := g.feeding n.id "baseFrequency" ++ g.feeding n.id "frequency"
        (patch.part? n.id).bind (·.output? "signal") = some oscillator ∧
        (∀ c ∈ connections,
          (patch.part? c.source).bind (·.output? c.output) = some (source c)) ∧
        ∀ t, m.rack.clock ≤ t →
          let rack := (m.build g voicing).2.1.rack
          let dial : Dial := ⟨oscillator, .frequency⟩
          (∀ v : Connection → α, (∀ c ∈ connections, rack.outputAt (source c) t = some (v c)) →
            ∃ x, rack.effectiveAt dial t = some x ∧
              toReal x = (g.feeding n.id "baseFrequency").head?.elim
                  (toReal (n.panel.number "baseFreq")) (fun c => toReal (v c)) +
                ((g.adding n.id).map fun c => toReal (v c)).sum) ∧
          (rack.effectiveAt dial t = none ↔
            ∃ c ∈ connections, rack.outputAt (source c) t = none) := by
  intro n hn hbuilt hkind
  obtain ⟨order, hstands⟩ := h.exists_standing hg hpatch
  have hmem := hstands.mem_order hn hbuilt
  have hsingle : (g.feeding n.id "baseFrequency").length ≤ 1 := by
    refine hg.sound.wellFormed.single n.id n.kind _ Kind.baseFrequency (Graph.has_of_mem hn) ?_ rfl
    rw [hkind]
    rfl
  have hsignal : Kind.signalOut ∈ n.kind.outputs := by
    rw [hkind]
    exact List.mem_cons_self
  have houtlet : n.kind.outlet = 0 := by
    rw [hkind]
    rfl
  exact ⟨hsingle, firstIn order m.rack.primitives.size n.id,
    g.handle (firstIn order m.rack.primitives.size),
    hstands.output_of_signal hmem hsignal houtlet,
    fun c hc => hstands.output_of_part hmem (Graph.mem_connectionsInto_of_frequency hc),
    fun t ht => hstands.frequency_sum hmem hkind hsingle ht⟩

/-- A Constant is connected into both sockets of an Oscillator that is heard, and another one into
its additional socket. -/
noncomputable def tuned : Graph Reals :=
  .run .empty [.addNode .constant, .addNode .constant, .addNode .oscillator, .addNode .audioOutput,
    .connect ⟨"n1", "value", "n3", "baseFrequency"⟩, .connect ⟨"n1", "value", "n3", "frequency"⟩,
    .connect ⟨"n2", "value", "n3", "frequency"⟩, .connect ⟨"n3", "signal", "n4", "signal"⟩]

/-- Both Constants have the standard value, which is one. -/
theorem outputAt_tuned {patch : Patch Reals} {order : List (Node Reals)} {rack : Rack Reals}
    (h : tuned.Standing desk patch order rack)
    (hn : (⟨"n3", .standard .oscillator⟩ : Node Reals) ∈ order) {t : Reals}
    (ht : desk.rack.clock ≤ t) :
    ∀ c ∈ tuned.feeding "n3" "baseFrequency" ++ tuned.feeding "n3" "frequency",
      rack.outputAt (tuned.handle (firstIn order desk.rack.primitives.size) c) t = some 1.0 := by
  intro c hc
  have hinto := Graph.mem_connectionsInto_of_frequency hc
  have hmem : c ∈ [(⟨"n1", "value", "n3", "baseFrequency"⟩ : Connection),
    ⟨"n1", "value", "n3", "frequency"⟩, ⟨"n2", "value", "n3", "frequency"⟩] := hc
  have hfirst : (⟨"n1", .standard .constant⟩ : Node Reals) ∈ tuned.nodes := .head _
  have hsecond : (⟨"n2", .standard .constant⟩ : Node Reals) ∈ tuned.nodes := .tail _ (.head _)
  simp only [List.mem_cons, List.not_mem_nil, or_false] at hmem
  rcases hmem with rfl | rfl | rfl
  · exact h.outputAt_handle hn hinto hfirst rfl rfl ht
  · exact h.outputAt_handle hn hinto hfirst rfl rfl ht
  · exact h.outputAt_handle hn hinto hsecond rfl rfl ht

theorem exists_tuned : ∃ (patch : Patch Reals) (order : List (Node Reals)),
    (desk.build tuned .empty).1 = .ok patch ∧ (patch.part? "n3").isSome ∧
    tuned.Standing desk patch order (desk.build tuned .empty).2.1.rack ∧
    (⟨"n3", .standard .oscillator⟩ : Node Reals) ∈ order := by
  obtain ⟨patch, hpatch⟩ := exists_eq_ok (x := (desk.build tuned .empty).1) (by decide +kernel)
  obtain ⟨order, hstands⟩ := inUse_desk.exists_standing ⟨_, rfl⟩ hpatch
  have hbuilt : (patch.part? "n3").isSome := by
    have hsome : ((desk.build tuned .empty).1.toOption.bind (·.part? "n3")).isSome := by
      decide +kernel
    rwa [hpatch] at hsome
  exact ⟨patch, order, hpatch, hbuilt, hstands,
    hstands.mem_order (.tail _ (.tail _ (.head _))) hbuilt⟩

/-- One from the first Constant and one from the second. -/
theorem frequency_of_tuned : ∃ (patch : Patch Reals) (oscillator : PrimitiveId),
    (desk.build tuned .empty).1 = .ok patch ∧
    (patch.part? "n3").bind (·.output? "signal") = some oscillator ∧
    ∀ t, desk.rack.clock ≤ t → ∃ x,
      (desk.build tuned .empty).2.1.rack.effectiveAt ⟨oscillator, .frequency⟩ t = some x ∧
        toReal x = 2 := by
  obtain ⟨patch, order, hpatch, hbuilt, hstands, hn⟩ := exists_tuned
  obtain ⟨-, oscillator, source, hoscillator, hsource, hsum⟩ :=
    InUse.frequency_of_build inUse_desk ⟨_, rfl⟩ hpatch _ (hstands.mem_nodes hn) hbuilt rfl
  refine ⟨patch, oscillator, hpatch, hoscillator, fun t ht => ?_⟩
  have hones : ∀ c ∈ tuned.feeding "n3" "baseFrequency" ++ tuned.feeding "n3" "frequency",
      (desk.build tuned .empty).2.1.rack.outputAt (source c) t = some 1.0 := by
    intro c hc
    have hhandle := hsource c hc
    rw [hstands.output_of_part hn (Graph.mem_connectionsInto_of_frequency hc)] at hhandle
    rw [← Option.some.inj hhandle]
    exact outputAt_tuned hstands hn ht c hc
  obtain ⟨x, hx, hvalue⟩ := (hsum t ht).1 (fun _ => 1.0) hones
  refine ⟨x, hx, hvalue.trans ?_⟩
  show (1.0 : ℝ) + (1.0 + 0) = 2
  norm_num

/-- The first Constant does not add onto the base that it gives. -/
theorem frequency_ne_tuned : ∃ (patch : Patch Reals) (oscillator first second : PrimitiveId),
    (desk.build tuned .empty).1 = .ok patch ∧
    (patch.part? "n3").bind (·.output? "signal") = some oscillator ∧
    (patch.part? "n1").bind (·.output? "value") = some first ∧
    (patch.part? "n2").bind (·.output? "value") = some second ∧
    tuned.feeding "n3" "baseFrequency" = [⟨"n1", "value", "n3", "baseFrequency"⟩] ∧
    tuned.feeding "n3" "frequency" =
      [⟨"n1", "value", "n3", "frequency"⟩, ⟨"n2", "value", "n3", "frequency"⟩] ∧
    ∀ t, desk.rack.clock ≤ t →
      let rack := (desk.build tuned .empty).2.1.rack
      ∃ base added x, rack.outputAt first t = some base ∧ rack.outputAt second t = some added ∧
        rack.effectiveAt ⟨oscillator, .frequency⟩ t = some x ∧
        toReal x ≠ toReal base + (toReal base + toReal added) := by
  obtain ⟨patch, order, hpatch, hbuilt, hstands, hn⟩ := exists_tuned
  have hbase : (⟨"n1", "value", "n3", "baseFrequency"⟩ : Connection) ∈
      tuned.feeding "n3" "baseFrequency" ++ tuned.feeding "n3" "frequency" := .head _
  have hadded : (⟨"n2", "value", "n3", "frequency"⟩ : Connection) ∈
      tuned.feeding "n3" "baseFrequency" ++ tuned.feeding "n3" "frequency" :=
    .tail _ (.tail _ (.head _))
  refine ⟨patch, _, _, _, hpatch, hstands.output_of_signal hn List.mem_cons_self rfl,
    hstands.output_of_part hn (Graph.mem_connectionsInto_of_frequency hbase),
    hstands.output_of_part hn (Graph.mem_connectionsInto_of_frequency hadded), rfl, rfl,
    fun t ht => ?_⟩
  have hones := outputAt_tuned hstands hn ht
  obtain ⟨x, hx, hvalue⟩ :=
    (hstands.frequency_sum hn rfl (Nat.le_refl 1) ht).1 (fun _ => 1.0) hones
  refine ⟨1.0, 1.0, x, hones _ hbase, hones _ hadded, hx, hvalue.trans_ne ?_⟩
  show (1.0 : ℝ) + (1.0 + 0) ≠ 1.0 + (1.0 + 1.0)
  norm_num

end Mixer

end Patchbay
