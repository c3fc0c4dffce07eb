import Mathlib.Tactic.FinCases
import Patchbay.Proofs.Patch.Atomic
import Patchbay.Proofs.Program.States
/-!
# Nodes on a rack

Whether a graph is built or its program is run, its nodes come to lie on a rack one after another.
What is there is described by the order of the nodes and by the levels at which their sockets hold
the parameters (`Arranged`). A description grows with every node (`Arranged.add`), is changed by
setting a parameter (`Arranged.tune`), and tells for each primitive its state and the voices that
open it (`Arranged.state`, `Arranged.voicesOn`).
-/

namespace Patchbay

variable {α : Type} [Scalar α]

/-! ## The states of a node -/

namespace Panel

variable {panel : Panel α}

/-- The primitives are of the families of the outfit. -/
theorem map_family_states (panel : Panel α) (level : String → α) :
    (panel.states level).map (·.setup.family) = panel.kind.outfit := by
  obtain ⟨kind, values⟩ := panel
  cases kind <;> rfl

theorem length_states (panel : Panel α) (level : String → α) :
    (panel.states level).length = panel.kind.outfit.length := by
  rw [← panel.map_family_states level, List.length_map]

/-- Only the levels of sockets with inline values count. -/
theorem states_congr {level level' : String → α}
    (h : ∀ s ∈ panel.kind.inputs, s.inline.isSome → level s.name = level' s.name) :
    panel.states level = panel.states level' := by
  obtain ⟨kind, values⟩ := panel
  cases kind
  case oscillator =>
    have hbase : level "baseFrequency" = level' "baseFrequency" :=
      h Kind.baseFrequency (by simp [Kind.inputs]) rfl
    simp only [states, hbase]
  case gain =>
    have hgain : level "gain" = level' "gain" :=
      h Kind.gainLevel (by simp [Kind.inputs]) rfl
    simp only [states, hgain]
  case biquadFilter =>
    have hfrequency : level "frequency" = level' "frequency" :=
      h Kind.filterFrequency (by simp [Kind.inputs]) rfl
    have hq : level "q" = level' "q" := h Kind.filterQ (by simp [Kind.inputs]) rfl
    have hgain : level "gain" = level' "gain" := h Kind.gainLevel (by simp [Kind.inputs]) rfl
    simp only [states, hfrequency, hq, hgain]
  case delay =>
    have htime : level "delayTime" = level' "delayTime" :=
      h Kind.delayTime (by simp [Kind.inputs]) rfl
    simp only [states, htime]
  all_goals rfl

/-- Setting the parameter that a socket drives sets the level of the socket. -/
theorem states_tune {s : Socket} (hs : s ∈ panel.kind.inputs) (hinline : s.inline.isSome)
    (level : String → α) (v : α) :
    (panel.states level).modify 0 (·.set (Kind.drivenBy s.name) v) =
      panel.states (Function.update level s.name v) := by
  obtain ⟨kind, values⟩ := panel
  cases kind
  all_goals
    simp only [Kind.inputs] at hs
    fin_cases hs
  all_goals first | exact absurd hinline Bool.false_ne_true | skip
  all_goals
    simp only [states]
    rfl

omit [Scalar α] in
/-- A node with an inline value has a primitive. -/
theorem outfit_pos {s : Socket} (hs : s ∈ panel.kind.inputs) (hinline : s.inline.isSome) :
    0 < panel.kind.outfit.length := by
  revert hs
  cases panel.kind <;> simp [Kind.inputs, Kind.outfit]
  all_goals
    rintro rfl
    cases hinline

/-- A voice opens one of the node's own primitives. -/
theorem lt_of_mem_voices {voice : Key × Nat} (h : voice ∈ panel.voices) :
    voice.2 < panel.kind.outfit.length := by
  obtain ⟨kind, values⟩ := panel
  cases kind
  case keyboardNote =>
    obtain ⟨⟨pitch, i⟩, hi, rfl⟩ := List.mem_map.mp h
    have hlt : i < 25 := (List.mem_zipIdx hi).2.1
    have hlength : Kind.keyboardNote.outfit.length = 51 := by decide
    show 2 * i + 2 < Kind.keyboardNote.outfit.length
    omega
  case keyboardAdsr =>
    obtain ⟨key, -, rfl⟩ := List.mem_map.mp h
    exact Nat.zero_lt_one
  all_goals exact absurd h List.not_mem_nil

/-- A node with voices has the profile that they follow. -/
theorem profiles_ne_nil (h : panel.voices ≠ []) : panel.profiles ≠ [] := by
  obtain ⟨kind, values⟩ := panel
  cases kind
  case keyboardNote | keyboardAdsr => exact List.cons_ne_nil _ _
  all_goals exact absurd rfl h

/-- The voices that open a parameter of one of the primitives of a node, with the profile that they
follow. -/
def voicesOn (panel : Panel α) (i : Nat) (param : Param) : List (Key × Option (Profile α)) :=
  (panel.voices.filter fun voice => voice.2 == i && param == .gain).map fun voice =>
    (voice.1, panel.profiles[0]?)

end Panel

/-- The voices that open a gain, each with its key and the profile that it follows. -/
def Voicing.voicesOn {α : Type} (v : Voicing α) (dial : Dial) : List (Key × Option (Profile α)) :=
  (v.bindings.filter (·.2.gain == dial)).map fun (key, voice) => (key, v.profiles[voice.profile]?)

/-! ## Many nodes -/

theorem Rack.map_family_statesAt (rack : Rack α) (t : α) :
    (rack.statesAt t).map (·.setup.family) = rack.families := by
  unfold Rack.statesAt families
  rw [List.map_map]
  exact List.map_congr_left fun p _ => p.setup.family_bare

/-- The nodes of an order lie on a rack one after another from a place on, their primitives in the
states that belong to the levels of their sockets, and all voices are theirs. The states are those
at the times in question. -/
structure Arranged (when : α → Prop) (start : PrimitiveId) (level : Node α → String → α)
    (order : List (Node α)) (rack : Rack α) (voicing : Voicing α) : Prop where
  nodup : (order.map (·.id)).Nodup
  size : rack.primitives.size = start + (order.flatMap (·.kind.outfit)).length
  states : ∀ t, when t → ∃ before, before.length = start ∧
    rack.statesAt t = before ++ order.flatMap fun n => n.panel.states (level n)
  profiles : voicing.profiles = order.flatMap (·.panel.profiles)
  bindings : voicing.bindings = order.flatMap fun n =>
    n.panel.bindings (firstIn order start n.id) (offsetIn (·.panel.profiles) order n.id)

/-- The levels when a socket of a node has a new one. -/
def tuned (level : Node α → String → α) (id : NodeId) (socket : String) (v : α) :
    Node α → String → α :=
  fun n => if n.id = id then Function.update (level n) socket v else level n

omit [Scalar α] in
theorem tuned_self {level : Node α → String → α} {n : Node α} {id : NodeId} (hid : n.id = id)
    (socket : String) (v : α) : tuned level id socket v n socket = v := by
  rw [tuned, if_pos hid, Function.update_self]

omit [Scalar α] in
theorem tuned_of_ne {level : Node α → String → α} {n : Node α} {id : NodeId}
    {socket socket' : String} (h : ¬(n.id = id ∧ socket' = socket)) (v : α) :
    tuned level id socket v n socket' = level n socket' := by
  unfold tuned
  split
  next hid => exact Function.update_of_ne (fun hname => h ⟨hid, hname⟩) _ _
  next => rfl

namespace Arranged

variable {when : α → Prop} {start : PrimitiveId} {level level' : Node α → String → α}
  {order : List (Node α)} {rack rack' : Rack α} {voicing voicing' : Voicing α} {n : Node α}

theorem begun (rack : Rack α) :
    Arranged when rack.primitives.size level [] rack .empty where
  nodup := List.nodup_nil
  size := rfl
  states t _ := ⟨rack.statesAt t, by simp [Rack.statesAt], (List.append_nil _).symm⟩
  profiles := rfl
  bindings := rfl

/-- Levels that agree where there are inline values describe the same. -/
theorem congr (h : Arranged when start level order rack voicing)
    (hlevel : ∀ n ∈ order, ∀ s ∈ n.kind.inputs, s.inline.isSome →
      level n s.name = level' n s.name) :
    Arranged when start level' order rack voicing where
  nodup := h.nodup
  size := h.size
  states t ht := by
    obtain ⟨before, hbefore, hstates⟩ := h.states t ht
    refine ⟨before, hbefore, hstates.trans (congrArg _ ?_)⟩
    exact List.flatMap_congr fun n hn => Panel.states_congr (hlevel n hn)
  profiles := h.profiles
  bindings := h.bindings

/-- A further node comes after the others. -/
theorem add (h : Arranged when start level order rack voicing) (hnew : n.id ∉ order.map (·.id))
    (hsize : rack'.primitives.size = rack.primitives.size + n.kind.outfit.length)
    (hstates : ∀ t, when t → rack'.statesAt t = rack.statesAt t ++ n.panel.states (level n))
    (hprofiles : voicing'.profiles = voicing.profiles ++ n.panel.profiles)
    (hbindings : voicing'.bindings = voicing.bindings ++
      n.panel.bindings rack.primitives.size voicing.profiles.length) :
    Arranged when start level (order ++ [n]) rack' voicing' where
  nodup := by
    rw [List.map_append, List.map_singleton, List.nodup_append]
    refine ⟨h.nodup, List.nodup_singleton _, fun id hid id' hid' heq => hnew ?_⟩
    rwa [← List.mem_singleton.mp hid', ← heq]
  size := by
    rw [hsize, h.size, List.flatMap_append, List.flatMap_singleton, List.length_append,
      Nat.add_assoc]
  states t ht := by
    obtain ⟨before, hbefore, hold⟩ := h.states t ht
    refine ⟨before, hbefore, ?_⟩
    rw [hstates t ht, hold, List.flatMap_append, List.flatMap_singleton, List.append_assoc]
  profiles := by rw [hprofiles, h.profiles, List.flatMap_append, List.flatMap_singleton]
  bindings := by
    rw [hbindings, h.bindings, List.flatMap_append, List.flatMap_singleton,
      firstIn_append_cons hnew, offsetIn_append_cons hnew, ← h.size, ← h.profiles]
    refine congrArg (· ++ _) (List.flatMap_congr fun m hm => ?_)
    rw [firstIn_append (List.mem_map_of_mem hm), offsetIn_append (List.mem_map_of_mem hm)]

/-- What is done on the rack without a trace in states and sizes changes nothing. -/
theorem of_states (h : Arranged when start level order rack voicing)
    (hsize : rack'.primitives.size = rack.primitives.size)
    (hstates : ∀ t, rack'.statesAt t = rack.statesAt t) :
    Arranged when start level order rack' voicing where
  nodup := h.nodup
  size := hsize.trans h.size
  states t ht := (hstates t).symm ▸ h.states t ht
  profiles := h.profiles
  bindings := h.bindings

/-- Setting the parameter that a socket drives gives the socket a new level. -/
theorem tune (h : Arranged when start level order rack voicing) (hn : n ∈ order) {s : Socket}
    (hs : s ∈ n.kind.inputs) (hinline : s.inline.isSome) (v : α)
    (hsize : rack'.primitives.size = rack.primitives.size)
    (hstates : ∀ t, rack'.statesAt t = (rack.statesAt t).modify (firstIn order start n.id)
      (·.set (Kind.drivenBy s.name) v)) :
    Arranged when start (tuned level n.id s.name v) order rack' voicing where
  nodup := h.nodup
  size := hsize.trans h.size
  states t ht := by
    obtain ⟨before, hbefore, hold⟩ := h.states t ht
    have hlength : ∀ m ∈ order, m.kind.outfit.length = (m.panel.states (level m)).length :=
      fun m _ => (m.panel.length_states _).symm
    have hpos : 0 < (n.panel.states (level n)).length := by
      rw [Panel.length_states]
      exact Panel.outfit_pos hs hinline
    refine ⟨before, hbefore, ?_⟩
    rw [hstates, hold, firstIn, ← hbefore, modify_append_add, offsetIn_congr hlength]
    refine congrArg _ ((modify_offsetIn (i := 0) h.nodup hn hpos _).trans ?_)
    refine List.flatMap_congr fun m hm => ?_
    unfold tuned
    split
    next hid =>
      obtain rfl := List.inj_on_of_nodup_map h.nodup hm hn hid
      exact Panel.states_tune hs hinline _ v
    next => rfl
  profiles := h.profiles
  bindings := h.bindings

/-- The primitives of the nodes are of the families of their outfits. -/
theorem families (h : Arranged when start level order rack voicing) {t : α} (ht : when t) :
    ∃ before, before.length = start ∧
      rack.families = before ++ order.flatMap (·.kind.outfit) := by
  obtain ⟨before, hbefore, hstates⟩ := h.states t ht
  refine ⟨before.map (·.setup.family), by rwa [List.length_map], ?_⟩
  rw [← rack.map_family_statesAt t, hstates, List.map_append, List.map_flatMap]
  exact congrArg _ (List.flatMap_congr fun n _ => n.panel.map_family_states _)

/-! ## Primitive by primitive -/

theorem lt_size (h : Arranged when start level order rack voicing) (hn : n ∈ order) {i : Nat}
    (hi : i < n.kind.outfit.length) : firstIn order start n.id + i < rack.primitives.size := by
  rw [h.size]
  exact Nat.lt_of_lt_of_le (Nat.add_lt_add_left hi _) (firstIn_add_le h.nodup hn)

/-- The state of one of the primitives of a node. -/
theorem state (h : Arranged when start level order rack voicing) (hn : n ∈ order) {i : Nat}
    (hi : i < n.kind.outfit.length) {t : α} (ht : when t) :
    (rack.primitive? (firstIn order start n.id + i)).map (·.stateAt t) =
      (n.panel.states (level n))[i]? := by
  obtain ⟨before, hbefore, hstates⟩ := h.states t ht
  have hlength : ∀ m ∈ order, m.kind.outfit.length = (m.panel.states (level m)).length :=
    fun m _ => (m.panel.length_states _).symm
  have hentry : (rack.statesAt t)[firstIn order start n.id + i]? =
      (n.panel.states (level n))[i]? := by
    rw [hstates, firstIn, ← hbefore, Nat.add_assoc, getElem?_append_add, offsetIn_congr hlength]
    exact getElem?_offsetIn h.nodup hn (hlength n hn ▸ hi)
  rw [← hentry]
  simp [Rack.statesAt, Rack.primitive?]

/-- The voices that open a parameter of one of the primitives of a node are the node's own. -/
theorem filter_bindings (h : Arranged when start level order rack voicing) (hn : n ∈ order)
    {i : Nat} (hi : i < n.kind.outfit.length) (param : Param) :
    voicing.bindings.filter (·.2.gain == ⟨firstIn order start n.id + i, param⟩) =
      (n.panel.bindings (firstIn order start n.id) (offsetIn (·.panel.profiles) order n.id)).filter
        (·.2.gain == ⟨firstIn order start n.id + i, param⟩) := by
  obtain ⟨l, l', horder, hl, hl', -⟩ :=
    exists_split_offsetIn h.nodup hn (fun n : Node α => n.panel.profiles)
  -- the voices of the nodes before and after open primitives of their own
  let bound (m : Node α) : List (Key × Voice) := m.panel.bindings (firstIn order start m.id)
    (offsetIn (·.panel.profiles) order m.id)
  have hothers : ∀ k : List (Node α), (∀ m ∈ k, m ∈ order) → (∀ m ∈ k, m.id ≠ n.id) →
      (k.flatMap bound).filter (·.2.gain == ⟨firstIn order start n.id + i, param⟩) = [] := by
    intro k hk hne
    refine List.filter_eq_nil_iff.mpr fun b hb heq => ?_
    obtain ⟨m, hm, hb⟩ := List.mem_flatMap.mp hb
    obtain ⟨voice, hvoice, rfl⟩ := List.mem_map.mp hb
    have hplace : firstIn order start m.id + voice.2 = firstIn order start n.id + i :=
      congrArg Dial.primitive (beq_iff_eq.mp heq)
    exact hne m hm (firstIn_inj h.nodup (hk m hm) hn (Panel.lt_of_mem_voices hvoice) hi hplace).1
  have hsub : ∀ m ∈ l ++ n :: l', m ∈ order := fun m hm => horder ▸ hm
  have hsplit : voicing.bindings = l.flatMap bound ++ (bound n ++ l'.flatMap bound) := by
    rw [h.bindings, ← List.flatMap_cons, ← List.flatMap_append, ← horder]
  rw [hsplit, List.filter_append, List.filter_append,
    hothers l (fun m hm => hsub m (List.mem_append_left _ hm)) hl,
    hothers l' (fun m hm => hsub m (List.mem_append_right _ (List.mem_cons_of_mem _ hm))) hl',
    List.nil_append, List.append_nil]

theorem voicesOn (h : Arranged when start level order rack voicing) (hn : n ∈ order) {i : Nat}
    (hi : i < n.kind.outfit.length) (param : Param) :
    voicing.voicesOn ⟨firstIn order start n.id + i, param⟩ = n.panel.voicesOn i param := by
  have hgain : ∀ voice : Key × Nat, ((⟨firstIn order start n.id + voice.2, .gain⟩ : Dial) ==
      ⟨firstIn order start n.id + i, param⟩) = (voice.2 == i && param == .gain) := by
    intro voice
    rw [Bool.eq_iff_iff, beq_iff_eq, Bool.and_eq_true, beq_iff_eq, beq_iff_eq, Dial.mk.injEq,
      Nat.add_left_cancel_iff, eq_comm (a := Param.gain)]
  unfold Voicing.voicesOn Panel.voicesOn
  rw [h.filter_bindings hn hi, Panel.bindings, List.filter_map, List.map_map]
  refine (List.map_congr_left fun voice hvoice => ?_).trans
    (congrArg _ (List.filter_congr fun voice _ => hgain voice))
  have hvoices : n.panel.voices ≠ [] := List.ne_nil_of_mem (List.mem_filter.mp hvoice).1
  have hprofile : voicing.profiles[offsetIn (·.panel.profiles) order n.id]? =
      n.panel.profiles[0]? := by
    rw [h.profiles]
    exact getElem?_offsetIn (i := 0) h.nodup hn
      (List.length_pos_of_ne_nil (Panel.profiles_ne_nil hvoices))
  exact congrArg (Prod.mk voice.1) hprofile

end Arranged

end Patchbay
