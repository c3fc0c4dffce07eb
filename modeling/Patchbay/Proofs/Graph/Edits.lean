import Mathlib.Data.List.Perm.Subperm
import Mathlib.Data.List.Range
import Patchbay.Proofs.Graph.WellFormed
import Patchbay.Proofs.Panel
/-!
# Edits keep graphs well formed

Whatever is done to a well-formed graph, by an operation that succeeds, leaves it well-formed. Most
operations touch one part of the graph; the removal of a node touches all of them, since the nodes
behind it move up and its connections and links go with it.

A new name is searched for among as many names as there are nodes and one more; not all of them
can be taken, so the search ends at a free one (`hasNode_nodeName_nextFree`).
-/

namespace Patchbay.Graph

variable {α : Type}

/-! ## New names -/

/-- The search goes up from the last name, passes only names that are taken, and ends at a free one
or with all its tries used up. -/
theorem nextFree_spec (taken : Nat → Bool) :
    ∀ (tries last : Nat),
      (∀ m, last < m → m < nextFree taken tries last → taken m = true) ∧
      (taken (nextFree taken tries last) = false ∨
        nextFree taken tries last = last + tries + 1) ∧
      last < nextFree taken tries last
  | 0, last => by
    unfold nextFree
    exact ⟨fun m h1 h2 => by omega, Or.inr rfl, by omega⟩
  | tries + 1, last => by
    unfold nextFree
    split
    next htaken =>
      obtain ⟨hbelow, hend, hgt⟩ := nextFree_spec taken tries (last + 1)
      refine ⟨fun m h1 h2 => ?_, ?_, by omega⟩
      · by_cases hm : m = last + 1
        · exact hm ▸ htaken
        · exact hbelow m (by omega) h2
      · rcases hend with hfree | hend
        · exact Or.inl hfree
        · exact Or.inr (by omega)
    next hfree =>
      exact ⟨fun m h1 h2 => by omega, Or.inl (by simpa using hfree), by omega⟩

/-- A search with as many tries as there are names in use ends at a free name. -/
theorem nextFree_free {β : Type} {name : Nat → β} (hname : Function.Injective name) (used : List β)
    (taken : Nat → Bool) (htaken : ∀ n, taken n = true → name n ∈ used) (last : Nat) :
    taken (nextFree taken used.length last) = false := by
  obtain ⟨hbelow, hend, _⟩ := nextFree_spec taken used.length last
  rcases hend with hfree | hend
  · exact hfree
  · -- otherwise one more name than there are names would be taken
    by_contra htop
    rw [Bool.not_eq_false] at htop
    have hsub : (List.range' (last + 1) (used.length + 1)).map name ⊆ used := by
      intro x hx
      obtain ⟨m, hm, rfl⟩ := List.mem_map.mp hx
      rw [List.mem_range'_1] at hm
      apply htaken
      by_cases heq : m = last + used.length + 1
      · rw [heq, ← hend]
        exact htop
      · exact hbelow m (by omega) (by omega)
    have hnodup : ((List.range' (last + 1) (used.length + 1)).map name).Nodup :=
      (List.nodup_range').map hname
    have hlength := (hnodup.subperm hsub).length_le
    rw [List.length_map, List.length_range'] at hlength
    omega

theorem nodeName_injective : Function.Injective nodeName := by
  intro m n h
  have hdigits : Nat.toDigits 10 m = Nat.toDigits 10 n := by
    unfold nodeName at h
    rw [String.append_right_inj, Nat.toString_eq_ofList_toDigits,
      Nat.toString_eq_ofList_toDigits] at h
    exact String.ofList_injective h
  rw [← Nat.ofDigitChars_ten_toDigits (n := m), hdigits, Nat.ofDigitChars_ten_toDigits]

/-- The name given to a new node is free. -/
theorem hasNode_nodeName_nextFree {g : Graph α} (h : g.WellFormed) :
    g.hasNode (nodeName (nextFree (g.hasNode ∘ nodeName) g.nodes.length g.lastNode)) = false := by
  have hfree := nextFree_free nodeName_injective (g.nodes.map (·.id)) (g.hasNode ∘ nodeName)
    (fun n hn => h.hasNode_iff.mp hn) g.lastNode
  rw [List.length_map] at hfree
  exact hfree

/-! ## When a connection is accepted -/

/-- A connection is accepted exactly when both its ends are there, it is not there yet, and a socket
for one connection is still free. -/
theorem connectionFault?_eq_none {g : Graph α} {c : Connection} :
    g.connectionFault? c = none ↔
      ∃ source, g.node? c.source = some source ∧ (source.kind.output? c.output).isSome ∧
      ∃ target, g.node? c.target = some target ∧
      ∃ socket, target.kind.input? c.input = some socket ∧ c ∉ g.connections ∧
        ¬(socket.multiplicity = .single ∧ g.isConnected c.target c.input) := by
  unfold connectionFault?
  split
  next hsource => simp [hsource]
  next source hsource =>
    split
    next houtput => simp [hsource, houtput]
    next output houtput =>
      split
      next htarget => simp [htarget]
      next target htarget =>
        split
        next hsocket => simp [htarget, hsocket]
        next socket hsocket =>
          split
          next hthere => simp [hthere]
          next hnew =>
            split
            next hfull => simp [htarget, hsocket, hfull]
            next hroom => simpa [hsource, houtput, htarget, hsocket, hnew] using hroom

theorem isConnected_eq_false {g : Graph α} {id : NodeId} {input : String} :
    g.isConnected id input = false ↔ g.feeding id input = [] := by
  unfold isConnected feeding
  rw [List.any_eq_false, List.filter_eq_nil_iff]

theorem isConnected_iff {g : Graph α} {id : NodeId} {input : String} :
    g.isConnected id input = true ↔ ∃ c ∈ g.connections, c.target = id ∧ c.input = input := by
  simp [isConnected, connectionsInto]

/-- A new connection comes last among those into its own socket, and not among others. -/
theorem feeding_concat (g : Graph α) (c : Connection) (id : NodeId) (input : String) :
    { g with connections := g.connections ++ [c] }.feeding id input =
      g.feeding id input ++ (if c.target = id ∧ c.input = input then [c] else []) := by
  unfold feeding connectionsInto
  rw [List.filter_append, List.filter_append]
  congr 1
  by_cases htarget : c.target = id <;> by_cases hinput : c.input = input <;>
    simp [htarget, hinput]

/-! ## Edits that leave the nodes alone -/

section

variable {g g' : Graph α} {c : Connection}

theorem nodes_connect (h : g.connect c = .ok g') : g'.nodes = g.nodes := by
  unfold connect at h
  split at h
  next => cases h
  next => cases h; rfl

theorem nodes_disconnect (h : g.disconnect c = .ok g') : g'.nodes = g.nodes := by
  unfold disconnect at h
  split at h
  next => cases h; rfl
  next => cases h

theorem nodes_removeComment {id : CommentId} {comment : Comment}
    (h : g.removeComment id = .ok (comment, g')) : g'.nodes = g.nodes := by
  unfold removeComment at h
  split at h
  next => cases h
  next => cases h; rfl

theorem nodes_setCommentText {id : CommentId} {text : String}
    (h : g.setCommentText id text = .ok g') : g'.nodes = g.nodes := by
  unfold setCommentText at h
  split at h
  next => cases h; rfl
  next => cases h

end

/-! ## One edit -/

namespace WellFormed

variable {g : Graph α}

theorem empty : (Graph.empty : Graph α).WellFormed where
  places id i := by simp [Graph.empty, position?]
  names := List.nodup_nil
  joined c hc := absurd hc List.not_mem_nil
  distinct := List.nodup_nil
  single id k input s hk := absurd hk List.not_mem_nil
  commentNames := List.nodup_nil
  linked c hc := absurd hc List.not_mem_nil

theorem has_push {n : Node α} {id : NodeId} {k : Kind} :
    (g.push n).Has id k ↔ g.Has id k ∨ (id, k) = (n.id, n.kind) := by
  show (id, k) ∈ (g.nodes ++ [n]).map signature ↔ _
  rw [List.map_append, List.mem_append, List.map_singleton, List.mem_singleton]
  rfl

/-- The new node stands at the end, the others where they stood. -/
theorem places_push (h : g.WellFormed) {n : Node α} (hnot : n.id ∉ g.nodes.map (·.id))
    (id : NodeId) (i : Nat) :
    (g.push n).position? id = some i ↔ ((g.push n).nodes[i]?).map (·.id) = some id := by
  show ((n.id, g.nodes.length) :: g.places).lookup id = some i ↔
    ((g.nodes ++ [n])[i]?).map (·.id) = some id
  rw [List.lookup_cons, ← List.getElem?_map, List.map_append]
  rcases Nat.lt_trichotomy i g.nodes.length with hlt | rfl | hgt
  · rw [List.getElem?_append_left (by simpa using hlt)]
    by_cases hid : id = n.id
    · subst hid
      rw [beq_self_eq_true]
      refine ⟨fun hi => ?_, fun hi => absurd (List.mem_of_getElem? hi) hnot⟩
      cases hi
      omega
    · rw [beq_eq_false_iff_ne.mpr hid, List.getElem?_map]
      exact h.places id i
  · -- at the end there is the new node, and no old place points there
    rw [List.getElem?_append_right (by simp), List.length_map, Nat.sub_self]
    by_cases hid : id = n.id
    · rw [hid, beq_self_eq_true]
      exact ⟨fun _ => rfl, fun _ => rfl⟩
    · rw [beq_eq_false_iff_ne.mpr hid]
      refine ⟨fun hi => ?_, fun hi => absurd (Option.some.inj hi).symm hid⟩
      have hi := (h.places id _).mp hi
      rw [List.getElem?_eq_none (Nat.le_refl _)] at hi
      cases hi
  · rw [List.getElem?_eq_none (by simpa using Nat.succ_le_of_lt hgt)]
    refine ⟨fun hi => ?_, fun hi => by cases hi⟩
    by_cases hid : id = n.id
    · rw [hid, beq_self_eq_true] at hi
      cases hi
      omega
    · rw [beq_eq_false_iff_ne.mpr hid] at hi
      have hi := (h.places id i).mp hi
      rw [List.getElem?_eq_none (Nat.le_of_lt hgt)] at hi
      cases hi

/-- Nothing is connected to a name that is free. -/
theorem feeding_eq_nil (h : g.WellFormed) {id : NodeId} (hnot : id ∉ g.nodes.map (·.id))
    (input : String) : g.feeding id input = [] := by
  rw [feeding, connectionsInto, List.filter_filter, List.filter_eq_nil_iff]
  intro c hc htarget
  obtain ⟨-, k, hk, -⟩ := h.joined c hc
  obtain ⟨m, hm, hid, -⟩ := has_iff.mp hk
  have : c.target = id := by simp at htarget; exact htarget.2
  exact hnot (this ▸ hid ▸ List.mem_map_of_mem hm)

/-- A node with a free name may be put at the end. -/
theorem push (h : g.WellFormed) {n : Node α} (hfree : g.hasNode n.id = false) :
    (g.push n).WellFormed := by
  have hnot : n.id ∉ g.nodes.map (·.id) := fun hmem => by
    rw [h.hasNode_iff.mpr hmem] at hfree
    cases hfree
  refine ⟨h.places_push hnot, ?_, fun c hc => ?_, h.distinct, fun id k input s hk hs hm => ?_,
    h.commentNames, fun c hc id hid => ?_⟩
  · show ((g.nodes ++ [n]).map (·.id)).Nodup
    rw [List.map_append, List.nodup_append]
    refine ⟨h.names, List.nodup_singleton _, fun a ha b hb => ?_⟩
    rw [List.map_singleton, List.mem_singleton] at hb
    exact fun heq => hnot (hb ▸ heq ▸ ha)
  · obtain ⟨⟨k, hk⟩, ⟨k', hk'⟩⟩ := h.joined c hc
    exact ⟨⟨k, has_push.mpr (Or.inl hk.1), hk.2⟩, ⟨k', has_push.mpr (Or.inl hk'.1), hk'.2⟩⟩
  · rcases has_push.mp hk with hk | heq
    · exact h.single id k input s hk hs hm
    · obtain ⟨rfl, rfl⟩ := Prod.mk.inj heq
      show (g.feeding n.id input).length ≤ 1
      rw [h.feeding_eq_nil hnot]
      exact Nat.zero_le 1
  · obtain ⟨k, hk⟩ := h.linked c hc id hid
    exact ⟨k, has_push.mpr (Or.inl hk)⟩

/-- What is of another name stays when a node is taken out. -/
theorem mem_signatures_eraseIdx {place : Nat} {n : Node α} (hplace : g.nodes[place]? = some n)
    {id : NodeId} {k : Kind} (hne : id ≠ n.id) (hk : g.Has id k) :
    (id, k) ∈ (g.nodes.eraseIdx place).map signature := by
  obtain ⟨m, hm, rfl, rfl⟩ := has_iff.mp hk
  obtain ⟨i, hi⟩ := List.mem_iff_getElem?.mp hm
  refine List.mem_map_of_mem (List.mem_eraseIdx_iff_getElem?.mpr ⟨i, ?_, hi⟩)
  intro heq
  rw [heq, hplace] at hi
  exact hne (congrArg Node.id (Option.some.inj hi)).symm

/-- A removed node takes its connections and links along. -/
theorem removeNode (h : g.WellFormed) {id : NodeId} {n : Node α} {g' : Graph α}
    (hg : g.removeNode id = .ok (n, g')) : g'.WellFormed := by
  unfold Graph.removeNode at hg
  split at hg
  next => cases hg
  next place node hlocated =>
    cases hg
    obtain ⟨hplace, rfl⟩ := h.located?_eq_some_iff.mp hlocated
    have hnames : ((g.nodes.eraseIdx place).map (·.id)).Nodup :=
      h.names.sublist ((List.eraseIdx_sublist _ _).map _)
    have hhas : ∀ {id k}, id ≠ n.id → g.Has id k →
        (id, k) ∈ (g.nodes.eraseIdx place).map signature := mem_signatures_eraseIdx hplace
    have hhas' : ∀ {id k}, (id, k) ∈ (g.nodes.eraseIdx place).map signature → g.Has id k :=
      fun hk => ((List.eraseIdx_sublist _ _).map _).subset hk
    have hkept : ∀ {c}, c ∈ g.connections.filter (!·.touches n.id) →
        c ∈ g.connections ∧ c.source ≠ n.id ∧ c.target ≠ n.id := by
      intro c hc
      rw [List.mem_filter] at hc
      simpa [Connection.touches] using hc
    -- the nodes behind the removed one have moved up, so the places are made anew
    refine ⟨fun id i => lookup_placesOf hnames, hnames, fun c hc => ?_, h.distinct.filter _,
      fun id k input s hk hs hm => ?_, ?_, fun c hc id hid => ?_⟩
    · obtain ⟨hc, hsource, htarget⟩ := hkept hc
      obtain ⟨⟨k, hk⟩, ⟨k', hk'⟩⟩ := h.joined c hc
      exact ⟨⟨k, hhas hsource hk.1, hk.2⟩, ⟨k', hhas htarget hk'.1, hk'.2⟩⟩
    · exact Nat.le_trans (((List.filter_sublist).filter _).filter _).length_le
        (h.single id k input s (hhas' hk) hs hm)
    · rw [List.map_map]
      exact h.commentNames
    · obtain ⟨d, hd, rfl⟩ := List.mem_map.mp hc
      rw [List.mem_filter] at hid
      obtain ⟨k, hk⟩ := h.linked d hd id hid.1
      exact ⟨k, hhas (by simpa using hid.2) hk⟩

/-- A panel with a control set makes a node of the same name and kind. -/
theorem signatures_set [Scalar α] {place : Nat} {n : Node α} (hplace : g.nodes[place]? = some n)
    {key : String} {v : Control.Value α} {panel : Panel α}
    (hpanel : n.panel.set key v = .ok panel) :
    (g.nodes.set place { n with panel }).map signature = g.nodes.map signature := by
  obtain ⟨hlt, rfl⟩ := List.getElem?_eq_some_iff.mp hplace
  have hsame : signature { g.nodes[place] with panel } = signature g.nodes[place] := by
    unfold signature Node.kind
    rw [Panel.kind_of_set hpanel]
  rw [List.map_set, hsame, ← List.map_set, List.set_getElem_self]

/-- Setting a control changes neither names nor kinds. -/
theorem setControl [Scalar α] (h : g.WellFormed) {id : NodeId} {key : String}
    {v : Control.Value α} {g' : Graph α} (hg : g.setControl id key v = .ok g') :
    g'.WellFormed := by
  unfold Graph.setControl at hg
  split at hg
  next => cases hg
  next place node hlocated =>
    split at hg
    next => cases hg
    next panel hpanel =>
      cases hg
      obtain ⟨hplace, -⟩ := h.located?_eq_some_iff.mp hlocated
      exact h.of_signatures (signatures_set hplace hpanel) rfl rfl rfl

/-- A connection is added only between sockets that are there, once, and where there is room. -/
theorem connect (h : g.WellFormed) {c : Connection} {g' : Graph α} (hg : g.connect c = .ok g') :
    g'.WellFormed := by
  unfold Graph.connect at hg
  split at hg
  next => cases hg
  next hfault =>
    cases hg
    obtain ⟨source, hsource, houtput, target, htarget, socket, hsocket, hnew, hroom⟩ :=
      connectionFault?_eq_none.mp hfault
    obtain ⟨hsource, hsid⟩ := h.node?_eq_some_iff.mp hsource
    obtain ⟨htarget, htid⟩ := h.node?_eq_some_iff.mp htarget
    have hs : g.Has c.source source.kind := hsid ▸ has_of_mem hsource
    have ht : g.Has c.target target.kind := htid ▸ has_of_mem htarget
    refine ⟨h.places, h.names, fun d hd => ?_, ?_, fun id k input s hk hin hsingle => ?_,
      h.commentNames, h.linked⟩
    · rcases List.mem_append.mp hd with hd | hd
      · obtain ⟨hdsource, hdtarget⟩ := h.joined d hd
        exact ⟨hdsource, hdtarget⟩
      · rw [List.mem_singleton.mp hd]
        exact ⟨⟨_, hs, houtput⟩, ⟨_, ht, by rw [hsocket]; rfl⟩⟩
    · rw [List.nodup_append]
      refine ⟨h.distinct, List.nodup_singleton _, fun a ha b hb heq => ?_⟩
      exact hnew (List.mem_singleton.mp hb ▸ heq ▸ ha)
    · rw [feeding_concat]
      split
      next hsame =>
        -- the new connection is the only one, since its socket was free
        obtain ⟨rfl, rfl⟩ := hsame
        obtain rfl := h.kind_eq ht hk
        obtain rfl := Option.some.inj (hsocket.symm.trans hin)
        have hfree : g.isConnected c.target c.input = false := by
          cases hc : g.isConnected c.target c.input with
          | false => rfl
          | true => exact absurd ⟨hsingle, hc⟩ hroom
        rw [isConnected_eq_false.mp hfree]
        exact Nat.le_refl 1
      next =>
        rw [List.append_nil]
        exact h.single id k input s hk hin hsingle

theorem disconnect (h : g.WellFormed) {c : Connection} {g' : Graph α}
    (hg : g.disconnect c = .ok g') : g'.WellFormed := by
  unfold Graph.disconnect at hg
  split at hg
  next =>
    cases hg
    exact h.of_connections List.erase_sublist
  next => cases hg

/-- A comment takes the place of any of its name and keeps the links to what is there. -/
theorem insertComment (h : g.WellFormed) (c : Comment) : (g.insertComment c).WellFormed := by
  refine h.of_comments ?_ fun d hd id hid => ?_
  · rw [List.map_append, List.nodup_append]
    refine ⟨h.commentNames.sublist ((List.filter_sublist).map _), List.nodup_singleton _, ?_⟩
    intro a ha b hb heq
    obtain ⟨d, hd, rfl⟩ := List.mem_map.mp ha
    have hne : d.id ≠ c.id := by simpa using (List.mem_filter.mp hd).2
    exact hne (heq.trans (List.mem_singleton.mp hb))
  · rcases List.mem_append.mp hd with hd | hd
    · exact h.linked d (List.mem_filter.mp hd).1 id hid
    · rw [List.mem_singleton.mp hd, List.mem_filter] at hid
      obtain ⟨n, hn, rfl⟩ := List.mem_map.mp (h.hasNode_iff.mp hid.2)
      exact ⟨n.kind, has_of_mem hn⟩

theorem removeComment (h : g.WellFormed) {id : CommentId} {c : Comment} {g' : Graph α}
    (hg : g.removeComment id = .ok (c, g')) : g'.WellFormed := by
  unfold Graph.removeComment at hg
  split at hg
  next => cases hg
  next =>
    cases hg
    exact h.of_comments (h.commentNames.sublist ((List.filter_sublist).map _))
      fun d hd => h.linked d (List.mem_filter.mp hd).1

/-- A new text changes neither names nor links. -/
theorem setCommentText (h : g.WellFormed) {id : CommentId} {text : String} {g' : Graph α}
    (hg : g.setCommentText id text = .ok g') : g'.WellFormed := by
  unfold Graph.setCommentText at hg
  split at hg
  next =>
    cases hg
    refine h.of_comments ?_ fun d hd i hi => ?_
    · rw [List.map_map]
      have hname : (Comment.id ∘ fun c : Comment => if c.id == id then { c with text } else c) =
          Comment.id := by
        funext c
        show (if c.id == id then { c with text } else c).id = c.id
        split <;> rfl
      rw [hname]
      exact h.commentNames
    · obtain ⟨c, hc, rfl⟩ := List.mem_map.mp hd
      refine h.linked c hc i ?_
      split at hi <;> exact hi
  next => cases hg

theorem clearComments (h : g.WellFormed) : g.clearComments.WellFormed :=
  h.of_comments List.nodup_nil fun _ hc => absurd hc List.not_mem_nil

end WellFormed

end Patchbay.Graph
