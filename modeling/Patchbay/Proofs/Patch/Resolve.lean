import Patchbay.Proofs.Patch.Order
/-!
# Building what feeds a node

`resolve` goes against the connections, depth first. When it ends well it has built nodes one after
another, each once and after all that feeds it (`trail_of_resolve`). When it fails, then at a node
that lies on a circle, or at one that could not be built (`blamed_of_resolve`): sources are always
there, since the graph is well-formed, and the nodes whose inputs are being built are distinct, so
that a depth of one more than there are nodes is never used up.

A depth that was not used up could have been any greater one (`resolve_add`).
-/

namespace Patchbay.Assembly

open Relation (ReflTransGen TransGen)

variable {α : Type} {g : Graph α}

/-! ## Following connections -/

/-- Socket by socket every connection into a node is met. -/
theorem mem_supplies (hg : g.WellFormed) {n : Node α} (hn : n ∈ g.nodes) {c : Connection} :
    c ∈ supplies g n ↔ c ∈ g.connections ∧ c.target = n.id := by
  simp only [supplies, Graph.feeding, Graph.connectionsInto, List.mem_flatMap, List.mem_filter,
    beq_iff_eq]
  constructor
  · rintro ⟨s, -, ⟨hc, htarget⟩, -⟩
    exact ⟨hc, htarget⟩
  · rintro ⟨hc, htarget⟩
    obtain ⟨s, hs, hname⟩ := List.mem_map.mp (hg.input_mem hc hn htarget)
    exact ⟨s, hs, ⟨hc, htarget⟩, hname.symm⟩

/-- The source of a connection has its output as soon as it is built. -/
theorem Furnished.isSome_handle? {a : Assembly α} (ha : Furnished g a) (hg : g.WellFormed)
    {c : Connection} (hc : c ∈ g.connections) (hdone : c.source ∈ a.done) :
    (a.handle? c).isSome := by
  obtain ⟨n, hn, hid, houtput⟩ := hg.source hc
  obtain ⟨part, hpart⟩ := Option.isSome_iff_exists.mp (isSome_part?_iff.mpr hdone)
  unfold handle?
  rw [hpart]
  exact ha n hn part (hid ▸ hpart) c.output houtput

variable {build : Node α → Assembly α → Except (Stopped α) (Assembly α)}

theorem build_of_follow {a b : Assembly α} {c : Connection} (hg : g.WellFormed)
    (h : follow g build a c = .ok b) :
    ∃ source ∈ g.nodes, source.id = c.source ∧ build source a = .ok b := by
  unfold follow at h
  split at h
  next => cases h
  next source hsource =>
    obtain ⟨hn, hid⟩ := hg.node?_eq_some_iff.mp hsource
    obtain ⟨b', hbuild, h⟩ := bind_eq_ok.mp h
    split at h
    next =>
      cases h
      exact ⟨source, hn, hid, hbuild⟩
    next => cases h

/-- Following a connection fails where its source cannot be built, or where the source is built and
has not the output. -/
theorem build_of_follow_error {a : Assembly α} {c : Connection} {stopped : Stopped α}
    (hg : g.WellFormed) (hc : c ∈ g.connections) (h : follow g build a c = .error stopped) :
    ∃ source ∈ g.nodes, source.id = c.source ∧ (build source a = .error stopped ∨
      ∃ b, build source a = .ok b ∧ ¬(b.handle? c).isSome) := by
  unfold follow at h
  split at h
  next hnone =>
    obtain ⟨n, hn, hid, -⟩ := hg.source hc
    rw [hg.node?_eq_some_iff.mpr ⟨hn, hid⟩] at hnone
    cases hnone
  next source hsource =>
    obtain ⟨hn, hid⟩ := hg.node?_eq_some_iff.mp hsource
    refine ⟨source, hn, hid, ?_⟩
    rcases bind_eq_error.mp h with hbuild | ⟨b, hbuild, h⟩
    · exact Or.inl hbuild
    · split at h
      next => cases h
      next hmissing => exact Or.inr ⟨b, hbuild, hmissing⟩

/-! ## Ending well -/

variable [Scalar α] {master : PrimitiveId} {noise : Noise.Source α}

/-- `build` ends with a trail of nodes that reach the one that is built, none of them on the path,
and with that node built. -/
def Sound (g : Graph α) (master : PrimitiveId) (noise : Noise.Source α) (path : List NodeId)
    (build : Node α → Assembly α → Except (Stopped α) (Assembly α)) : Prop :=
  ∀ n ∈ g.nodes, ∀ a b, build n a = .ok b →
    (∃ order, Trail g master noise (fun id => ReflTransGen g.Feeds id n.id ∧ id ∉ path)
      a order b) ∧ n.id ∈ b.done

/-- Following connections into a node, one after another. -/
theorem Sound.trail_of_follow (hg : g.WellFormed) {path : List NodeId}
    (hbuild : Sound g master noise path build) {id : NodeId} {cs : List Connection}
    (hcs : ∀ c ∈ cs, c ∈ g.connections ∧ c.target = id) {a b : Assembly α}
    (h : cs.foldlM (follow g build) a = .ok b) :
    (∃ order, Trail g master noise (fun id' => ReflTransGen g.Feeds id' id ∧ id' ∉ path)
      a order b) ∧ ∀ c ∈ cs, c.source ∈ b.done := by
  refine Trail.of_foldlM (fun c hc a b hfollow => ?_) h
  obtain ⟨source, hn, hid, hsource⟩ := build_of_follow hg hfollow
  obtain ⟨⟨order, htrail⟩, hdone⟩ := hbuild source hn a b hsource
  have hfeeds : g.Feeds source.id id := ⟨c, (hcs c hc).1, hid.symm, (hcs c hc).2⟩
  exact ⟨⟨order, htrail.mono fun _ h => ⟨h.1.tail hfeeds, h.2⟩⟩, hid ▸ hdone⟩

theorem trail_of_resolve (hg : g.WellFormed) (depth : Nat) (path : List NodeId) :
    Sound g master noise path (resolve g master noise depth path) := by
  induction depth generalizing path with
  | zero =>
    intro n _ a b h
    cases h
  | succ depth ih =>
    intro n hn a b h
    unfold resolve at h
    split at h
    next hdone =>
      cases h
      exact ⟨⟨[], .nil⟩, isSome_part?_iff.mp hdone⟩
    next hnew =>
      split at h
      next => cases h
      next hpath =>
        obtain ⟨a', hfollow, hnode⟩ := bind_eq_ok.mp h
        obtain ⟨⟨order, htrail⟩, hsources⟩ :=
          (ih (n.id :: path)).trail_of_follow hg (fun c hc => (mem_supplies hg hn).mp hc) hfollow
        -- the node is not among those that were built for it, since these are not on the path
        have hnext : g.Next a'.done n := by
          refine ⟨hn, ?_, ?_⟩
          · rw [htrail.done_eq, List.mem_append, not_or]
            refine ⟨fun hid => hnew (isSome_part?_iff.mpr hid), fun hid => ?_⟩
            obtain ⟨m, hm, hid⟩ := List.mem_map.mp hid
            exact (htrail.property m hm).2 (hid ▸ List.mem_cons_self)
          · rintro _ ⟨c, hc, rfl, htarget⟩
            exact hsources c ((mem_supplies hg hn).mpr ⟨hc, htarget⟩)
        refine ⟨⟨order ++ [n], (htrail.mono fun id h => ?_).concat hnext ⟨.refl, hpath⟩ hnode⟩, ?_⟩
        · exact ⟨h.1, fun hid => h.2 (List.mem_cons_of_mem _ hid)⟩
        · rw [done_of_buildNode hnode]
          exact List.mem_append_right _ (List.mem_singleton_self _)

/-! ## Failing -/

/-- Nodes with a property were built one after another, and then one with the property was found to
lie on a circle or could not be built. -/
def Blamed (g : Graph α) (master : PrimitiveId) (noise : Noise.Source α) (P : NodeId → Prop)
    (a : Assembly α) (stopped : Stopped α) : Prop :=
  ∃ order b, Trail g master noise P a order b ∧
    ((∃ id, stopped.fault = .cycle id ∧ P id ∧ TransGen g.Feeds id id) ∨
      ∃ n ∈ g.nodes, P n.id ∧ buildNode g master noise n b = .error stopped)

theorem Blamed.mono {P Q : NodeId → Prop} {a : Assembly α} {stopped : Stopped α}
    (h : Blamed g master noise P a stopped) (hPQ : ∀ id, P id → Q id) :
    Blamed g master noise Q a stopped := by
  obtain ⟨order, b, htrail, hfault⟩ := h
  refine ⟨order, b, htrail.mono hPQ, hfault.imp ?_ ?_⟩
  · exact fun ⟨id, hcycle, hP, hcircle⟩ => ⟨id, hcycle, hPQ id hP, hcircle⟩
  · exact fun ⟨n, hn, hP, hbuild⟩ => ⟨n, hn, hPQ n.id hP, hbuild⟩

theorem Blamed.after {P : NodeId → Prop} {a a' : Assembly α} {order : List (Node α)}
    {stopped : Stopped α} (htrail : Trail g master noise P a order a')
    (h : Blamed g master noise P a' stopped) : Blamed g master noise P a stopped := by
  obtain ⟨order', b, htrail', hfault⟩ := h
  exact ⟨order ++ order', b, htrail.append htrail', hfault⟩

/-- Where one of several things fails, those before it have built nodes. -/
theorem Blamed.of_foldlM (hg : g.WellFormed) {P : NodeId → Prop} {τ : Type}
    {f : Assembly α → τ → Except (Stopped α) (Assembly α)} {l : List τ}
    (hok : ∀ x ∈ l, ∀ a b, f a x = .ok b → ∃ order, Trail g master noise P a order b)
    (herror : ∀ x ∈ l, ∀ a stopped, Furnished g a → f a x = .error stopped →
      Blamed g master noise P a stopped)
    {a : Assembly α} (ha : Furnished g a) {stopped : Stopped α}
    (h : l.foldlM f a = .error stopped) : Blamed g master noise P a stopped := by
  induction l generalizing a with
  | nil => cases h
  | cons x l ih =>
    rw [List.foldlM_cons] at h
    rcases bind_eq_error.mp h with hx | ⟨a', hx, hrest⟩
    · exact herror x List.mem_cons_self a stopped ha hx
    · obtain ⟨order, htrail⟩ := hok x List.mem_cons_self a a' hx
      exact .after htrail (ih (fun y hy => hok y (List.mem_cons_of_mem _ hy))
        (fun y hy => herror y (List.mem_cons_of_mem _ hy)) (htrail.furnished hg ha) hrest)

/-- Following connections into a node fails only where a source fails. -/
theorem Sound.blamed_of_follow (hg : g.WellFormed) {path : List NodeId}
    (hbuild : Sound g master noise path build) {id : NodeId}
    (hblame : ∀ n ∈ g.nodes, g.Feeds n.id id → ∀ a stopped, Furnished g a →
      build n a = .error stopped → Blamed g master noise (ReflTransGen g.Feeds · n.id) a stopped)
    {cs : List Connection} (hcs : ∀ c ∈ cs, c ∈ g.connections ∧ c.target = id) {a : Assembly α}
    (ha : Furnished g a) {stopped : Stopped α}
    (h : cs.foldlM (follow g build) a = .error stopped) :
    Blamed g master noise (ReflTransGen g.Feeds · id) a stopped := by
  have hfeeds : ∀ c ∈ cs, ∀ n : Node α, n.id = c.source → g.Feeds n.id id :=
    fun c hc n hid => ⟨c, (hcs c hc).1, hid.symm, (hcs c hc).2⟩
  refine .of_foldlM hg (fun c hc a b hfollow => ?_) (fun c hc a stopped ha hfollow => ?_) ha h
  · obtain ⟨source, hn, hid, hsource⟩ := build_of_follow hg hfollow
    obtain ⟨⟨order, htrail⟩, -⟩ := hbuild source hn a b hsource
    exact ⟨order, htrail.mono fun _ h => h.1.tail (hfeeds c hc source hid)⟩
  · obtain ⟨source, hn, hid, hsource⟩ := build_of_follow_error hg (hcs c hc).1 hfollow
    rcases hsource with herror | ⟨b, hok, hmissing⟩
    · exact (hblame source hn (hfeeds c hc source hid) a stopped ha herror).mono
        fun _ h => h.tail (hfeeds c hc source hid)
    · -- a source that is built has its output
      obtain ⟨⟨order, htrail⟩, hdone⟩ := hbuild source hn a b hok
      exact absurd ((htrail.furnished hg ha).isSome_handle? hg (hcs c hc).1 (hid ▸ hdone)) hmissing

theorem blamed_of_resolve (hg : g.WellFormed) {depth : Nat} {path : List NodeId} {n : Node α}
    (hn : n ∈ g.nodes) (hclimb : g.Climb path n.id)
    (hdepth : g.nodes.length + 1 ≤ depth + path.length) {a : Assembly α} (ha : Furnished g a)
    {stopped : Stopped α} (h : resolve g master noise depth path n a = .error stopped) :
    Blamed g master noise (ReflTransGen g.Feeds · n.id) a stopped := by
  induction depth generalizing path n a stopped with
  | zero =>
    -- the path would have more nodes than the graph
    have := hclimb.length_le
    omega
  | succ depth ih =>
    unfold resolve at h
    split at h
    next => cases h
    next =>
      split at h
      next hpath =>
        cases h
        exact ⟨[], a, .nil, Or.inl ⟨n.id, rfl, .refl, hclimb.leads n.id hpath⟩⟩
      next hpath =>
        have hsound : Sound g master noise (n.id :: path)
            (resolve g master noise depth (n.id :: path)) := trail_of_resolve hg depth _
        have hcs : ∀ c ∈ supplies g n, c ∈ g.connections ∧ c.target = n.id :=
          fun c hc => (mem_supplies hg hn).mp hc
        rcases bind_eq_error.mp h with hfollow | ⟨b, hfollow, hbuild⟩
        · refine hsound.blamed_of_follow hg (fun m hm hfeeds a' stopped' ha' h' => ?_) hcs ha
            hfollow
          refine ih hm (hclimb.step (List.mem_map_of_mem hn) hpath hfeeds) ?_ ha' h'
          rw [List.length_cons]
          omega
        · obtain ⟨⟨order, htrail⟩, -⟩ := hsound.trail_of_follow hg hcs hfollow
          exact ⟨order, b, htrail.mono fun _ h => h.1, Or.inr ⟨n, hn, .refl, hbuild⟩⟩

/-! ## Every sink -/

theorem trail_of_resolveSinks (hg : g.WellFormed) {depth : Nat} {a b : Assembly α}
    (h : resolveSinks g master noise depth a = .ok b) :
    (∃ order, Trail g master noise g.Upstream a order b) ∧ ∀ sink ∈ g.sinks, sink.id ∈ b.done := by
  refine Trail.of_foldlM (fun sink hsink a b hresolve => ?_) h
  obtain ⟨⟨order, htrail⟩, hdone⟩ :=
    trail_of_resolve hg depth [] sink (Graph.mem_nodes_of_mem_sinks hsink) a b hresolve
  exact ⟨⟨order, htrail.mono fun _ h => ⟨sink, hsink, h.1⟩⟩, hdone⟩

theorem blamed_of_resolveSinks (hg : g.WellFormed) {depth : Nat}
    (hdepth : g.nodes.length + 1 ≤ depth) {a : Assembly α} (ha : Furnished g a)
    {stopped : Stopped α} (h : resolveSinks g master noise depth a = .error stopped) :
    Blamed g master noise g.Upstream a stopped := by
  refine .of_foldlM hg (fun sink hsink a b hresolve => ?_)
    (fun sink hsink a stopped ha hresolve => ?_) ha h
  · obtain ⟨⟨order, htrail⟩, -⟩ :=
      trail_of_resolve hg depth [] sink (Graph.mem_nodes_of_mem_sinks hsink) a b hresolve
    exact ⟨order, htrail.mono fun _ h => ⟨sink, hsink, h.1⟩⟩
  · have hn := Graph.mem_nodes_of_mem_sinks hsink
    exact (blamed_of_resolve hg hn .nil hdepth ha hresolve).mono fun _ h => ⟨sink, hsink, h⟩

/-! ## More depth -/

/-- The depth was not used up. -/
def Within (r : Except (Stopped α) (Assembly α)) : Prop :=
  ∀ id a, r ≠ .error ⟨.tooDeep id, a⟩

omit [Scalar α] in
/-- Two steps that do not use up the depth may be exchanged for any that agree with them where the
depth is not used up. -/
theorem Within.bind_congr {r r' : Except (Stopped α) (Assembly α)}
    {f f' : Assembly α → Except (Stopped α) (Assembly α)} (h : Within (r >>= f))
    (hr : Within r → r' = r) (hf : ∀ a, Within (f a) → f' a = f a) :
    (r' >>= f') = (r >>= f) := by
  cases r with
  | error stopped =>
    rw [hr fun id a heq => h id a (by rw [heq]; rfl)]
    rfl
  | ok a =>
    rw [hr fun id a heq => by cases heq]
    exact hf a h

omit [Scalar α] in
theorem foldlM_follow_congr {build build' : Node α → Assembly α → Except (Stopped α) (Assembly α)}
    (hbuild : ∀ n a, Within (build n a) → build' n a = build n a) {cs : List Connection}
    {a : Assembly α} (h : Within (cs.foldlM (follow g build) a)) :
    cs.foldlM (follow g build') a = cs.foldlM (follow g build) a := by
  induction cs generalizing a with
  | nil => rfl
  | cons c cs ih =>
    rw [List.foldlM_cons] at h
    rw [List.foldlM_cons, List.foldlM_cons]
    refine h.bind_congr (fun hfollow => ?_) fun a' => ih
    unfold follow at hfollow ⊢
    split
    next => rfl
    next source hsource =>
      rw [hsource] at hfollow
      exact hfollow.bind_congr (hbuild source a) fun _ _ => rfl

/-- A depth that was not used up could have been any greater one. -/
theorem resolve_add {depth : Nat} (more : Nat) {path : List NodeId} {n : Node α} {a : Assembly α}
    (h : Within (resolve g master noise depth path n a)) :
    resolve g master noise (depth + more) path n a = resolve g master noise depth path n a := by
  induction depth generalizing path n a with
  | zero => exact absurd rfl (h n.id a)
  | succ depth ih =>
    rw [Nat.add_right_comm]
    unfold resolve at h ⊢
    split
    next => rfl
    next hnew =>
      split
      next => rfl
      next hpath =>
        rw [if_neg hnew, if_neg hpath] at h
        exact h.bind_congr (foldlM_follow_congr fun m a' => ih) fun _ _ => rfl

theorem resolveSinks_add {depth : Nat} (more : Nat) {a : Assembly α}
    (h : Within (resolveSinks g master noise depth a)) :
    resolveSinks g master noise (depth + more) a = resolveSinks g master noise depth a := by
  unfold resolveSinks at h ⊢
  generalize g.sinks = sinks at h ⊢
  induction sinks generalizing a with
  | nil => rfl
  | cons sink sinks ih =>
    rw [List.foldlM_cons] at h
    rw [List.foldlM_cons, List.foldlM_cons]
    exact h.bind_congr (resolve_add more) fun _ => ih

end Patchbay.Assembly
