import Patchbay.Proofs.Patch.Outcome
import Patchbay.Proofs.Patch.Veiled
/-!
# Hidden values

The inline value of a socket is hidden while something is connected to the socket. It still goes
into the setup of a primitive (`Kind.blueprint_veiled`), but the parameter is then set to zero, and
no knob is made for it. So two graphs that differ in hidden values only are built in the same way
and with the same result, on racks that differ where it does not show (`Graph.build_sameShown`).

The proof follows the two buildings side by side: each ends well when the other does, and stops for
the same reason otherwise (`Assembly.Matches`).
-/

namespace Patchbay

variable {α : Type}

/-! ## Graphs with the same shown values -/

/-- A control of a node is hidden when it is the inline value of a socket that something is
connected to. -/
def Graph.Hidden (g : Graph α) (n : Node α) (key : String) : Prop :=
  ∃ s ∈ n.kind.inputs, s.inline = some key ∧ g.isConnected n.id s.name = true

variable [Scalar α]

/-- The same node but for the values that are hidden in a graph. -/
structure Node.SameShown (g : Graph α) (n n' : Node α) : Prop where
  id : n'.id = n.id
  kind : n'.kind = n.kind
  shown : ∀ key, ¬g.Hidden n key → n'.panel.get? key = n.panel.get? key

/-- Graphs with the same nodes and connections, in the same order, but for hidden values. -/
structure Graph.SameShown (g g' : Graph α) : Prop where
  nodes : List.Forall₂ (Node.SameShown g) g.nodes g'.nodes
  connections : g'.connections = g.connections

theorem Node.SameShown.refl (g : Graph α) (n : Node α) : n.SameShown g n :=
  ⟨rfl, rfl, fun _ _ => rfl⟩

/-- Setting a hidden control changes hidden values only. -/
theorem Graph.WellFormed.sameShown_setControl {g g' : Graph α} (hg : g.WellFormed) {n : Node α}
    (hn : n ∈ g.nodes) {key : String} {v : Control.Value α} (h : g.setControl n.id key v = .ok g')
    (hhidden : g.Hidden n key) : g.SameShown g' := by
  unfold Graph.setControl at h
  split at h
  next => cases h
  next place node hlocated =>
    obtain ⟨hplace, hid⟩ := hg.located?_eq_some_iff.mp hlocated
    obtain rfl : node = n := hg.eq_of_id_eq (List.mem_of_getElem? hplace) hn hid
    split at h
    next => cases h
    next panel hpanel =>
      cases h
      have hset : node.SameShown g { node with panel } := by
        refine ⟨rfl, Panel.kind_of_set hpanel, fun other hother => Panel.get?_of_set hpanel ?_⟩
        rintro rfl
        exact hother hhidden
      refine ⟨List.forall₂_iff_get.mpr ⟨(List.length_set ..).symm, fun i hi hi' => ?_⟩, rfl⟩
      rw [List.get_eq_getElem, List.get_eq_getElem, List.getElem_set]
      split
      next heq =>
        subst heq
        obtain ⟨_, hnode⟩ := List.getElem?_eq_some_iff.mp hplace
        rw [hnode]
        exact hset
      next => exact .refl g _

namespace Graph.SameShown

variable {g g' : Graph α}

theorem feeding_eq (h : g.SameShown g') (id : NodeId) (input : String) :
    g'.feeding id input = g.feeding id input := by
  unfold feeding connectionsInto
  rw [h.connections]

/-- The nodes have the same names in the same order. -/
theorem ids_eq (h : g.SameShown g') : g'.nodes.map (·.id) = g.nodes.map (·.id) :=
  map_eq_map_of_forall₂ (h.nodes.imp fun _ _ hn => hn.id.symm)

theorem sinks (h : g.SameShown g') : List.Forall₂ (Node.SameShown g) g.sinks g'.sinks := by
  refine List.rel_filter ?_ h.nodes
  intro n n' hn
  simp [hn.kind]

/-- A node that is found in one graph has its like in the other. -/
theorem exists_node (h : g.SameShown g') (hg : g.WellFormed) (hg' : g'.WellFormed) {n : Node α}
    {id : NodeId} (hn : g.node? id = some n) :
    ∃ n' ∈ g'.nodes, n.SameShown g n' ∧ g'.node? id = some n' := by
  obtain ⟨hmem, hid⟩ := hg.node?_eq_some_iff.mp hn
  obtain ⟨n', hmem', hshown⟩ := exists_of_mem_forall₂ h.nodes hmem
  exact ⟨n', hmem', hshown, hg'.node?_eq_some_iff.mpr ⟨hmem', hshown.id.trans hid⟩⟩

end Graph.SameShown

/-! ## Blueprints -/

namespace Setup

/-- The pitch that an oscillator is made with is the first value of its frequency. -/
theorem veiled_oscillator (waveform : Waveform) (f f' : α) :
    Veiled (some .frequency) (.oscillator waveform f) (.oscillator waveform f') where
  frame := ⟨rfl, rfl, rfl, rfl, rfl, rfl⟩
  bare param hparam := by
    cases hparam
    exact .some ⟨rfl, rfl⟩
  same param hparam := by
    cases param
    case frequency => exact absurd rfl hparam
    all_goals rfl

/-- The level that a gain is made with is the first value of its gain. -/
theorem veiled_gain (x x' : α) : Veiled (some .gain) (.gain x) (.gain x') where
  frame := ⟨rfl, rfl, rfl, rfl, rfl, rfl⟩
  bare param hparam := by
    cases hparam
    exact .some ⟨rfl, rfl⟩
  same param hparam := by
    cases param
    case gain => exact absurd rfl hparam
    all_goals rfl

end Setup

/-- The same blueprint, or one that creates its first primitive with another first value of a
parameter that is set afterwards. -/
inductive Blueprint.Veiled (next : PrimitiveId) :
    Except Rejection (Blueprint α) → Except Rejection (Blueprint α) → Prop
  | same (r : Except Rejection (Blueprint α)) : Veiled next r r
  | setup {s s' : Setup α} {param : Param} {v : α} {rest : List (Step α)} {part : Part α} :
    Setup.Veiled (some param) s s' → .setValue ⟨next, param⟩ v ∈ rest →
    Veiled next (.ok ⟨.create s :: rest, part⟩) (.ok ⟨.create s' :: rest, part⟩)

theorem Blueprint.Veiled.of_eq {next : PrimitiveId} {r r' : Except Rejection (Blueprint α)}
    (h : r' = r) : Veiled next r r' := by
  subst h
  exact .same r'

namespace Kind

/-- A control is the inline value of at most one socket. -/
theorem inline_inj {k : Kind} {s s' : Socket} (hs : s ∈ k.inputs) (hs' : s' ∈ k.inputs)
    (hinline : s.inline.isSome) (hsame : s'.inline = s.inline) : s' = s := by
  have hall : ∀ s ∈ k.inputs, ∀ s' ∈ k.inputs, s.inline.isSome → s'.inline = s.inline → s' = s := by
    cases k <;> decide
  exact hall s hs s' hs' hinline hsame

variable {panel panel' : Panel α} {site : Site α}

/-- A socket with sources does not use its inline value. -/
theorem driven_eq
    (hshown : ∀ key, (∀ s ∈ panel.kind.inputs, s.inline = some key → site.inputs s.name = []) →
      panel'.get? key = panel.get? key)
    {s : Socket} (hs : s ∈ panel.kind.inputs) (hinline : s.inline.isSome) (dial : Dial)
    (range : Range α) : driven panel' site s dial range = driven panel site s dial range := by
  obtain ⟨key, hkey⟩ := Option.isSome_iff_exists.mp hinline
  unfold driven
  by_cases hsources : site.inputs s.name = []
  · have hsame : panel'.get? key = panel.get? key := by
      refine hshown key fun s' hs' hkey' => ?_
      rw [inline_inj hs hs' hinline (hkey'.trans hkey.symm)]
      exact hsources
    rw [hkey, Option.getD_some, Panel.number, Panel.number, hsame]
  · have hnonempty : ¬(site.inputs s.name).isEmpty = true := fun h =>
      hsources (List.isEmpty_iff.mp h)
    dsimp only [Socket.drive]
    rw [if_neg hnonempty, if_neg hnonempty]

/-- Values of controls whose sockets all have sources are veiled in a blueprint. -/
theorem blueprint_veiled (hkind : panel'.kind = panel.kind)
    (hshown : ∀ key, (∀ s ∈ panel.kind.inputs, s.inline = some key → site.inputs s.name = []) →
      panel'.get? key = panel.get? key) :
    Blueprint.Veiled site.next (blueprint panel site) (blueprint panel' site) := by
  have heq := @driven_eq α _ panel panel' site hshown
  obtain ⟨kind, values⟩ := panel
  obtain ⟨kind', values'⟩ := panel'
  obtain rfl : kind' = kind := hkind
  have hdriven : ∀ s ∈ kind'.inputs, s.inline.isSome → ∀ dial range,
      driven ⟨kind', values'⟩ site s dial range = driven ⟨kind', values⟩ site s dial range :=
    fun s hs hinline dial range => heq hs hinline dial range
  -- a control that is no inline value is shown
  have hfree : ∀ key, (∀ s ∈ kind'.inputs, s.inline ≠ some key) →
      Panel.get? ⟨kind', values'⟩ key = Panel.get? ⟨kind', values⟩ key :=
    fun key hkey => hshown key fun s hs hinline => absurd hinline (hkey s hs)
  -- and so is an inline value that is in effect
  have hused : ∀ s ∈ kind'.inputs, ∀ key, s.inline = some key → site.inputs s.name = [] →
      Panel.get? ⟨kind', values'⟩ key = Panel.get? ⟨kind', values⟩ key := by
    intro s hs key hkey hsources
    refine hshown key fun s' hs' hkey' => ?_
    rw [inline_inj hs hs' (hkey ▸ rfl) (hkey'.trans hkey.symm)]
    exact hsources
  cases kind'
  case oscillator =>
    have hwaveform := hfree "waveform" (by decide)
    have hbase := hdriven baseFrequency (by decide) rfl
    simp only [blueprint, Panel.choice, hwaveform, hbase]
    by_cases hsources : site.inputs baseFrequency.name = []
    · have hpitch := hused baseFrequency (by decide) "baseFreq" rfl hsources
      simp only [Panel.number, hpitch]
      exact .same _
    · refine .setup (v := 0.0) (Setup.veiled_oscillator _ _ _) ?_
      rw [driven, Socket.drive, if_neg (mt List.isEmpty_iff.mp hsources)]
      exact List.mem_append_left _ List.mem_cons_self
  case gain =>
    have hlevel := hdriven gainLevel (by decide) rfl
    simp only [blueprint, hlevel]
    by_cases hsources : site.inputs gainLevel.name = []
    · have hgain := hused gainLevel (by decide) "gain" rfl hsources
      simp only [Panel.number, hgain]
      exact .same _
    · refine .setup (v := 0.0) (Setup.veiled_gain _ _) ?_
      rw [driven, Socket.drive, if_neg (mt List.isEmpty_iff.mp hsources)]
      exact List.mem_append_right _ List.mem_cons_self
  case biquadFilter =>
    have hresponse := hfree "filterType" (by decide)
    have hfrequency := hdriven filterFrequency (by decide) rfl
    have hq := hdriven filterQ (by decide) rfl
    have hgain := hdriven gainLevel (by decide) rfl
    refine .of_eq ?_
    simp only [blueprint, Panel.choice, hresponse, List.map_cons, List.map_nil, hfrequency, hq,
      hgain]
  case delay =>
    have hlongest := hfree "maxDelay" (by decide)
    have htime := hdriven delayTime (by decide) rfl
    refine .of_eq ?_
    simp only [blueprint, htime]
    simp only [Panel.number, hlongest]
  -- the other kinds have no inline values
  all_goals
    have hall : ∀ key, Panel.get? ⟨_, values'⟩ key = Panel.get? ⟨_, values⟩ key :=
      fun key => hfree key (by simp [inputs, signalIn, keysFrequency, Socket.signalInput,
        Socket.additional])
    refine .of_eq ?_
    simp only [blueprint, Panel.number, Panel.choice, Panel.profile, hall]

end Kind

/-! ## Building side by side -/

namespace Assembly

variable {g g' : Graph α} {master : PrimitiveId} {noise : Noise.Source α} {a a' : Assembly α}

/-- Assemblies that differ where it does not show, on racks that refuse nothing. -/
structure Twin (a a' : Assembly α) : Prop where
  veiled : Veiled none a a'
  refused : a.rack.refused = []

/-- Two buildings that end in the same way, with assemblies that differ where it does not show. -/
inductive Matches : Except (Stopped α) (Assembly α) → Except (Stopped α) (Assembly α) → Prop
  | ok {b b' : Assembly α} (h : Twin b b') : Matches (.ok b) (.ok b')
  | error {b b' : Assembly α} (h : Twin b b') (fault : Patch.Fault) :
    Matches (.error ⟨fault, b⟩) (.error ⟨fault, b'⟩)

omit [Scalar α] in
theorem Matches.bind {x x' : Except (Stopped α) (Assembly α)} (h : Matches x x')
    {f f' : Assembly α → Except (Stopped α) (Assembly α)}
    (hf : ∀ a a', x = .ok a → Twin a a' → Matches (f a) (f' a')) :
    Matches (x >>= f) (x' >>= f') := by
  cases h with
  | ok h => exact hf _ _ rfl h
  | error h fault => exact .error h fault

omit [Scalar α] in
/-- Two lists of things, done one after another, from assemblies with a property that is kept. -/
theorem Matches.foldlM {τ : Type} {S : τ → τ → Prop} {P : Assembly α → Prop}
    {f f' : Assembly α → τ → Except (Stopped α) (Assembly α)} {l l' : List τ}
    (hl : List.Forall₂ S l l')
    (hf : ∀ x ∈ l, ∀ x', S x x' → ∀ a a', P a → Twin a a' → Matches (f a x) (f' a' x'))
    (hP : ∀ x ∈ l, ∀ a b, P a → f a x = .ok b → P b) (ha : P a) (h : Twin a a') :
    Matches (l.foldlM f a) (l'.foldlM f' a') := by
  induction hl generalizing a a' with
  | nil => exact .ok h
  | cons hx _ ih =>
    rw [List.foldlM_cons, List.foldlM_cons]
    refine (hf _ List.mem_cons_self _ hx a a' ha h).bind fun b b' hb hbb => ?_
    exact ih (fun y hy => hf y (List.mem_cons_of_mem _ hy))
      (fun y hy => hP y (List.mem_cons_of_mem _ hy)) (hP _ List.mem_cons_self a b ha hb) hbb

omit [Scalar α] in
theorem Veiled.part?_eq {loose : Option Dial} (h : Veiled loose a a') (id : NodeId) :
    a'.part? id = a.part? id := by
  unfold part?
  rw [h.parts]

omit [Scalar α] in
theorem Veiled.handle?_eq {loose : Option Dial} (h : Veiled loose a a') (c : Connection) :
    a'.handle? c = a.handle? c := by
  unfold handle?
  rw [h.part?_eq]

/-- The next node is built at the same place, with the same inputs. -/
theorem Veiled.site_eq (h : Veiled none a a') (hsame : g.SameShown g') {n n' : Node α}
    (hn : n.SameShown g n') :
    a'.site master noise (a'.feeds g' n'.id) = a.site master noise (a.feeds g n.id) := by
  have hfeeds : a'.feeds g' n'.id = a.feeds g n.id := by
    funext socket
    unfold feeds
    rw [hsame.feeding_eq, hn.id, funext h.handle?_eq]
  unfold site
  rw [hfeeds, h.rack.size, h.rack.sampleRate, h.voicing]

omit [Scalar α] in
/-- A socket that something is connected to has sources when these are built. -/
theorem feeds_ne_nil {n : Node α}
    (hfed : ∀ c ∈ g.connections, c.target = n.id → (a.handle? c).isSome) {input : String}
    (hconnected : g.isConnected n.id input = true) : a.feeds g n.id input ≠ [] := by
  obtain ⟨c, hc, htarget, hinput⟩ := Graph.isConnected_iff.mp hconnected
  obtain ⟨source, hsource⟩ := Option.isSome_iff_exists.mp (hfed c hc htarget)
  have hfeeding : c ∈ g.feeding n.id input := by
    simp [Graph.feeding, Graph.connectionsInto, hc, htarget, hinput]
  exact List.ne_nil_of_mem (List.mem_filterMap.mpr ⟨c, hfeeding, hsource⟩)

/-- A node whose inputs are built is built alike. -/
theorem Twin.buildNode (h : Twin a a') (hsame : g.SameShown g') {n n' : Node α}
    (hn : n.SameShown g n')
    (hfed : ∀ c ∈ g.connections, c.target = n.id → (a.handle? c).isSome) :
    Matches (buildNode g master noise n a) (buildNode g' master noise n' a') := by
  have hshown : ∀ key, (∀ s ∈ n.panel.kind.inputs, s.inline = some key →
      (a.site master noise (a.feeds g n.id)).inputs s.name = []) →
      n'.panel.get? key = n.panel.get? key := by
    intro key hsources
    refine hn.shown key ?_
    rintro ⟨s, hs, hinline, hconnected⟩
    exact feeds_ne_nil hfed hconnected (hsources s hs hinline)
  have hplans := Kind.blueprint_veiled hn.kind hshown
  unfold Assembly.buildNode
  rw [h.veiled.site_eq hsame hn, hn.id]
  -- on a rack that refuses nothing the steps are carried out to their end
  have hfinish : ∀ {b b' : Assembly α} (part : Part α), Twin b b' →
      Twin { b with parts := b.parts ++ [(n.id, part)] }
        { b' with parts := b'.parts ++ [(n.id, part)] } := by
    intro b b' part hb
    refine ⟨⟨hb.veiled.rack, hb.veiled.voicing, hb.veiled.made, ?_⟩, hb.refused⟩
    dsimp only
    rw [hb.veiled.parts]
  generalize Kind.blueprint n.panel _ = r, Kind.blueprint n'.panel _ = r' at hplans
  cases hplans with
  | same =>
    cases r with
    | error rejection => exact .error h _
    | ok plan =>
      obtain ⟨b, b', hb, hb', hrefused, hveiled⟩ :=
        h.veiled.run h.refused plan.steps fun _ => nofun
      dsimp only
      rw [hb, hb']
      exact .ok (hfinish plan.part ⟨hveiled, hrefused⟩)
  | setup hsetup hset =>
    obtain ⟨c, c', hc, hc', hrefused, hveiled⟩ := h.veiled.create h.refused hsetup
    obtain ⟨b, b', hb, hb', hrefused', hveiled'⟩ := hveiled.run hrefused _ fun dial hdial => by
      cases hdial
      exact ⟨_, hset⟩
    dsimp only
    rw [List.foldlM_cons, List.foldlM_cons, hc, hc']
    show Matches (List.foldlM _ _ _ >>= _) (List.foldlM _ _ _ >>= _)
    rw [hb, hb']
    exact .ok (hfinish _ ⟨hveiled', hrefused'⟩)

/-- Following a connection on both sides. -/
theorem Matches.follow (hsame : g.SameShown g') (hg : g.WellFormed) (hg' : g'.WellFormed)
    {build build' : Node α → Assembly α → Except (Stopped α) (Assembly α)} {c : Connection}
    (hc : c ∈ g.connections)
    (hbuild : ∀ n ∈ g.nodes, ∀ n' ∈ g'.nodes, n.SameShown g n' →
      Matches (build n a) (build' n' a')) :
    Matches (follow g build a c) (follow g' build' a' c) := by
  obtain ⟨n, hn, hid, -⟩ := hg.source hc
  have hnode : g.node? c.source = some n := hg.node?_eq_some_iff.mpr ⟨hn, hid⟩
  obtain ⟨n', hn', hshown, hnode'⟩ := hsame.exists_node hg hg' hnode
  unfold Assembly.follow
  rw [hnode, hnode']
  refine (hbuild n hn n' hn' hshown).bind fun b b' _ hb => ?_
  rw [hb.veiled.handle?_eq]
  split
  next => exact .ok hb
  next => exact .error hb _

theorem matches_resolve (hsame : g.SameShown g') (hg : g.WellFormed) (hg' : g'.WellFormed)
    (depth : Nat) (path : List NodeId) {n n' : Node α} (hn : n ∈ g.nodes)
    (hshown : n.SameShown g n') (ha : Furnished g a) (h : Twin a a') :
    Matches (resolve g master noise depth path n a) (resolve g' master noise depth path n' a') := by
  induction depth generalizing path n n' a a' with
  | zero =>
    unfold resolve
    rw [hshown.id]
    exact .error h _
  | succ depth ih =>
    unfold resolve
    rw [hshown.id, h.veiled.part?_eq]
    split
    next => exact .ok h
    next =>
      split
      next => exact .error h _
      next =>
        have hsupplies : supplies g' n' = supplies g n := by
          unfold supplies
          rw [hshown.kind, hshown.id]
          exact List.flatMap_congr fun s _ => hsame.feeding_eq _ _
        have hcs : ∀ c ∈ supplies g n, c ∈ g.connections ∧ c.target = n.id :=
          fun c hc => (mem_supplies hg hn).mp hc
        have hsound : Sound g master noise (n.id :: path)
            (resolve g master noise depth (n.id :: path)) := trail_of_resolve hg depth _
        have hfollow : Matches
            ((supplies g n).foldlM (follow g (resolve g master noise depth (n.id :: path))) a)
            ((supplies g' n').foldlM (follow g' (resolve g' master noise depth (n.id :: path)))
              a') := by
          rw [hsupplies]
          refine .foldlM (S := Eq) (P := Furnished g) (List.forall₂_eq_eq_eq ▸ rfl)
            (fun c hc c' hcc b b' hb hbb => ?_) (fun c hc b b' hb hfollow => ?_) ha h
          · subst hcc
            exact .follow hsame hg hg' (hcs c hc).1 fun m hm m' _ hmm =>
              ih (n.id :: path) hm hmm hb hbb
          · obtain ⟨m, hm, -, hresolve⟩ := build_of_follow hg hfollow
            obtain ⟨⟨order, htrail⟩, -⟩ := hsound m hm b b' hresolve
            exact htrail.furnished hg hb
        refine hfollow.bind fun b b' hb hbb => ?_
        obtain ⟨⟨order, htrail⟩, hsources⟩ := hsound.trail_of_follow hg hcs hb
        refine hbb.buildNode hsame hshown fun c hc htarget => ?_
        exact (htrail.furnished hg ha).isSome_handle? hg hc
          (hsources c ((mem_supplies hg hn).mpr ⟨hc, htarget⟩))

variable (master noise) in
theorem matches_resolveSinks (hsame : g.SameShown g') (hg : g.WellFormed) (hg' : g'.WellFormed)
    (depth : Nat) (ha : Furnished g a) (h : Twin a a') :
    Matches (resolveSinks g master noise depth a) (resolveSinks g' master noise depth a') := by
  refine .foldlM (P := Furnished g) hsame.sinks (fun sink hsink sink' hshown b b' hb hbb => ?_)
    (fun sink hsink b b' hb hresolve => ?_) ha h
  · exact matches_resolve hsame hg hg' depth [] (Graph.mem_nodes_of_mem_sinks hsink) hshown hb hbb
  · obtain ⟨⟨order, htrail⟩, -⟩ :=
      trail_of_resolve hg depth [] sink (Graph.mem_nodes_of_mem_sinks hsink) b b' hresolve
    exact htrail.furnished hg hb

end Assembly

namespace Graph

variable {g g' : Graph α}

/-- What is finished alike has the same parts, in the order of the graph. -/
theorem SameShown.finish_eq (hsame : g.SameShown g') {a a' : Assembly α}
    (h : Assembly.Veiled none a a') : a'.finish g' = a.finish g := by
  have hparts : ∀ l : List (Node α), (l.filterMap fun n => (a.part? n.id).map (n.id, ·)) =
      (l.map (·.id)).filterMap fun id => (a.part? id).map (id, ·) := by
    intro l
    rw [List.filterMap_map]
    rfl
  unfold Assembly.finish
  simp only [h.part?_eq, h.made]
  exact congrArg (Patch.mk · a.made) ((hparts _).trans (hsame.ids_eq ▸ (hparts _).symm))

/-- Two graphs that differ in hidden values only are built alike, on a rack that refuses nothing:
the outcome is the same patch or the same fault, the same voices are bound, and the racks have the
same primitives with the same wires. From the time of building on, every parameter has the same
value on both, with and without what is patched into it, and every primitive gives the same. -/
theorem build_sameShown [StandardsAccepted α] (hg : g.Reachable) (hg' : g'.Reachable)
    (hsame : g.SameShown g') {rack : Rack α} (hrefused : rack.refused = []) (master : PrimitiveId)
    (noise : Noise.Source α) (voicing : Voicing α) :
    let built := g.build master noise rack voicing
    let built' := g'.build master noise rack voicing
    built'.outcome = built.outcome ∧ built'.voicing = built.voicing ∧
    built'.rack.primitives.size = built.rack.primitives.size ∧
    (∀ id, Option.Rel Primitive.SameFrame (built.rack.primitive? id) (built'.rack.primitive? id)) ∧
    ∀ t, rack.clock ≤ t →
      (∀ dial, built'.rack.valueAt dial t = built.rack.valueAt dial t ∧
        built'.rack.effectiveAt dial t = built.rack.effectiveAt dial t) ∧
      ∀ id, built'.rack.outputAt id t = built.rack.outputAt id t := by
  intro built built'
  have hlength : g'.nodes.length = g.nodes.length := hsame.nodes.length_eq.symm
  have hfurnished : Assembly.Furnished g (.fresh rack voicing) := Assembly.furnished_fresh
  have hmatch := Assembly.matches_resolveSinks master noise hsame hg.sound.wellFormed
    hg'.sound.wellFormed (g.nodes.length + 1) hfurnished ⟨.refl _, hrefused⟩
  have hend : built'.outcome = built.outcome ∧ built'.voicing = built.voicing ∧
      Rack.Veiled none built.rack built'.rack := by
    unfold built built' build buildWithin
    rw [hlength]
    unfold Assembly.fresh at hmatch
    generalize Assembly.resolveSinks g master noise (g.nodes.length + 1) _ = r,
      Assembly.resolveSinks g' master noise (g.nodes.length + 1) _ = r' at hmatch
    cases hmatch with
    | ok h => exact ⟨congrArg Except.ok (hsame.finish_eq h.veiled), h.veiled.voicing, h.veiled.rack⟩
    | error h fault =>
      refine ⟨rfl, h.veiled.voicing, ?_⟩
      dsimp only
      rw [h.veiled.made]
      exact h.veiled.rack.releaseAll _
  obtain ⟨houtcome, hvoicing, hrack⟩ := hend
  have hclock : built.rack.clock = rack.clock := by
    rw [(extends_build : rack.Extends built.rack).rest]
  refine ⟨houtcome, hvoicing, hrack.size, hrack.frames, fun t ht => ?_⟩
  rw [← hclock] at ht
  exact ⟨fun dial => ⟨hrack.valueAt_eq ht dial, hrack.effectiveAt_eq ht dial⟩, hrack.outputAt_eq ht⟩

/-- An oscillator whose pitch comes from a constant. -/
def steered : Graph Float :=
  empty.run [.addNode .constant, .addNode .oscillator, .addNode .audioOutput,
    .connect ⟨"n1", "value", "n2", "baseFrequency"⟩, .connect ⟨"n2", "signal", "n3", "signal"⟩]

/-- The same with another pitch of its own. -/
def resteered : Graph Float := steered.edit (.setControl "n2" "baseFreq" (.number 880.0))

theorem build_resteered :
    steered.nodes.map (decide <| ·.panel.number "baseFreq" < 600.0) = [true, true, true] ∧
    resteered.nodes.map (decide <| ·.panel.number "baseFreq" < 600.0) = [true, false, true] ∧
    (resteered.build 0 ⟨2.0, 1⟩ (.new 48000.0) .empty).outcome =
      (steered.build 0 ⟨2.0, 1⟩ (.new 48000.0) .empty).outcome := by
  have hg : steered.Reachable := ⟨_, rfl⟩
  have hg' : resteered.Reachable := by
    obtain ⟨edits, hedits⟩ := hg
    refine ⟨edits ++ [.setControl "n2" "baseFreq" (.number 880.0)], ?_⟩
    unfold resteered
    rw [← hedits]
    unfold run
    rw [List.foldl_append, List.foldl_cons, List.foldl_nil]
  have hfound : (steered.node? "n2").isSome = true := by decide +kernel
  obtain ⟨n, hn⟩ := Option.isSome_iff_exists.mp hfound
  obtain ⟨hmem, hid⟩ := hg.sound.wellFormed.node?_eq_some_iff.mp hn
  have hkinds : (steered.node? "n2").map (·.kind) = some .oscillator := by decide +kernel
  have hkind : n.kind = .oscillator := by
    rw [hn] at hkinds
    exact Option.some.inj hkinds
  have hhidden : steered.Hidden n "baseFreq" := by
    refine ⟨Kind.baseFrequency, ?_, rfl, ?_⟩
    · rw [hkind]
      exact List.mem_cons_self
    · rw [hid]
      decide +kernel
  have hset : (steered.setControl "n2" "baseFreq" (.number 880.0)).toOption.isSome = true := by
    decide +kernel
  have hsame : steered.SameShown resteered := by
    cases h : steered.setControl "n2" "baseFreq" (.number 880.0) with
    | error fault =>
      rw [h] at hset
      cases hset
    | ok g' =>
      have hedited : resteered = g' := by
        unfold resteered
        simp only [edit, h]
        rfl
      rw [hedited]
      rw [← hid] at h
      exact hg.sound.wellFormed.sameShown_setControl hmem h hhidden
  have hrefused : (Rack.new (48000.0 : Float)).refused = [] := by
    unfold Rack.new
    rfl
  exact ⟨by decide +kernel, by decide +kernel,
    (build_sameShown hg hg' hsame hrefused 0 ⟨2.0, 1⟩ .empty).1⟩

end Graph

end Patchbay
