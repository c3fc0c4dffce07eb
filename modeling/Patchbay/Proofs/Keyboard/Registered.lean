import Patchbay.Proofs.Keyboard.Voices
import Patchbay.Proofs.Patch.Rising
/-!
# What keyboards register

Which voices there are after a graph was built, node by node. The blocks of the nodes lie apart on
the rack (`Assembly.Laid.eq_of_place`), so what leads into a primitive of a node are the wires of
that node (`Assembly.Laid.mem_inputsOf`). A keyboard sets none of its parameters, so its primitives
stay as they were created (`Panel.instrument`), and its voices and their profile come after those
of the nodes before it (`Assembly.Sung`). Together: every voice is that of one keyboard node, on the
key and with the envelope that the node says, and opens a gate of its own
(`Graph.registered_of_build`).
-/

namespace Patchbay

variable {α : Type}

/-! ## Keys -/

namespace Key

theorem nodup_notes : notes.Nodup := by decide

variable [Scalar α]

theorem map_fst_pitches : (pitches (α := α)).map (·.1) = notes := by
  unfold pitches
  rw [List.map_map]
  exact List.zipIdx_map_fst 0 notes

/-- A key with its pitch is found under its name. -/
theorem frequency?_of_mem {key : Key} {base : α} (h : (key, base) ∈ pitches) :
    frequency? key = some base := by
  have hnodup : ((pitches (α := α)).map (·.1)).Nodup := map_fst_pitches (α := α) ▸ nodup_notes
  obtain ⟨found, hfound⟩ : ∃ found, (pitches (α := α)).find? (·.1 == key) = some found :=
    Option.isSome_iff_exists.mp (List.find?_isSome.mpr ⟨_, h, beq_self_eq_true key⟩)
  have hkey : found.1 = key := by simpa using List.find?_some hfound
  obtain rfl : found = (key, base) :=
    List.inj_on_of_nodup_map hnodup (List.mem_of_find?_eq_some hfound) h hkey
  rw [frequency?, hfound]
  rfl

end Key

/-! ## Blocks that lie apart -/

namespace Assembly

variable {g : Graph α} {master : PrimitiveId} {base : Rack α} {order : List (Node α)}
  {first : NodeId → PrimitiveId} {a : Assembly α} {n : Node α} {i : Nat}

/-- Two nodes have no primitive in common. -/
theorem Laid.eq_of_place (h : Laid g base order first a) (hn : n ∈ order) {k : Node α}
    (hk : k ∈ order) {j : Nat} (hi : i < n.kind.outfit.length) (hj : j < k.kind.outfit.length)
    (hplace : first n.id + i = first k.id + j) : n = k := by
  let block (m : Node α) : List PrimitiveId := List.range' (first m.id) m.kind.outfit.length
  have hblocks : (order.flatMap block).Nodup := by
    have hids : (order.flatMap fun m => numbered (first m.id) m.kind.outfit).map (·.1) =
        List.range' base.primitives.size a.made.length := h.made ▸ h.ids
    rw [List.map_flatMap] at hids
    simp only [map_fst_numbered] at hids
    exact hids ▸ List.nodup_range'
  by_contra hne
  have hsymm : Std.Symm (Function.onFun List.Disjoint block) := ⟨fun _ _ hapart => hapart.symm⟩
  have hapart := (List.nodup_flatMap.mp hblocks).2.forall hn hk hne
  have hmem : ∀ {m : Node α} {l : Nat}, l < m.kind.outfit.length → first m.id + l ∈ block m :=
    fun hl => List.mem_range'_1.mpr ⟨Nat.le_add_right _ _, Nat.add_lt_add_left hl _⟩
  exact hapart (hmem hi) (hplace ▸ hmem hj)

/-- Into an inlet of a node lead the wires of this node. -/
theorem Laid.mem_inputsOf (h : Laid g base order first a)
    (hwired : Wired g master base order first a) (hg : g.WellFormed) (hclosed : g.Closed a.done)
    (hbase : base.Landing) (hmaster : master < base.primitives.size)
    (halive : ∀ id p, base.primitives.size ≤ id → a.rack.primitive? id = some p →
      p.released = false)
    (hn : n ∈ order) (hi : i < n.kind.outfit.length) {inlet : Inlet}
    (hplace : inlet.place = first n.id + i) (hinlet : inlet ≠ .input Rack.destination)
    {q : PrimitiveId} :
    q ∈ a.rack.inputsOf inlet ↔ (q, inlet) ∈ g.wiring master first n := by
  have hnew : base.primitives.size ≤ inlet.place := hplace ▸ Nat.le_add_right_of_le (h.low n hn)
  rw [Rack.mem_inputsOf]
  constructor
  · rintro ⟨p, hp, -, hmem⟩
    have hmem : inlet ∈ a.rack.outputsOf q := Rack.outputsOf_of_primitive? hp ▸ hmem
    rcases List.mem_append.mp ((hwired q).mem_iff.mp hmem) with hold | hw
    · rcases hbase q inlet hold with hlow | hout
      · exact absurd hlow (Nat.not_lt.mpr hnew)
      · exact absurd hout hinlet
    · obtain ⟨⟨source, inlet'⟩, hfound, rfl⟩ := List.mem_map.mp hw
      obtain ⟨hwire, hsource⟩ := List.mem_filter.mp hfound
      obtain rfl : source = q := beq_iff_eq.mp hsource
      obtain ⟨k, hk, hwire⟩ := List.mem_flatMap.mp hwire
      rcases Graph.wiring_into hwire with ⟨heq, -⟩ | ⟨j, hj, hplace'⟩
      · obtain rfl : inlet' = .input master := heq
        exact absurd hmaster (Nat.not_lt.mpr hnew)
      · exact h.eq_of_place hn hk hi hj (hplace.symm.trans hplace') ▸ hwire
  · intro hw
    have hall : (q, inlet) ∈ order.flatMap (g.wiring master first) :=
      List.mem_flatMap.mpr ⟨n, hn, hw⟩
    have hmade := h.wiring_range hg hclosed hall
    rw [h.ids, List.mem_range'_1, ← h.size] at hmade
    obtain ⟨p, hp⟩ := Rack.exists_primitive? hmade.2
    refine ⟨p, hp, halive q p hmade.1 hp, Rack.outputsOf_of_primitive? hp ▸ ?_⟩
    refine (hwired q).mem_iff.mpr (List.mem_append_right _ ?_)
    exact List.mem_map.mpr ⟨_, List.mem_filter.mpr ⟨hall, beq_self_eq_true q⟩, rfl⟩

end Assembly

variable [Scalar α]

/-! ## The primitives of a keyboard -/

omit [Scalar α] in
/-- The wires of an instrument: an oscillator leads to its gate, and a gate to the output. -/
theorem Kind.mem_inner_keyboardNote {master first q : PrimitiveId} {i : Nat} :
    (q, .input (first + i)) ∈ inner master first .keyboardNote ↔
      (∃ j < 25, i = 2 * j + 2 ∧ q = first + (2 * j + 1)) ∨
        i = 0 ∧ ∃ j < 25, q = first + (2 * j + 2) := by
  have hplaces : ∀ n j : Nat, n + 1 + 2 * j = n + (2 * j + 1) ∧
      n + 1 + 2 * j + 1 = n + (2 * j + 2) := by omega
  have hcancel : ∀ {n k l : Nat}, n + k = n + l → k = l := Nat.add_left_cancel
  unfold inner
  simp only [List.mem_flatMap, mem_keyOscillators, List.mem_cons, List.not_mem_nil, or_false,
    Prod.mk.injEq, Inlet.input.injEq]
  constructor
  · rintro ⟨osc, ⟨j, hj, rfl⟩, ⟨rfl, hi⟩ | ⟨rfl, hi⟩⟩
    · exact .inl ⟨j, hj, hcancel (hi.trans (hplaces first j).2), (hplaces first j).1⟩
    · exact .inr ⟨hcancel (hi.trans (Nat.add_zero first).symm), j, hj, (hplaces first j).2⟩
  · rintro (⟨j, hj, rfl, rfl⟩ | ⟨rfl, j, hj, rfl⟩)
    · exact ⟨_, ⟨j, hj, rfl⟩, .inl ⟨(hplaces first j).1.symm, (hplaces first j).2.symm⟩⟩
    · exact ⟨_, ⟨j, hj, rfl⟩, .inr ⟨(hplaces first j).2.symm, rfl⟩⟩

/-- The oscillator of a key with a frequency: the panel says its waveform, and how far it is
transposed. -/
def Panel.tone (panel : Panel α) (base : α) : Setup α :=
  .oscillator ((Waveform.ofName? (panel.choice "waveform")).getD .sine)
    (base * Pitch.ratio (panel.number "octave") (panel.number "halfstep"))

/-- What the primitives of a keyboard are set up as: for an instrument the common output, and for
each key an oscillator at its pitch and a closed gate; for a single key its gate. -/
def Panel.instrument (panel : Panel α) : List (Setup α) :=
  match panel.kind with
  | .keyboardNote => .gain 1.0 :: Key.pitches.flatMap fun (_, base) => [panel.tone base, .gain 0.0]
  | .keyboardAdsr => [.gain 0.0]
  | _ => []

namespace Kind

variable {panel : Panel α} {site : Site α} {plan : Blueprint α}

theorem setups_keys (waveform : Waveform) (ratio : α) (sources : List PrimitiveId) (profile : Nat)
    (out first : PrimitiveId) (keys : List (Key × α)) (n : Nat) :
    Step.setups ((keys.zipIdx n).flatMap fun ((key, base), i) =>
        keySteps waveform (base * ratio) sources profile out (first + 1 + 2 * i) key) =
      keys.flatMap fun (_, base) => [.oscillator waveform (base * ratio), .gain 0.0] := by
  induction keys generalizing n with
  | nil => rfl
  | cons pitch keys ih =>
    rw [List.zipIdx_cons, List.flatMap_cons, Step.setups_append, setups_keySteps, ih]
    rfl

theorem setups_of_keyboard (h : blueprint panel site = .ok plan)
    (hrole : panel.kind.role = .input) :
    Step.setups plan.steps = panel.instrument := by
  obtain ⟨kind, values⟩ := panel
  cases kind
  case keyboardNote =>
    cases h
    rw [Step.setups_append, setups_keys]
    rfl
  case keyboardAdsr =>
    obtain ⟨key, rfl⟩ := steps_keyboardAdsr h
    simp [Panel.instrument, Step.setups_eq_nil]
  all_goals cases hrole

/-- A keyboard sets no parameter. -/
theorem spares_of_keyboard (h : blueprint panel site = .ok plan) (hrole : panel.kind.role = .input)
    (dial : Dial) : Step.Spares dial plan.steps := by
  obtain ⟨kind, values⟩ := panel
  cases kind
  case keyboardNote =>
    cases h
    intro v hv
    simp only [List.mem_append, List.mem_cons, List.not_mem_nil, or_false, List.mem_flatMap] at hv
    rcases hv with (hv | hv) | ⟨⟨⟨key, base⟩, i⟩, -, hv⟩
    · cases hv
    · cases hv
    · revert hv
      simp [keySteps, Socket.drive, keysFrequency, Socket.additional]
  case keyboardAdsr =>
    obtain ⟨key, rfl⟩ := steps_keyboardAdsr h
    simp
  all_goals cases hrole

end Kind

namespace Panel

variable {panel : Panel α}

theorem map_family_instrument (hrole : panel.kind.role = .input) :
    panel.instrument.map (·.family) = panel.kind.outfit := by
  obtain ⟨kind, values⟩ := panel
  cases kind
  case keyboardNote | keyboardAdsr => rfl
  all_goals cases hrole

theorem family_of_instrument (hrole : panel.kind.role = .input) {i : Nat} {setup : Setup α}
    (h : panel.instrument[i]? = some setup) : panel.kind.outfit[i]? = some setup.family := by
  rw [← map_family_instrument hrole, List.getElem?_map, h]
  rfl

theorem lt_of_instrument (hrole : panel.kind.role = .input) {i : Nat} {setup : Setup α}
    (h : panel.instrument[i]? = some setup) : i < panel.kind.outfit.length :=
  (List.getElem?_eq_some_iff.mp (family_of_instrument hrole h)).1

/-- Of a list of pairs one after another, the pair of an entry. -/
theorem getElem?_flatMap_pair {σ τ : Type} (l : List σ) (f f' : σ → τ) (i : Nat) :
    (l.flatMap fun x => [f x, f' x])[2 * i]? = l[i]?.map f ∧
      (l.flatMap fun x => [f x, f' x])[2 * i + 1]? = l[i]?.map f' := by
  induction l generalizing i with
  | nil => exact ⟨rfl, rfl⟩
  | cons x l ih =>
    cases i with
    | zero => exact ⟨rfl, rfl⟩
    | succ i => exact ih i

/-- A voice of an instrument is on a note, and its gate follows the oscillator at its pitch. -/
theorem exists_pitch_of_voice (hkind : panel.kind = .keyboardNote) {voice : Key × Nat}
    (h : voice ∈ panel.voices) : ∃ i base, i < 25 ∧ voice.2 = 2 * i + 2 ∧
      Key.frequency? voice.1 = some base ∧
      panel.instrument[2 * i + 1]? = some (panel.tone base) := by
  obtain ⟨kind, values⟩ := panel
  obtain rfl : kind = .keyboardNote := hkind
  obtain ⟨⟨⟨key, base⟩, i⟩, hi, rfl⟩ := List.mem_map.mp h
  have hpitch : (Key.pitches (α := α))[i]? = some (key, base) :=
    List.mem_zipIdx_iff_getElem?.mp hi
  refine ⟨i, base, (List.mem_zipIdx hi).2.1, rfl, ?_, ?_⟩
  · exact Key.frequency?_of_mem (List.mem_of_getElem? hpitch)
  · exact (getElem?_flatMap_pair _ _ _ i).1.trans (congrArg _ hpitch)

/-- A voice opens a closed gate. -/
theorem gate_of_voice {voice : Key × Nat} (h : voice ∈ panel.voices) :
    panel.kind.role = .input ∧ panel.instrument[voice.2]? = some (.gain 0.0) := by
  obtain ⟨kind, values⟩ := panel
  cases kind
  case keyboardNote =>
    obtain ⟨⟨⟨key, base⟩, i⟩, hi, rfl⟩ := List.mem_map.mp h
    have hpitch : (Key.pitches (α := α))[i]? = some (key, base) :=
      List.mem_zipIdx_iff_getElem?.mp hi
    exact ⟨rfl, (getElem?_flatMap_pair _ _ _ i).2.trans (congrArg _ hpitch)⟩
  case keyboardAdsr =>
    obtain ⟨key, -, rfl⟩ := List.mem_map.mp h
    exact ⟨rfl, rfl⟩
  all_goals exact absurd h List.not_mem_nil

theorem map_fst_bindings (panel : Panel α) (first : PrimitiveId) (profile : Nat) :
    (panel.bindings first profile).map (·.1) = panel.voices.map (·.1) := by
  unfold bindings
  rw [List.map_map]
  rfl

/-- An instrument has a voice on every note. -/
theorem map_fst_voices (hkind : panel.kind = .keyboardNote) :
    panel.voices.map (·.1) = Key.notes := by
  obtain ⟨kind, values⟩ := panel
  obtain rfl : kind = .keyboardNote := hkind
  rw [← Key.map_fst_pitches (α := α), ← List.zipIdx_map_fst 0 (Key.pitches (α := α)), List.map_map]
  exact List.map_map

/-- A single key has a voice on the key that it is set to. -/
theorem exists_voice_of_keyboardAdsr (h : panel.Accepted) (hkind : panel.kind = .keyboardAdsr) :
    ∃ key, Key.ofCode? (panel.choice "keyCode") = some key ∧ panel.voices = [(key, 0)] := by
  obtain ⟨kind, values⟩ := panel
  obtain rfl : kind = .keyboardAdsr := hkind
  obtain ⟨key, hkey⟩ := Kind.exists_key_of_accepted h
  refine ⟨key, hkey, ?_⟩
  show (Key.ofCode? _).toList.map _ = _
  rw [hkey]
  rfl

theorem profiles_of_keyboard (hrole : panel.kind.role = .input) :
    panel.profiles = [panel.profile "adsrProfile"] := by
  unfold profiles
  split
  next => rfl
  next => rfl
  next hnote hadsr =>
    revert hrole
    cases hkind : panel.kind <;> simp_all [Kind.role]

theorem voices_eq_nil (hnote : panel.kind ≠ .keyboardNote) (hadsr : panel.kind ≠ .keyboardAdsr) :
    panel.voices = [] := by
  unfold voices
  split
  next hkind => exact absurd hkind hnote
  next hkind => exact absurd hkind hadsr
  next => rfl

end Panel

/-! ## Node by node -/

/-- What a primitive was set up as, and the courses of its parameters. -/
def Primitive.record (p : Primitive α) : Setup α × List (Param × Timeline α) :=
  (p.setup, p.timelines)

namespace Assembly

variable {g : Graph α} {master : PrimitiveId} {noise : Noise.Source α} {base : Rack α}
  {order : List (Node α)} {first : NodeId → PrimitiveId} {a a' : Assembly α} {n : Node α}

/-- The profiles and voices are those of the nodes, in their order, and the primitives of the
keyboards are as they were created. -/
structure Sung (order : List (Node α)) (first : NodeId → PrimitiveId) (a : Assembly α) : Prop where
  profiles : a.voicing.profiles = order.flatMap (·.panel.profiles)
  bindings : a.voicing.bindings = order.flatMap fun n =>
    n.panel.bindings (first n.id) (offsetIn (·.panel.profiles) order n.id)
  created : ∀ n ∈ order, n.kind.role = .input → ∀ i setup, n.panel.instrument[i]? = some setup →
    (a.rack.primitive? (first n.id + i)).map (·.record) = some (setup, setup.timelines)

theorem sung_fresh (rack : Rack α) (first : NodeId → PrimitiveId) :
    Sung [] first (fresh rack .empty) where
  profiles := rfl
  bindings := rfl
  created _ hn := absurd hn List.not_mem_nil

/-- Building a node leaves the records of what was there. -/
theorem record_of_buildNode (hbuild : buildNode g master noise n a = .ok a') {id : PrimitiveId}
    (hid : id < a.rack.primitives.size) :
    (a'.rack.primitive? id).map (·.record) = (a.rack.primitive? id).map (·.record) := by
  obtain ⟨plan, b, hplan, hrun, rfl⟩ := run_of_buildNode hbuild
  show (b.rack.primitive? id).map _ = _
  refine read_of_run (fun _ _ => rfl) ?_ hid hrun
  rintro _ hstep dial v rfl rfl
  exact absurd hstep (Kind.spares_of_blueprint hplan (.inl hid) v)

/-- A keyboard that is built is as it was created. -/
theorem record_of_keyboard (hrole : n.kind.role = .input)
    (hbuild : buildNode g master noise n a = .ok a') {i : Nat} {setup : Setup α}
    (hsetup : n.panel.instrument[i]? = some setup) :
    (a'.rack.primitive? (a.rack.primitives.size + i)).map (·.record) =
      some (setup, setup.timelines) := by
  obtain ⟨plan, b, hplan, hrun, rfl⟩ := run_of_buildNode hbuild
  rw [← Kind.setups_of_keyboard hplan hrole] at hsetup
  show (b.rack.primitive? _).map Primitive.record = _
  refine read_created (fun _ _ => rfl) hsetup ?_ hrun
  rintro _ hstep dial v rfl -
  exact absurd hstep (Kind.spares_of_keyboard hplan hrole dial v)

/-- A further node sings after the others. -/
theorem Sung.step (h : Sung order first a) (hlaid : Laid g base order first a)
    (hn : g.Next a.done n) (hbuild : buildNode g master noise n a = .ok a') :
    Sung (order ++ [n]) (Function.update first n.id a.rack.primitives.size) a' := by
  have hnew : n.id ∉ order.map (·.id) := hlaid.done ▸ hn.new
  have hfirst : ∀ m ∈ order, Function.update first n.id a.rack.primitives.size m.id = first m.id :=
    fun m hm => hn.update_of_mem _ (hlaid.done ▸ List.mem_map_of_mem hm)
  have hvoicing := voicing_of_buildNode hbuild
  refine ⟨?_, ?_, List.forall_mem_append.mpr ⟨fun m hm hrole i setup hsetup => ?_,
    List.forall_mem_singleton.mpr fun hrole i setup hsetup => ?_⟩⟩
  · rw [hvoicing, h.profiles, List.flatMap_append, List.flatMap_singleton]
  · rw [hvoicing, h.bindings, List.flatMap_append, List.flatMap_singleton, Function.update_self,
      offsetIn_append_cons hnew, ← h.profiles]
    refine congrArg (· ++ _) (List.flatMap_congr fun m hm => ?_)
    rw [hfirst m hm, offsetIn_append (List.mem_map_of_mem hm)]
  · have hplace : first m.id + i < a.rack.primitives.size :=
      Nat.lt_of_lt_of_le (Nat.add_lt_add_left (Panel.lt_of_instrument hrole hsetup) _)
        (hlaid.high m hm)
    rw [hfirst m hm, record_of_buildNode hbuild hplace]
    exact h.created m hm hrole i setup hsetup
  · rw [Function.update_self]
    exact record_of_keyboard hrole hbuild hsetup

end Assembly

/-! ## What is registered -/

/-- A voice of a keyboard node in what was built: it opens the gain of a gate of the patch, which is
created closed and on which nothing is scheduled, and follows the envelope of the node. -/
structure Node.Plays (n : Node α) (patch : Patch α) (built : BuildResult α) (b : Key × Voice) :
    Prop where
  gain : b.2.gain.param = .gain
  listed : (b.2.gain.primitive, Family.gain) ∈ patch.primitives
  closed : ∃ p, built.rack.primitive? b.2.gain.primitive = some p ∧ p.setup = .gain 0.0 ∧
    p.timeline? .gain = some (.starting 0.0) ∧ p.released = false
  profiled : built.voicing.profiles[b.2.profile]? = some (n.panel.profile "adsrProfile")

/-- The gate of a voice of an instrument: it is fed by just the oscillator that is tuned to the key,
and feeds the gain behind the output of the node. -/
structure Node.Tuned (n : Node α) (patch : Patch α) (built : BuildResult α) (b : Key × Voice)
    (osc out : PrimitiveId) : Prop where
  fed : built.rack.inputsOf (.input b.2.gain.primitive) = [osc]
  pitched : ∃ p base, built.rack.primitive? osc = some p ∧ Key.frequency? b.1 = some base ∧
    p.setup = n.panel.tone base ∧ p.timelines = (n.panel.tone base).timelines
  heard : b.2.gain.primitive ∈ built.rack.inputsOf (.input out)
  output : (patch.part? n.id).bind (·.output? "signal") = some out
  listed : (out, Family.gain) ∈ patch.primitives

/-- What a node registers in what was built: an instrument a voice on each note, a single key one on
the key that it is set to, whose gate is its output, and any other node nothing. -/
def Node.Registers (n : Node α) (patch : Patch α) (built : BuildResult α)
    (own : List (Key × Voice)) : Prop :=
  (∀ b ∈ own, n.Plays patch built b) ∧
    match n.kind with
    | .keyboardNote => own.map (·.1) = Key.notes ∧
        ∀ b ∈ own, ∃ osc out, n.Tuned patch built b osc out
    | .keyboardAdsr => ∃ key voice, Key.ofCode? (n.panel.choice "keyCode") = some key ∧
        own = [(key, voice)] ∧
        (patch.part? n.id).bind (·.output? "signal") = some voice.gain.primitive
    | _ => own = []

namespace Assembly

variable {g : Graph α} {master : PrimitiveId} {base : Rack α} {order : List (Node α)}
  {first : NodeId → PrimitiveId} {a : Assembly α} {n : Node α} {b : Key × Voice} {i : Nat}

omit [Scalar α] in
theorem Laid.mem_made (h : Laid g base order first a) (hn : n ∈ order) {family : Family}
    (hfamily : n.kind.outfit[i]? = some family) : (first n.id + i, family) ∈ a.made := by
  rw [h.made, List.mem_flatMap]
  refine ⟨n, hn, List.mem_map.mpr ⟨(family, first n.id + i), ?_, rfl⟩⟩
  exact List.mk_add_mem_zipIdx_iff_getElem?.mpr hfamily

variable (hsung : Sung order first a) (h : Laid g base order first a)
  (halive : ∀ id p, base.primitives.size ≤ id → a.rack.primitive? id = some p →
    p.released = false)

include hsung h halive

/-- The voices of a node play it. -/
theorem Sung.plays (hnodup : (order.map (·.id)).Nodup) (hn : n ∈ order)
    (hb : b ∈ n.panel.bindings (first n.id) (offsetIn (·.panel.profiles) order n.id)) :
    n.Plays (a.finish g) ⟨.ok (a.finish g), a.rack, a.voicing⟩ b := by
  obtain ⟨voice, hvoice, rfl⟩ := List.mem_map.mp hb
  obtain ⟨hrole, hgate⟩ := Panel.gate_of_voice hvoice
  obtain ⟨p, hp, hrecord⟩ := Option.map_eq_some_iff.mp (hsung.created n hn hrole _ _ hgate)
  obtain ⟨hsetup, htimelines⟩ := Prod.mk.inj hrecord
  refine ⟨rfl, h.mem_made hn (Panel.family_of_instrument hrole hgate),
    ⟨p, hp, hsetup, ?_, halive _ p ?_ hp⟩, ?_⟩
  · rw [Primitive.timeline?, htimelines]
    rfl
  · exact Nat.le_add_right_of_le (h.low n hn)
  · have hprofile : n.panel.profiles = [n.panel.profile "adsrProfile"] :=
      Panel.profiles_of_keyboard hrole
    show a.voicing.profiles[offsetIn (·.panel.profiles) order n.id]? = _
    rw [hsung.profiles, ← Nat.add_zero (offsetIn _ _ _),
      getElem?_offsetIn hnodup hn (by rw [hprofile]; exact Nat.one_pos), hprofile]
    rfl

variable (hwired : Wired g master base order first a) (hg : g.WellFormed)
  (hclosed : g.Closed a.done) (hbase : base.Landing) (hmaster : master < base.primitives.size)
  (hsize : a.rack.primitives.size ≤ Rack.destination)

include hwired hg hclosed hbase hmaster hsize

omit hsung [Scalar α] in
/-- What an instrument has patched of its own into one of its inputs. -/
theorem Laid.mem_inputsOf_keyboard (hn : n ∈ order) (hkind : n.kind = .keyboardNote)
    (hi : i < n.kind.outfit.length) {q : PrimitiveId} :
    q ∈ a.rack.inputsOf (.input (first n.id + i)) ↔
      (q, .input (first n.id + i)) ∈ Kind.inner master (first n.id) .keyboardNote := by
  have hplace : first n.id + i < Rack.destination :=
    Nat.lt_of_lt_of_le (Nat.add_lt_add_left hi _) (Nat.le_trans (h.high n hn) hsize)
  have hinlet : Inlet.input (first n.id + i) ≠ .input Rack.destination := fun heq =>
    Nat.ne_of_lt hplace (Inlet.input.inj heq)
  rw [h.mem_inputsOf hwired hg hclosed hbase hmaster halive hn hi rfl hinlet, Graph.wiring, hkind,
    List.mem_append, or_iff_left]
  -- its sockets drive parameters only
  intro hw
  obtain ⟨c, -, hw⟩ := List.mem_flatMap.mp hw
  obtain ⟨inlet, hinlet, heq⟩ := List.mem_map.mp hw
  unfold Kind.inletsAt at hinlet
  split at hinlet
  next =>
    obtain ⟨osc, -, rfl⟩ := List.mem_map.mp hinlet
    cases (Prod.mk.inj heq).2
  next => cases hinlet

/-- The voices of an instrument are tuned. -/
theorem Sung.tuned (hn : n ∈ order) (hkind : n.kind = .keyboardNote)
    (hb : b ∈ n.panel.bindings (first n.id) (offsetIn (·.panel.profiles) order n.id)) :
    ∃ osc out, n.Tuned (a.finish g) ⟨.ok (a.finish g), a.rack, a.voicing⟩ b osc out := by
  obtain ⟨voice, hvoice, rfl⟩ := List.mem_map.mp hb
  obtain ⟨i, pitch, hi, hgate, hpitch, htone⟩ := Panel.exists_pitch_of_voice hkind hvoice
  have hlength : n.kind.outfit.length = 51 := by rw [hkind]; decide
  have hrole : n.kind.role = .input := by rw [hkind]; rfl
  have hinputs := fun {i : Nat} (hi : i < n.kind.outfit.length) (q : PrimitiveId) =>
    Laid.mem_inputsOf_keyboard h halive hwired hg hclosed hbase hmaster hsize hn hkind hi (q := q)
  obtain ⟨p, hp, hrecord⟩ := Option.map_eq_some_iff.mp (hsung.created n hn hrole _ _ htone)
  obtain ⟨hsetup, htimelines⟩ := Prod.mk.inj hrecord
  refine ⟨first n.id + (2 * i + 1), first n.id, ?_, ⟨p, pitch, hp, hpitch, hsetup, htimelines⟩, ?_,
    ?_, ?_⟩
  · show a.rack.inputsOf (.input (first n.id + voice.2)) = _
    refine List.perm_singleton.mp ((List.perm_ext_iff_of_nodup (Rack.nodup_inputsOf _ _)
      (List.nodup_singleton _)).mpr fun q => ?_)
    rw [hinputs (by omega), Kind.mem_inner_keyboardNote, List.mem_singleton]
    constructor
    · rintro (⟨j, -, hij, rfl⟩ | ⟨hij, -⟩)
      · obtain rfl : i = j := by omega
        rfl
      · omega
    · rintro rfl
      exact .inl ⟨i, hi, hgate, rfl⟩
  · show first n.id + voice.2 ∈ a.rack.inputsOf (.input (first n.id + 0))
    rw [hinputs (by omega), Kind.mem_inner_keyboardNote]
    exact .inr ⟨rfl, i, hi, by rw [hgate]⟩
  · rw [h.output_finish hn (by rw [hkind]; exact List.mem_singleton_self _), hkind]
    rfl
  · have hfirst : n.kind.outfit[0]? = some .gain := by rw [hkind]; rfl
    exact h.mem_made hn hfirst

theorem Sung.registers (hnodup : (order.map (·.id)).Nodup) (hn : n ∈ order)
    (haccepted : n.panel.Accepted) :
    n.Registers (a.finish g) ⟨.ok (a.finish g), a.rack, a.voicing⟩
      (n.panel.bindings (first n.id) (offsetIn (·.panel.profiles) order n.id)) := by
  refine ⟨fun b hb => hsung.plays h halive hnodup hn hb, ?_⟩
  split
  next hkind =>
    refine ⟨?_, fun b hb =>
      hsung.tuned h halive hwired hg hclosed hbase hmaster hsize hn hkind hb⟩
    rw [Panel.map_fst_bindings, Panel.map_fst_voices hkind]
  next hkind =>
    obtain ⟨key, hkey, hvoices⟩ := Panel.exists_voice_of_keyboardAdsr haccepted hkind
    refine ⟨key, ⟨⟨first n.id, .gain⟩, offsetIn (·.panel.profiles) order n.id⟩, hkey, ?_, ?_⟩
    · rw [Panel.bindings, hvoices]
      rfl
    · rw [h.output_finish hn (by rw [hkind]; exact List.mem_singleton_self _), hkind]
      rfl
  next hnote hadsr => rw [Panel.bindings, Panel.voices_eq_nil hnote hadsr, List.map_nil]

end Assembly

/-- Which voices there are after a graph was built into an empty voicing, on a rack on which every
wire leads somewhere and which has numbers left for the primitives: those that the nodes that were
built registered, each its own, and no others. A keyboard instrument has one on each of its 25
notes, a keyboard key one on the key that it is set to, and any other node none. Every voice opens
the gain of a closed gate of this patch, which is that of no other voice; the gate of a note is fed
by just the oscillator that is tuned to the key, and feeds the output of the node, while that of a
single key is the output itself. And every voice follows the envelope of its own node. -/
theorem Graph.registered_of_build [StandardsAccepted α] {g : Graph α} (hg : g.Reachable)
    {master : PrimitiveId} {noise : Noise.Source α} {rack : Rack α} (hrack : rack.Landing)
    (hmaster : master < rack.primitives.size) {patch : Patch α}
    (hpatch : (g.build master noise rack .empty).outcome = .ok patch)
    (hsize : (g.build master noise rack .empty).rack.primitives.size ≤ Rack.destination) :
    let built := g.build master noise rack .empty
    ∃ (order : List (Node α)) (own : Node α → List (Key × Voice)),
      (order.map (·.id)).Nodup ∧ (∀ n, n ∈ order ↔ n ∈ g.nodes ∧ (patch.part? n.id).isSome) ∧
      built.voicing.bindings = order.flatMap own ∧
      (built.voicing.bindings.map (·.2.gain.primitive)).Nodup ∧
      ∀ n ∈ order, n.Registers patch built (own n) := by
  have hsound := hg.sound
  obtain ⟨order, first, b, hbuilt, rfl, hready, -, hclosed, hlaid, hwired, hsung⟩ :=
    hsound.wellFormed.exists_laid_of_build hpatch
      (P := fun order first a => Assembly.Sung order first a)
      (fun h _ hn hnode hP => hP.step h hn hnode) (Assembly.sung_fresh rack _)
  obtain ⟨-, -, -, halive⟩ := Graph.patch_of_build hpatch
  have hdistinct := (Graph.fresh_of_build hpatch).distinct
  have hnodup : (order.map (·.id)).Nodup := hready.nodup List.nodup_nil
  rw [hbuilt] at halive hsize hdistinct ⊢
  intro built
  refine ⟨order, fun n => n.panel.bindings (first n.id) (offsetIn (·.panel.profiles) order n.id),
    hnodup, fun n => hlaid.mem_order_iff hsound.wellFormed, hsung.bindings, ?_, fun n hn =>
      hsung.registers hlaid halive hwired hsound.wellFormed hclosed hrack hmaster hsize hnodup hn
        (hsound.panels n (hlaid.nodes n hn))⟩
  -- all voices open gains, so two of one primitive would be one
  have hgain : ∀ d ∈ b.voicing.bindings.map (·.2.gain), d.param = .gain := by
    intro d hd
    obtain ⟨voice, hvoice, rfl⟩ := List.mem_map.mp hd
    rw [hsung.bindings] at hvoice
    obtain ⟨n, hn, hvoice⟩ := List.mem_flatMap.mp hvoice
    exact (hsung.plays hlaid halive hnodup hn hvoice).gain
  have hprimitives := hdistinct.map_on (f := Dial.primitive) fun d hd d' hd' heq =>
    congr (congrArg Dial.mk heq) ((hgain d hd).trans (hgain d' hd').symm)
  rwa [List.map_map] at hprimitives

/-- An instrument that is heard twice, and a tone that goes through a single key. -/
def Graph.keyboards : Graph Float :=
  .run .empty [.addNode .keyboardNote, .addNode .oscillator, .addNode .keyboardAdsr,
    .addNode .audioOutput, .addNode .universalOutput,
    .setControl "n3" "keyCode" (.choice "KeyQ"),
    .connect ⟨"n2", "signal", "n3", "signal"⟩, .connect ⟨"n3", "signal", "n4", "signal"⟩,
    .connect ⟨"n1", "signal", "n4", "signal"⟩, .connect ⟨"n1", "signal", "n5", "signal"⟩]

/-- On a new mixer the tone is built before the instrument, which is built once. -/
theorem Graph.registered_keyboards : ∃ m, Mixer.new (Rack.new 48000.0) 0.5 ⟨2.0, 1⟩ = .ok m ∧
    let built := keyboards.build m.master m.noise m.rack .empty
    built.voicing.bindings.length = 26 ∧ ∃ patch, built.outcome = .ok patch ∧
      ∃ (order : List (Node Float)) (own : Node Float → List (Key × Voice)),
        (∀ n, n ∈ order ↔ n ∈ keyboards.nodes ∧ (patch.part? n.id).isSome) ∧
        built.voicing.bindings = order.flatMap own ∧
        ∀ n ∈ order, n.Registers patch built (own n) := by
  obtain ⟨m, hm⟩ : ∃ m, Mixer.new (Rack.new 48000.0) 0.5 ⟨2.0, 1⟩ = .ok m := ⟨_, rfl⟩
  obtain ⟨hlanding, hmaster⟩ := (Mixer.InUse.new rfl hm).landing
  have hok : (keyboards.build m.master m.noise m.rack .empty).outcome.toOption.isSome = true := by
    cases hm; decide +kernel
  have hsize : (keyboards.build m.master m.noise m.rack .empty).rack.primitives.size ≤
      Rack.destination := by
    cases hm; decide +kernel
  have hvoices : (keyboards.build m.master m.noise m.rack .empty).voicing.bindings.length = 26 := by
    cases hm; decide +kernel
  obtain ⟨patch, hpatch⟩ := exists_eq_ok hok
  obtain ⟨order, own, -, horder, hbindings, -, hregisters⟩ :=
    registered_of_build ⟨_, rfl⟩ hlanding hmaster hpatch hsize
  exact ⟨m, hm, hvoices, patch, hpatch, order, own, horder, hbindings, hregisters⟩

end Patchbay
