import Patchbay.Proofs.Program.Assignments
import Patchbay.Proofs.Program.Scopes
import Patchbay.Proofs.Program.Wirings
/-!
# Programs are well scoped

Every name that a program uses is declared before, by the page or by an earlier statement outside of
all braces (`freeIn_ofGraph`), and no name is declared twice there (`nodup_ofGraph`).

Declarations and uses are written apart: helpers by the kinds of nodes, blocks by the places of
nodes, and the wiring by connections. What a block uses besides its own names is said once
(`usedBy`), and so is what its handles leave to the wiring (`names_of_output?`, `names_of_wire?`).
-/

namespace Patchbay

open Script

namespace Program

variable {α : Type} [Scalar α]

/-- The names that the page declares. -/
def pageNames : List String := ["AudioContext", "Float32Array", "Math", "window"]

/-! ## Before the blocks -/

/-- The names that the preamble declares. -/
def preambleNames : List String := ["ctx", "master", "masterCompressor", "sources"]

/-- The names that the helper of the keyboard declares. -/
def keyboardNames : List String :=
  ["EPSILON", "profiles", "keyboard", "keyState", "sustaining", "addProfile", "addVoice",
    "playNote", "releaseNote"]

omit [Scalar α] in
theorem freeIn_preamble (g : Graph α) (options : Options α) :
    freeIn (preamble g options) ⊆ pageNames := by
  simp [preamble, pageNames, ctxMake, connect]

omit [Scalar α] in
theorem declaredIn_preamble (g : Graph α) (options : Options α) :
    declaredIn (preamble g options) = preambleNames := rfl

/-- The function of a colour calls those of the colours it needs. -/
theorem free_noiseHelper (color : Noise.Color) : (noiseHelper (α := α) color).free ⊆
    pageNames ++ (noiseNeeds color).map noiseFunction := by
  cases color <;>
    simp [noiseHelper, noiseBody, noiseFunction, noiseNeeds, forSamples, pageNames, noiseDraw,
      random, sample, sampleBefore, dataAt, dataLength, pinkSum]

theorem freeIn_keyboardHelper :
    freeIn (keyboardHelper (α := α)).flatten ⊆ pageNames ++ preambleNames := by
  simp [keyboardHelper, playNote, releaseNote, onKeyDown, onKeyUp, forVoices, voiceGain,
    voiceProfile, fromNow, rampGain, setGain, gainIsSilent, audible, silence, stateOf, setState,
    letGo, setSustaining, eventKeyIs, eventKey, shiftIsDown, pageNames, preambleNames]

/-- A program holds the functions of the colours that others need. -/
theorem mem_noiseColors_of_needs {g : Graph α} {color needed : Noise.Color}
    (hcolor : color ∈ noiseColors g) (hneeded : needed ∈ noiseNeeds color) :
    needed ∈ noiseColors g := by
  simp only [noiseColors, List.mem_filter, decide_eq_true_eq, List.mem_flatMap, List.mem_cons] at *
  obtain ⟨-, used, hused, rfl | hthrough⟩ := hcolor
  · exact ⟨by cases needed <;> decide, color, hused, .inr hneeded⟩
  · -- what is needed needs nothing itself
    have hnothing : noiseNeeds color = [] := by
      cases used <;> simp [noiseNeeds] at hthrough <;> rw [hthrough] <;> rfl
    rw [hnothing] at hneeded
    cases hneeded

/-- What a function of a colour calls comes before it. -/
theorem freeIn_noiseHelpers (g : Graph α) :
    freeIn ((noiseColors g).map (noiseHelper (α := α))) ⊆ pageNames := by
  by_cases hwhite : .white ∈ noiseColors g
  · -- the function of white noise is needed by others, and comes first
    obtain ⟨rest, hrest⟩ : ∃ rest, noiseColors g = .white :: rest := by
      have hneeded := (List.mem_filter.mp hwhite).2
      unfold noiseColors Noise.Color.all
      exact ⟨_, List.filter_cons_of_pos (by exact hneeded)⟩
    rw [hrest, List.map_cons]
    refine freeIn_append_subset (l := [_]) ?_ (freeIn_subset fun s hs => ?_)
    · simpa [noiseNeeds] using free_noiseHelper (α := α) .white
    · obtain ⟨color, -, rfl⟩ := List.mem_map.mp hs
      refine List.Subset.trans (free_noiseHelper color) ?_
      cases color <;> simp [noiseNeeds, noiseHelper, noiseFunction, declaredIn, pageNames]
  · refine freeIn_subset fun s hs => ?_
    obtain ⟨color, hcolor, rfl⟩ := List.mem_map.mp hs
    have hnothing : noiseNeeds color = [] := by
      cases color
      case blue | violet => exact absurd (mem_noiseColors_of_needs hcolor (by decide)) hwhite
      all_goals rfl
    have hfree := free_noiseHelper (α := α) color
    rwa [hnothing, List.map_nil, List.append_nil] at hfree

/-- The names that the helpers of a graph declare. -/
def helperNames (g : Graph α) : List String :=
  (noiseColors g).map noiseFunction ++
    (if hasKind g .keyboardNote || hasKind g .keyboardAdsr then keyboardNames else []) ++
    (if hasKind g .keyboardNote then ["NOTE_MAP"] else [])

theorem flatten_helpers (g : Graph α) : (helpers g).flatten =
    (noiseColors g).map noiseHelper ++
      (if hasKind g .keyboardNote || hasKind g .keyboardAdsr then keyboardHelper.flatten else []) ++
      (if hasKind g .keyboardNote then [noteMap] else []) := by
  rw [helpers, List.flatten_append, List.flatten_append, ← List.flatMap_def, ← List.map_eq_flatMap]
  congr 2 <;> split <;> rfl

theorem declaredIn_helpers (g : Graph α) : declaredIn (helpers g).flatten = helperNames g := by
  rw [flatten_helpers, declaredIn_append, declaredIn_append, helperNames]
  congr 2
  · rw [declaredIn, List.flatMap_map, List.map_eq_flatMap]
    rfl
  all_goals split <;> rfl

/-- A table of numbers uses no names. -/
theorem free_noteMap : (noteMap (α := α)).free = [] := by
  unfold noteMap
  rw [Stmt.free, Expr.names]
  induction Key.pitches (α := α) with
  | nil => rfl
  | cons pitch rest ih => simpa using ih

theorem freeIn_helpers (g : Graph α) :
    freeIn (helpers g).flatten ⊆ pageNames ++ preambleNames := by
  rw [flatten_helpers]
  refine freeIn_append_subset (freeIn_append_subset ?_ ?_) ?_
  · exact List.subset_append_of_subset_left _ (freeIn_noiseHelpers g)
  · refine List.subset_append_of_subset_left _ ?_
    split
    · exact freeIn_keyboardHelper
    · exact List.nil_subset _
  · split
    · simp [free_noteMap]
    · exact List.nil_subset _

/-! ## Blocks -/

/-- The names of helpers that the block of a node uses. -/
def usedBy (panel : Panel α) : List String :=
  match panel.kind with
  | .noise => [noiseFunction ((Noise.Color.ofName? (panel.choice "noiseType")).getD .white)]
  | .keyboardNote => ["NOTE_MAP", "addProfile", "addVoice"]
  | .keyboardAdsr => ["addProfile", "addVoice"]
  | _ => []

section

variable {name : String} {seconds : α} {panel : Panel α}

theorem declaredIn_nodeBlock : declaredIn (nodeBlock name seconds panel).statements =
    (roles panel.kind).map (name ++ "_" ++ ·) := by
  obtain ⟨kind, values⟩ := panel
  cases kind <;> rfl

omit [Scalar α] in
theorem names_profileRecord (p : Profile α) : (profileRecord p).names = [] := rfl

theorem freeIn_nodeBlock : freeIn (nodeBlock name seconds panel).statements ⊆
    pageNames ++ preambleNames ++ usedBy panel := by
  obtain ⟨kind, values⟩ := panel
  intro x hx
  cases kind <;>
    simp [nodeBlock, pageNames, preambleNames, usedBy, ctxMake, addSource, connect,
      compressorParams, names_profileRecord] at hx ⊢ <;> tauto

theorem names_of_output? {socket : String} {e : Expr α}
    (h : (nodeBlock name seconds panel).output? socket = some e) :
    e.names ⊆ (roles panel.kind).map (name ++ "_" ++ ·) := by
  obtain ⟨role, hrole, rfl⟩ := exists_of_output? h
  exact List.cons_subset.mpr ⟨List.mem_map_of_mem hrole, List.nil_subset _⟩

/-- The names in a wire. -/
def wireNames : Wire α → List String
  | .object e | .param e _ | .each e _ => e.names
  | .dropped => []

/-- The inputs of a block are variables of the block, and the master input. -/
theorem names_of_wire? {socket : String} {wire : Wire α}
    (h : (nodeBlock name seconds panel).wire? socket = some wire) :
    wireNames wire ⊆ "master" :: (roles panel.kind).map (name ++ "_" ++ ·) := by
  cases into_of_wire? h with
  | master => exact List.cons_subset.mpr ⟨List.mem_cons_self, List.nil_subset _⟩
  | object hx | param hx | each hx =>
    exact List.cons_subset.mpr ⟨List.mem_cons_of_mem _ hx, List.nil_subset _⟩
  | dropped => exact List.nil_subset _

/-- Inline values are written for variables of the block. -/
theorem free_of_mem_inlineValues {g : Graph α} {n : Node α} {s : Stmt α}
    (hs : s ∈ inlineValues g n (nodeBlock name seconds n.panel)) :
    s.declared = [] ∧ s.free ⊆ "master" :: (roles n.kind).map (name ++ "_" ++ ·) := by
  rw [inlineValues_eq, List.mem_filterMap] at hs
  obtain ⟨socket, -, hs⟩ := hs
  obtain ⟨control, path, combine, -, hwire, rfl⟩ := exists_of_inlineValue? hs
  refine ⟨rfl, ?_⟩
  show path.names ++ [] ⊆ _
  rw [List.append_nil]
  exact names_of_wire? hwire

end

section

variable {g : Graph α} {options : Options α} {n : Node α} {place : Nat}

/-- The names that the block of a node declares. -/
def blockNames (n : Node α) (place : Nat) : List String :=
  (roles n.kind).map (blockName place ++ "_" ++ ·)

theorem declaredIn_blockOf (seconds : α) :
    declaredIn (blockOf g seconds n place).statements = blockNames n place := by
  show declaredIn (heading n :: (nodeBlock (blockName place) _ _).statements ++ _) = _
  have hinline : declaredIn (inlineValues g n (nodeBlock (blockName place) seconds n.panel)) = [] :=
    List.flatMap_eq_nil_iff.mpr fun s hs => (free_of_mem_inlineValues hs).1
  rw [declaredIn_append]
  exact (congrArg₂ _ declaredIn_nodeBlock hinline).trans (List.append_nil _)

theorem freeIn_blockOf (seconds : α) : freeIn (blockOf g seconds n place).statements ⊆
    pageNames ++ preambleNames ++ usedBy n.panel := by
  show freeIn (heading n :: (nodeBlock (blockName place) _ _).statements ++ _) ⊆ _
  refine freeIn_append_subset (freeIn_append_subset (l := [_]) (List.nil_subset _) ?_)
    (freeIn_subset fun s hs => ?_)
  · exact List.subset_append_of_subset_left _ freeIn_nodeBlock
  · refine List.Subset.trans (free_of_mem_inlineValues hs).2 (List.cons_subset.mpr ⟨?_, ?_⟩)
    · simp [preambleNames]
    · refine List.subset_append_of_subset_right _ ?_
      show _ ⊆ declaredIn (nodeBlock (blockName place) seconds n.panel).statements
      rw [declaredIn_nodeBlock]
      exact List.Subset.refl _

variable (g) in
/-- The names that all blocks declare. -/
def allBlockNames : List String := g.nodes.zipIdx.flatMap fun (n, place) => blockNames n place

theorem declaredIn_blocks :
    declaredIn ((blocks g options).map (·.2.statements)).flatten = allBlockNames g := by
  rw [blocks, List.map_map, allBlockNames, declaredIn, List.flatMap_def, List.map_flatten,
    List.flatten_flatten, List.map_map, List.map_map, List.flatMap_def]
  exact congrArg List.flatten (List.map_congr_left fun entry _ => declaredIn_blockOf _)

/-- What a block uses is among the helpers of its graph. -/
theorem usedBy_subset (hn : n ∈ g.nodes) : usedBy n.panel ⊆ helperNames g := by
  unfold usedBy
  split
  next hkind =>
    have hcolor := mem_noiseColors hn hkind
    simpa [helperNames] using .inl ⟨_, hcolor, rfl⟩
  next hkind =>
    have hnote : hasKind g .keyboardNote = true := hasKind_of_mem hn hkind
    simp [helperNames, hnote, keyboardNames]
  next hkind =>
    have hadsr : hasKind g .keyboardAdsr = true := hasKind_of_mem hn hkind
    simp [helperNames, hadsr, keyboardNames]
  next => exact List.nil_subset _

theorem freeIn_blocks : freeIn ((blocks g options).map (·.2.statements)).flatten ⊆
    pageNames ++ preambleNames ++ helperNames g := by
  refine freeIn_flatten_subset fun p hp => ?_
  obtain ⟨entry, hentry, rfl⟩ := List.mem_map.mp hp
  obtain ⟨⟨n, place⟩, hn, rfl⟩ := List.mem_map.mp hentry
  refine List.Subset.trans (freeIn_blockOf _) (List.append_subset.mpr ⟨?_, ?_⟩)
  · exact List.subset_append_left _ _
  · exact List.subset_append_of_subset_right _ (usedBy_subset (List.fst_mem_of_mem_zipIdx hn))

/-! ## Wiring -/

/-- Looking up the block of a node finds one of the graph. -/
theorem exists_of_block? {id : NodeId} {β : Type} {f : Block α → Option β} {b : β}
    (h : (((blocks g options).find? (·.1 == id)).map (·.2)).bind f = some b) :
    ∃ n place, (n, place) ∈ g.nodes.zipIdx ∧
      f (blockOf g options.noiseSeconds n place) = some b := by
  obtain ⟨block, hblock, hf⟩ := Option.bind_eq_some_iff.mp h
  obtain ⟨entry, hentry, rfl⟩ := Option.map_eq_some_iff.mp hblock
  obtain ⟨⟨n, place⟩, hn, rfl⟩ := List.mem_map.mp (List.mem_of_find?_eq_some hentry)
  exact ⟨n, place, hn, hf⟩

omit [Scalar α] in
theorem blockNames_subset (hn : (n, place) ∈ g.nodes.zipIdx) :
    blockNames n place ⊆ allBlockNames g := fun _ hx => List.mem_flatMap.mpr ⟨_, hn, hx⟩

/-- The statements of a connection patch between handles of blocks, or set a parameter to zero. -/
theorem exists_of_mem_wiring {done : List Connection} {c : Connection} {s : Stmt α}
    (hs : s ∈ wiring (blocks g options) done c) :
    ∃ m pm n pn source wire, (m, pm) ∈ g.nodes.zipIdx ∧ (n, pn) ∈ g.nodes.zipIdx ∧
      (nodeBlock (blockName pm) options.noiseSeconds m.panel).output? c.output = some source ∧
      (nodeBlock (blockName pn) options.noiseSeconds n.panel).wire? c.input = some wire ∧
      (s ∈ link source wire ∨
        ∃ path combine, wire = .param path combine ∧ s = .setValue path (.number 0.0)) := by
  unfold wiring at hs
  dsimp only at hs
  split at hs
  next source target hsource hwire =>
    obtain ⟨m, pm, hm, hsource⟩ := exists_of_block? hsource
    obtain ⟨n, pn, hn, hwire⟩ := exists_of_block? hwire
    exact ⟨m, pm, n, pn, _, _, hm, hn, hsource, hwire, .inl hs⟩
  next source path combine hsource hwire =>
    obtain ⟨m, pm, hm, hsource⟩ := exists_of_block? hsource
    obtain ⟨n, pn, hn, hwire⟩ := exists_of_block? hwire
    refine ⟨m, pm, n, pn, _, _, hm, hn, hsource, hwire, ?_⟩
    rcases List.mem_append.mp hs with hs | hs
    · split at hs
      · exact .inr ⟨_, _, rfl, List.mem_singleton.mp hs⟩
      · cases hs
    · exact .inl hs
  next source list param hsource hwire =>
    obtain ⟨m, pm, hm, hsource⟩ := exists_of_block? hsource
    obtain ⟨n, pn, hn, hwire⟩ := exists_of_block? hwire
    exact ⟨m, pm, n, pn, _, _, hm, hn, hsource, hwire, .inl hs⟩
  next => cases hs

omit [Scalar α] in
theorem of_mem_link {source : Expr α} {wire : Wire α} {s : Stmt α} (hs : s ∈ link source wire) :
    s.declared = [] ∧ s.free ⊆ source.names ++ wireNames wire := by
  cases wire with
  | dropped => cases hs
  | object | param =>
    obtain rfl := List.mem_singleton.mp hs
    exact ⟨rfl, by simp [connect, wireNames]⟩
  | each list param =>
    obtain rfl := List.mem_singleton.mp hs
    refine ⟨rfl, fun x hx => ?_⟩
    simp [connect, wireNames] at hx ⊢
    tauto

/-- Wiring a connection uses the variables of blocks, and the master input. -/
theorem of_mem_wiring {done : List Connection} {c : Connection} {s : Stmt α}
    (hs : s ∈ wiring (blocks g options) done c) :
    s.declared = [] ∧ s.free ⊆ "master" :: allBlockNames g := by
  obtain ⟨m, pm, n, pn, source, wire, hm, hn, hsource, hwire, hs⟩ := exists_of_mem_wiring hs
  have hsource : source.names ⊆ "master" :: allBlockNames g := List.subset_cons_of_subset _
    (List.Subset.trans (names_of_output? hsource) (blockNames_subset hm))
  have hwire : wireNames wire ⊆ "master" :: allBlockNames g :=
    List.Subset.trans (names_of_wire? hwire) (List.cons_subset_cons _ (blockNames_subset hn))
  rcases hs with hs | ⟨path, combine, rfl, rfl⟩
  · obtain ⟨hdeclared, hfree⟩ := of_mem_link hs
    exact ⟨hdeclared, List.Subset.trans hfree (List.append_subset.mpr ⟨hsource, hwire⟩)⟩
  · refine ⟨rfl, ?_⟩
    show path.names ++ [] ⊆ _
    rwa [List.append_nil]

/-- What is true of the statements of every connection is true of all of them. -/
theorem of_mem_wirings {P : Stmt α → Prop} {blocks : List (NodeId × Block α)}
    {done l : List Connection} (h : ∀ done c, ∀ s ∈ wiring blocks done c, P s) {s : Stmt α}
    (hs : s ∈ wirings blocks done l) : P s := by
  induction l generalizing done with
  | nil => cases hs
  | cons c l ih => exact (List.mem_append.mp hs).elim (h done c s) ih

/-! ## Whole programs -/

omit [Scalar α] in
theorem freeIn_epilogue : freeIn (epilogue (α := α)).flatten ⊆ preambleNames := by
  simp [epilogue, preambleNames]

/-- The names that a program declares outside of all braces. -/
theorem declaredIn_ofGraph (g : Graph α) (options : Options α) :
    declaredIn (ofGraph g options).flatten = preambleNames ++ helperNames g ++ allBlockNames g := by
  have hwiring :
      declaredIn (.comment "wiring" :: wirings (blocks g options) [] g.connections) = [] :=
    List.flatMap_eq_nil_iff.mpr fun s hs => (List.mem_cons.mp hs).elim (fun h => h ▸ rfl)
      fun hs => (of_mem_wirings (fun _ _ _ => of_mem_wiring) hs).1
  have hepilogue : declaredIn (epilogue (α := α)).flatten = [] := rfl
  rw [flatten_parts, declaredIn_append, declaredIn_append, declaredIn_append, declaredIn_append,
    declaredIn_preamble, declaredIn_helpers, declaredIn_blocks, hwiring, hepilogue, List.append_nil,
    List.append_nil]

/-- A program uses only names that it has declared before, and those of the page. -/
theorem freeIn_ofGraph (g : Graph α) (options : Options α) :
    freeIn (ofGraph g options).flatten ⊆ pageNames := by
  have hwiring : freeIn (.comment "wiring" :: wirings (blocks g options) [] g.connections) ⊆
      "master" :: allBlockNames g := freeIn_subset fun s hs =>
    (List.mem_cons.mp hs).elim (fun h => h ▸ List.nil_subset _) fun hs =>
      (of_mem_wirings (fun _ _ _ => of_mem_wiring) hs).2
  rw [flatten_parts]
  refine freeIn_append_subset (freeIn_append_subset (freeIn_append_subset (freeIn_append_subset
    (freeIn_preamble g options) (freeIn_helpers g)) ?_) ?_) ?_
  · rw [declaredIn_append, declaredIn_preamble, declaredIn_helpers, ← List.append_assoc]
    exact freeIn_blocks
  · rw [declaredIn_append, declaredIn_append, declaredIn_preamble, declaredIn_helpers,
      declaredIn_blocks]
    refine List.Subset.trans hwiring (List.cons_subset.mpr ⟨by simp [preambleNames], ?_⟩)
    exact List.subset_append_of_subset_right _ (List.subset_append_right _ _)
  · refine List.Subset.trans freeIn_epilogue ?_
    rw [declaredIn_append, declaredIn_append, declaredIn_append, declaredIn_preamble]
    intro x hx
    simp [hx]

end

/-! ## Names of their own -/

/-- The names that programs can declare besides those of blocks. -/
def fixedNames : List String :=
  preambleNames ++ (Noise.Color.all.map noiseFunction ++ keyboardNames ++ ["NOTE_MAP"])

theorem sublist_fixedNames (g : Graph α) :
    (preambleNames ++ helperNames g).Sublist fixedNames := by
  refine List.Sublist.append_left (List.Sublist.append (List.Sublist.append ?_ ?_) ?_) _
  · exact List.filter_sublist.map _
  all_goals
    split
    · exact List.Sublist.refl _
    · exact List.nil_sublist _

omit [Scalar α] in
/-- The names of blocks begin otherwise. -/
theorem head?_of_mem_allBlockNames {g : Graph α} {x : String} (hx : x ∈ allBlockNames g) :
    x.toList.head? = some 'n' := by
  obtain ⟨⟨n, place⟩, -, hx⟩ := List.mem_flatMap.mp hx
  obtain ⟨role, -, rfl⟩ := List.mem_map.mp hx
  exact head?_blockName place role

omit [Scalar α] in
theorem nodup_allBlockNames (g : Graph α) : (allBlockNames g).Nodup := by
  refine List.nodup_flatMap.mpr ⟨fun entry _ => ?_, ?_⟩
  · have hroles : (roles entry.1.kind).Nodup := by
      cases entry.1.kind <;> decide
    exact hroles.map fun r r' heq => (String.append_right_inj _).mp heq
  · refine (List.pairwise_map.mp (List.nodup_zipIdx_map_snd g.nodes)).imp fun hne x hx hx' => ?_
    obtain ⟨role, -, rfl⟩ := List.mem_map.mp hx
    obtain ⟨role', -, heq⟩ := List.mem_map.mp hx'
    exact hne (blockName_inj heq).symm

/-- No name is declared twice outside of all braces, and none that the page declares. -/
theorem nodup_ofGraph (g : Graph α) (options : Options α) :
    (pageNames ++ declaredIn (ofGraph g options).flatten).Nodup := by
  have hfixed : (pageNames ++ fixedNames).Nodup := by decide
  have hheads : ∀ x ∈ pageNames ++ fixedNames, x.toList.head? ≠ some 'n' := by decide
  have hsublist := (sublist_fixedNames g).append_left pageNames
  rw [declaredIn_ofGraph, ← List.append_assoc]
  refine List.Nodup.append (hfixed.sublist hsublist) (nodup_allBlockNames g) fun x hx hx' => ?_
  exact hheads x (hsublist.subset hx) (head?_of_mem_allBlockNames hx')

end Program

end Patchbay
