import Patchbay.Proofs.Program.Acceptance
import Patchbay.Proofs.Program.Parts
import Patchbay.Proofs.Program.Scoped
/-!
# Sources of programs

A program makes every source as the value of a constant and adds it once, in the same braces, to the
list of the sources that it starts in the end (`Script.Collects`). Blocks make sources at their own
level, except for the voices of a keyboard, which are made by a loop; nothing else makes or adds any
(`Script.Inert`).
-/

namespace Patchbay

namespace Script

variable {α : Type}

/-! ## Making and adding sources -/

mutual

/-- The fields of objects that an expression looks up. -/
@[simp]
def Expr.fields : Expr α → List String
  | .name _ | .number _ | .text _ | .bool _ | .bundle _ => []
  | .member e field => field :: e.fields
  | .negated e | .paren e => e.fields
  | .item e e' | .binary _ e e' => e.fields ++ e'.fields
  | .call e arguments => e.fields ++ fieldsOf arguments
  | .construct _ arguments | .list arguments => fieldsOf arguments
  | .record fields => fieldsOfRecord fields

@[simp]
def fieldsOf : List (Expr α) → List String
  | [] => []
  | e :: rest => e.fields ++ fieldsOf rest

@[simp]
def fieldsOfRecord : List (String × Expr α) → List String
  | [] => []
  | (_, e) :: rest => e.fields ++ fieldsOfRecord rest

end

/-- The methods of the context whose results sound until they are stopped. -/
def sourceMethods : List String :=
  ["createOscillator", "createConstantSource", "createBufferSource"]

/-- The constant that a statement makes a source for. -/
def Stmt.made? : Stmt α → Option String
  | .const x (.call (.member (.name object) method) []) =>
    if object = "ctx" ∧ method ∈ sourceMethods then some x else none
  | _ => none

/-- The constant that a statement adds to the sources. -/
def Stmt.added? : Stmt α → Option String
  | .run (.call (.member (.name list) method) [.name x]) =>
    if list = "sources" ∧ method = "push" then some x else none
  | _ => none

/-- The loop that starts the sources. -/
def startSources : Stmt α :=
  .forItems ["source"] (.name "sources") false [.run (.send (.name "source") "start" [])]

/-- No statement, here or in a body, makes a source or adds one. -/
def Quiet (l : List (Stmt α)) : Prop := ∀ s ∈ within l, s.made? = none ∧ s.added? = none

/-- What a statement makes is added once among the statements behind it, and not before. -/
def AddsEach (body : List (Stmt α)) : Prop :=
  ∀ before s after x, body = before ++ s :: after → s.made? = some x →
    (before.filterMap Stmt.added?).count x = 0 ∧ (after.filterMap Stmt.added?).count x = 1

/-- Whether a statement only says what is done later: a function or the answer to an event. -/
def Stmt.isLater : Stmt α → Bool
  | .function .. | .listen .. => true
  | _ => false

/-- All sources that statements make are constants, and each is added once to the list of the
sources, behind where it is made in the same braces. The list is else used only by the loop that
starts what is in it, after which no source is made or added. Functions and answers to events make
and add none, and stand outside of all braces. -/
structure Collects (program : List (Stmt α)) : Prop where
  made : ∀ s ∈ within program, ∀ e ∈ s.exprs, ∀ field ∈ e.fields, field ∈ sourceMethods →
    s.made?.isSome
  used : ∀ s ∈ within program, ∀ e ∈ s.exprs, "sources" ∈ e.names →
    s.added?.isSome ∨ s = startSources
  once : ∀ body ∈ program :: bodiesIn program, AddsEach body
  started : ∃ before after, program = before ++ startSources :: after ∧
    Quiet (startSources :: after)
  later : ∀ s ∈ program, s.isLater = true → Quiet [s]
  outside : ∀ body ∈ bodiesIn program, ∀ s ∈ body, s.isLater = false

theorem exists_of_made? {s : Stmt α} {x : String} (h : s.made? = some x) :
    ∃ method ∈ sourceMethods, s = .const x (.call (.member (.name "ctx") method) []) := by
  unfold Stmt.made? at h
  split at h
  next y object method =>
    split at h
    next hmethod =>
      obtain rfl := Option.some.inj h
      exact ⟨method, hmethod.2, by rw [hmethod.1]⟩
    next => cases h
  next => cases h

theorem eq_of_added? {s : Stmt α} {x : String} (h : s.added? = some x) :
    s = .run (.call (.member (.name "sources") "push") [.name x]) := by
  unfold Stmt.added? at h
  split at h
  next list method y =>
    split at h
    next hmethod =>
      obtain rfl := Option.some.inj h
      rw [hmethod.1, hmethod.2]
    next => cases h
  next => cases h

/-- Where only the first statement makes a source, which is added once behind it. -/
theorem AddsEach.of_head {s : Stmt α} {rest : List (Stmt α)} {x : String} (hs : s.made? = some x)
    (hmade : rest.filterMap Stmt.made? = []) (hadded : rest.filterMap Stmt.added? = [x]) :
    AddsEach (s :: rest) := by
  intro before t after y heq ht
  cases before with
  | nil =>
    obtain ⟨rfl, rfl⟩ := List.cons.inj heq
    obtain rfl := Option.some.inj (hs.symm.trans ht)
    exact ⟨rfl, by simp [hadded]⟩
  | cons first before =>
    obtain ⟨-, rfl⟩ := List.cons.inj heq
    have hnone := List.filterMap_eq_nil_iff.mp hmade t (by simp)
    rw [ht] at hnone
    cases hnone

/-! ## Parts of programs -/

/-- A statement that has nothing to do with sources. -/
def Inert (s : Stmt α) : Prop :=
  ∀ e ∈ s.exprs, (∀ field ∈ e.fields, field ∉ sourceMethods) ∧ "sources" ∉ e.names

theorem Inert.made? {s : Stmt α} (h : Inert s) : s.made? = none := by
  refine Option.eq_none_iff_forall_ne_some.mpr fun x hx => ?_
  obtain ⟨method, hmethod, rfl⟩ := exists_of_made? hx
  exact (h _ List.mem_cons_self).1 method List.mem_cons_self hmethod

theorem Inert.added? {s : Stmt α} (h : Inert s) : s.added? = none := by
  refine Option.eq_none_iff_forall_ne_some.mpr fun x hx => ?_
  obtain rfl := eq_of_added? hx
  exact (h _ List.mem_cons_self).2 List.mem_cons_self

/-- A part of a program in which every source that is made is added. -/
structure Tidy (l : List (Stmt α)) : Prop where
  made : ∀ s ∈ within l, ∀ e ∈ s.exprs, ∀ field ∈ e.fields, field ∈ sourceMethods → s.made?.isSome
  used : ∀ s ∈ within l, ∀ e ∈ s.exprs, "sources" ∈ e.names → s.added?.isSome
  inner : ∀ body ∈ bodiesIn l, AddsEach body
  balance : l.filterMap Stmt.made? = l.filterMap Stmt.added?
  later : ∀ s ∈ l, s.isLater = true → Quiet [s]
  outside : ∀ body ∈ bodiesIn l, ∀ s ∈ body, s.isLater = false

theorem Tidy.append {l l' : List (Stmt α)} (h : Tidy l) (h' : Tidy l') : Tidy (l ++ l') where
  made s hs := (mem_within_append.mp hs).elim (h.made s) (h'.made s)
  used s hs := (mem_within_append.mp hs).elim (h.used s) (h'.used s)
  inner body hbody := (List.mem_append.mp (bodiesIn_append l l' ▸ hbody)).elim (h.inner body)
    (h'.inner body)
  balance := by rw [List.filterMap_append, List.filterMap_append, h.balance, h'.balance]
  later s hs := (List.mem_append.mp hs).elim (h.later s) (h'.later s)
  outside body hbody := (List.mem_append.mp (bodiesIn_append l l' ▸ hbody)).elim (h.outside body)
    (h'.outside body)

theorem Tidy.flatten {l : Paragraphs α} (h : ∀ p ∈ l, Tidy p) : Tidy l.flatten := by
  induction l with
  | nil => exact ⟨by simp [within], by simp [within], by simp, rfl, by simp, by simp⟩
  | cons p l ih =>
    exact (h p List.mem_cons_self).append (ih fun p hp => h p (List.mem_cons_of_mem _ hp))

theorem Tidy.of_each {l : List (Stmt α)} (h : ∀ s ∈ l, Tidy [s]) : Tidy l := by
  have hflatten : (l.map fun s => [s]).flatten = l := by
    rw [← List.flatMap_def, List.flatMap_singleton']
  exact hflatten ▸ .flatten fun p hp => let ⟨s, hs, heq⟩ := List.mem_map.mp hp; heq ▸ h s hs

/-- What has nothing to do with sources. -/
theorem Tidy.of_inert {l : List (Stmt α)} (h : ∀ s ∈ within l, Inert s)
    (houtside : ∀ body ∈ bodiesIn l, ∀ s ∈ body, s.isLater = false) : Tidy l where
  made s hs e he field hfield hmethod := absurd hmethod ((h s hs e he).1 field hfield)
  used s hs e he hname := absurd hname (h s hs e he).2
  inner body hbody before s after x heq hx := by
    have hs : s ∈ within l := List.mem_append_right _
      (List.mem_flatten.mpr ⟨body, hbody, heq ▸ by simp⟩)
    rw [(h s hs).made?] at hx
    cases hx
  balance := by
    have hmem : ∀ s ∈ l, s ∈ within l := fun s hs => List.mem_append_left _ hs
    rw [List.filterMap_eq_nil_iff.mpr fun s hs => (h s (hmem s hs)).made?,
      List.filterMap_eq_nil_iff.mpr fun s hs => (h s (hmem s hs)).added?]
  later s hs _ t ht := by
    have hmem : t ∈ within l := by
      obtain ⟨before, after, rfl⟩ := List.append_of_mem hs
      exact mem_within_append.mpr (.inr (mem_within_append (l := [s]).mpr (.inl ht)))
    exact ⟨(h t hmem).made?, (h t hmem).added?⟩
  outside := houtside

end Script

namespace Program

open Script

variable {α : Type} [Scalar α]

/-! ## Helpers -/

theorem tidy_keyboardHelper : Tidy (keyboardHelper (α := α)).flatten := by
  refine .of_inert ?_ ?_
  · simp [keyboardHelper, playNote, releaseNote, onKeyDown, onKeyUp, forVoices, voiceGain,
      voiceProfile, fromNow, rampGain, setGain, gainIsSilent, audible, silence, stateOf, setState,
      letGo, setSustaining, eventKeyIs, eventKey, shiftIsDown, within, Inert, sourceMethods,
      Expr.send, Expr.apply, Expr.plus, Expr.minus, Expr.lessThan, Stmt.set]
  · simp [keyboardHelper, playNote, releaseNote, onKeyDown, onKeyUp, forVoices, rampGain, setGain,
      setState, letGo, setSustaining, eventKey, Stmt.isLater, Stmt.set]

theorem tidy_noiseHelper (color : Noise.Color) : Tidy [noiseHelper (α := α) color] := by
  refine .of_inert ?_ ?_
  · cases color <;>
      simp [noiseHelper, noiseBody, noiseFunction, forSamples, noiseDraw, random, sample,
        sampleBefore, dataAt, dataLength, pinkSum, within, Inert, sourceMethods, Expr.send,
        Expr.apply, Expr.plus, Expr.minus, Expr.times, Expr.lessThan, Stmt.set]
  · cases color <;>
      simp [noiseHelper, noiseBody, forSamples, pinkSum, Stmt.isLater, Stmt.set]

theorem tidy_noteMap : Tidy [noteMap (α := α)] := by
  have hrows : ∀ l : List (Key × α),
      fieldsOf (l.map fun pitch => (.list [.text pitch.1.code, .number pitch.2] : Expr α)) = [] ∧
      namesOf (l.map fun pitch => (.list [.text pitch.1.code, .number pitch.2] : Expr α)) = [] := by
    intro l
    induction l with
    | nil => exact ⟨rfl, rfl⟩
    | cons pitch l ih => simpa using ih
  exact .of_inert (by simp [noteMap, within, Inert, hrows]) (by simp [noteMap])

omit [Scalar α] in
theorem tidy_preamble (g : Graph α) (options : Options α) : Tidy (preamble g options) := by
  refine .of_inert ?_ ?_
  · simp [preamble, within, Inert, sourceMethods, ctxMake, connect, Stmt.setValue, Stmt.set,
      Expr.send]
  · simp [preamble, connect, Stmt.setValue, Stmt.set]

theorem tidy_helpers (g : Graph α) : Tidy (helpers g).flatten := by
  rw [flatten_helpers]
  refine (Tidy.append ?_ ?_).append ?_
  · refine .of_each fun s hs => ?_
    obtain ⟨color, -, rfl⟩ := List.mem_map.mp hs
    exact tidy_noiseHelper color
  · split
    · exact tidy_keyboardHelper
    · exact .flatten (l := []) (by simp)
  · split
    · exact tidy_noteMap
    · exact .flatten (l := []) (by simp)

/-! ## Blocks -/

omit [Scalar α] in
theorem fields_profileRecord (p : Profile α) : (profileRecord p).fields = [] := rfl

theorem sources_ne_noiseFunction (color : Noise.Color) : "sources" ≠ noiseFunction color := by
  cases color <;> decide

theorem tidy_nodeBlock {name : String} (hname : ∀ role, "sources" ≠ name ++ "_" ++ role)
    (seconds : α) (panel : Panel α) : Tidy (nodeBlock name seconds panel).statements := by
  obtain ⟨kind, values⟩ := panel
  cases kind
  case gain | delay | biquadFilter | clip | dynamicsCompressor | transpose | keyboardAdsr
      | audioOutput | universalOutput | timeVisualizer | frequencyVisualizer | consoleDebugger =>
    refine .of_inert ?_ ?_
    · simp [nodeBlock, within, Inert, sourceMethods, ctxMake, connect, Stmt.setValue, Stmt.set,
        Expr.send, Expr.apply, compressorParams, Param.name, hname, names_profileRecord,
        fields_profileRecord]
    · simp [nodeBlock, connect, Stmt.setValue, Stmt.set, compressorParams]
  case constant | noteFrequency | oscillator | noise =>
    refine ⟨?_, ?_, ?_, rfl, ?_, ?_⟩
    · simp [nodeBlock, within, sourceMethods, ctxMake, addSource, Stmt.setValue, Stmt.set,
        Expr.send, Expr.apply, Expr.times, Stmt.made?]
    · simp [nodeBlock, within, ctxMake, addSource, Stmt.setValue, Stmt.set, Expr.send, Expr.apply,
        Expr.times, hname, sources_ne_noiseFunction, Stmt.added?]
    all_goals simp [nodeBlock, addSource, Stmt.setValue, Stmt.set, Stmt.isLater]
  case keyboardNote =>
    refine ⟨?_, ?_, ?_, rfl, ?_, ?_⟩
    · simp [nodeBlock, within, sourceMethods, ctxMake, addSource, connect, Stmt.setValue, Stmt.set,
        Expr.send, Expr.apply, Expr.times, fields_profileRecord, Stmt.made?]
    · simp [nodeBlock, within, ctxMake, addSource, connect, Stmt.setValue, Stmt.set, Expr.send,
        Expr.apply, Expr.times, hname, names_profileRecord, Stmt.added?]
    · simp only [nodeBlock, bodiesIn, Stmt.bodies, Stmt.setValue, Stmt.set, addSource, connect,
        List.nil_append, List.append_nil, List.mem_singleton, forall_eq]
      have hvoices : name ++ "_" ++ "osc" ≠ "sources" := (hname "osc").symm
      exact .of_head rfl rfl
        (by simp [List.filterMap_cons, Expr.send, Expr.apply, Stmt.added?, hvoices])
    all_goals simp [nodeBlock, addSource, connect, Stmt.setValue, Stmt.set, Stmt.isLater]

theorem fields_of_output? {name : String} {seconds : α} {panel : Panel α} {socket : String}
    {e : Expr α} (h : (nodeBlock name seconds panel).output? socket = some e) : e.fields = [] := by
  obtain ⟨role, -, rfl⟩ := exists_of_output? h
  rfl

/-- The fields that a wire looks up. -/
def wireFields : Wire α → List String
  | .object e | .param e _ => e.fields
  | .each e param => param :: e.fields
  | .dropped => []

/-- The inputs of a block look up no method that makes sources. -/
theorem fields_of_wire? {name : String} {seconds : α} {panel : Panel α} {socket : String}
    {wire : Wire α} (h : (nodeBlock name seconds panel).wire? socket = some wire) :
    ∀ field ∈ wireFields wire, field ∉ sourceMethods := by
  have hparam : ∀ p : Param, ∀ field ∈ [p.name], field ∉ sourceMethods := by
    intro p
    cases p <;> decide
  cases into_of_wire? h with
  | param hx p | each hx p => exact hparam p
  | master | object hx | dropped => exact fun _ hfield => by cases hfield

omit [Scalar α] in
theorem tidy_setValue {path : Expr α} (hfields : ∀ field ∈ path.fields, field ∉ sourceMethods)
    (hnames : "sources" ∉ path.names) (x : α) : Tidy [.setValue path (.number x)] := by
  refine .of_inert ?_ (by simp [Stmt.setValue, Stmt.set])
  have hvalue : "value" ∉ sourceMethods := by decide
  simpa [within, Stmt.setValue, Stmt.set, Inert, hvalue] using ⟨hfields, hnames⟩

omit [Scalar α] in
theorem tidy_of_mem_link {source : Expr α} {wire : Wire α} (hfields : source.fields = [])
    (hnames : "sources" ∉ source.names)
    (hfields' : ∀ field ∈ wireFields wire, field ∉ sourceMethods)
    (hnames' : "sources" ∉ wireNames wire) {s : Stmt α} (hs : s ∈ link source wire) : Tidy [s] := by
  have hconnect : "connect" ∉ sourceMethods := by decide
  cases wire with
  | dropped => cases hs
  | object | param =>
    obtain rfl := List.mem_singleton.mp hs
    refine .of_inert ?_ (by simp [connect])
    simpa [within, connect, Expr.send, Inert, hconnect, hfields, hnames] using ⟨hfields', hnames'⟩
  | each list param =>
    obtain rfl := List.mem_singleton.mp hs
    refine .of_inert ?_ (by simp [connect, Stmt.isLater])
    simp only [wireFields, List.mem_cons, forall_eq_or_imp] at hfields'
    simpa [within, connect, Expr.send, Inert, hconnect, hfields, hnames, hfields'.1] using
      ⟨hfields'.2, hnames'⟩

section

variable {g : Graph α} {options : Options α}

omit [Scalar α] in
/-- The variables of blocks are not the list of the sources. -/
theorem sources_ne_blockName (place : Nat) (role : String) :
    "sources" ≠ blockName place ++ "_" ++ role := blockName_ne place role (by decide)

omit [Scalar α] in
theorem sources_notMem {n : Node α} {place : Nat} {l : List String}
    (h : l ⊆ "master" :: (roles n.kind).map (blockName place ++ "_" ++ ·)) : "sources" ∉ l := by
  intro hmem
  rcases List.mem_cons.mp (h hmem) with heq | hmem
  · exact absurd heq (by decide)
  · obtain ⟨role, -, heq⟩ := List.mem_map.mp hmem
    exact sources_ne_blockName place role heq.symm

theorem tidy_blockOf (n : Node α) (place : Nat) (seconds : α) :
    Tidy (blockOf g seconds n place).statements := by
  have hinline : Tidy (inlineValues g n (nodeBlock (blockName place) seconds n.panel)) := by
    refine .of_each fun s hs => ?_
    rw [inlineValues_eq, List.mem_filterMap] at hs
    obtain ⟨socket, -, hs⟩ := hs
    obtain ⟨control, path, combine, -, hwire, rfl⟩ := exists_of_inlineValue? hs
    exact tidy_setValue (fields_of_wire? hwire) (sources_notMem (n := n) (names_of_wire? hwire)) _
  have hheading : Tidy [heading n] := .of_inert (by simp [heading, within, Inert])
      (by simp [heading])
  exact (hheading.append (tidy_nodeBlock (sources_ne_blockName place) seconds n.panel)).append
    hinline

theorem tidy_wirings (done l : List Connection) : Tidy (wirings (blocks g options) done l) := by
  refine .of_each fun s hs => of_mem_wirings (P := fun s => Tidy [s]) (fun done c s hs => ?_) hs
  obtain ⟨m, pm, n, pn, source, wire, hm, hn, hsource, hwire, hs⟩ := exists_of_mem_wiring hs
  have hnames := sources_notMem (n := n) (names_of_wire? hwire)
  rcases hs with hs | ⟨path, combine, rfl, rfl⟩
  · refine tidy_of_mem_link (fields_of_output? hsource) ?_ (fields_of_wire? hwire) hnames hs
    exact sources_notMem (n := m) (List.subset_cons_of_subset _ (names_of_output? hsource))
  · exact tidy_setValue (fields_of_wire? hwire) hnames _

/-- Until it starts its sources, a program adds all that it makes. -/
theorem tidy_front (g : Graph α) (options : Options α) : Tidy (preamble g options ++
    (helpers g).flatten ++ ((blocks g options).map (·.2.statements)).flatten ++
      (.comment "wiring" :: wirings (blocks g options) [] g.connections)) := by
  have hcomment : Tidy [(.comment "wiring" : Stmt α)] :=
    .of_inert (by simp [within, Inert]) (by simp)
  have hblocks : Tidy ((blocks g options).map (·.2.statements)).flatten := by
    refine .flatten fun p hp => ?_
    obtain ⟨entry, hentry, rfl⟩ := List.mem_map.mp hp
    obtain ⟨⟨n, place⟩, -, rfl⟩ := List.mem_map.mp hentry
    exact tidy_blockOf n place _
  exact (((tidy_preamble g options).append (tidy_helpers g)).append hblocks).append
    (hcomment.append (tidy_wirings [] _))

omit [Scalar α] in
theorem quiet_epilogue : Quiet (epilogue (α := α)).flatten := by
  simp [Quiet, epilogue, within, Stmt.made?, Stmt.added?, Expr.send]

end

/-! ## Programs -/

omit [Scalar α] in
theorem mem_declaredIn_of_made {l : List (Stmt α)} {x : String}
    (h : x ∈ l.filterMap Stmt.made?) : x ∈ declaredIn l := by
  obtain ⟨s, hs, hx⟩ := List.mem_filterMap.mp h
  obtain ⟨method, -, rfl⟩ := exists_of_made? hx
  exact List.mem_flatMap.mpr ⟨_, hs, List.mem_singleton_self x⟩

omit [Scalar α] in
/-- What is made is declared once, and used only behind its declaration. So if as much is added as
is made, each is added once, behind where it is made. -/
theorem addsEach_of_scoped {l : List (Stmt α)} (hnodup : (declaredIn l).Nodup)
    (hscoped : ∀ before s after, l = before ++ s :: after → ∀ x ∈ s.free, x ∈ declaredIn l →
      x ∈ declaredIn before) (hbalance : l.filterMap Stmt.made? = l.filterMap Stmt.added?) :
    AddsEach l := by
  rintro before s after x rfl hx
  obtain ⟨method, -, rfl⟩ := exists_of_made? hx
  rw [declaredIn_append, List.nodup_append] at hnodup
  obtain ⟨-, hnodup, hdisjoint⟩ := hnodup
  have hbefore : x ∉ declaredIn before := fun hmem => hdisjoint x hmem x List.mem_cons_self rfl
  have hafter : x ∉ declaredIn after := (List.nodup_cons.mp hnodup).1
  have hnotyet : x ∉ before.filterMap Stmt.added? := fun hmem => by
    obtain ⟨t, ht, hadded⟩ := List.mem_filterMap.mp hmem
    obtain rfl := eq_of_added? hadded
    obtain ⟨first, second, rfl⟩ := List.append_of_mem ht
    have hfirst := hscoped first _ (second ++ _ :: after) (by rw [List.append_assoc]; rfl) x
      (by simp) (by simp [declaredIn])
    exact hbefore (declaredIn_append first _ ▸ List.mem_append_left _ hfirst)
  have hmade : x ∉ before.filterMap Stmt.made? ∧ x ∉ after.filterMap Stmt.made? :=
    ⟨fun h => hbefore (mem_declaredIn_of_made h), fun h => hafter (mem_declaredIn_of_made h)⟩
  have hcount := congrArg (List.count x) hbalance
  rw [List.filterMap_append, List.filterMap_append, List.filterMap_cons_some hx,
    List.filterMap_cons_none rfl, List.count_append, List.count_append, List.count_cons_self,
    List.count_eq_zero.mpr hmade.1, List.count_eq_zero.mpr hmade.2,
    List.count_eq_zero.mpr hnotyet] at hcount
  exact ⟨List.count_eq_zero.mpr hnotyet, by omega⟩

omit [Scalar α] in
/-- Behind a part that adds all that it makes, the sources can be started. -/
theorem collects_of_tidy {front : List (Stmt α)} (h : Tidy front)
    (hnodup : (declaredIn (front ++ epilogue.flatten)).Nodup)
    (hscoped : ∀ before s after, front ++ epilogue.flatten = before ++ s :: after →
      ∀ x ∈ s.free, x ∈ declaredIn (front ++ epilogue.flatten) → x ∈ declaredIn before) :
    Collects (front ++ epilogue.flatten) where
  made s hs e he field hfield hmethod := by
    rcases mem_within_append.mp hs with hs | hs
    · exact h.made s hs e he field hfield hmethod
    · have hnone : ∀ s ∈ within (epilogue (α := α)).flatten, ∀ e ∈ s.exprs, ∀ field ∈ e.fields,
          field ∉ sourceMethods := by
        simp [epilogue, within, sourceMethods, Expr.send]
      exact absurd hmethod (hnone s hs e he field hfield)
  used s hs e he hname := by
    rcases mem_within_append.mp hs with hs | hs
    · exact .inl (h.used s hs e he hname)
    · have hstart : ∀ s ∈ within (epilogue (α := α)).flatten, ∀ e ∈ s.exprs, "sources" ∈ e.names →
          s = startSources := by
        simp [epilogue, within, startSources]
      exact .inr (hstart s hs e he hname)
  once body hbody := by
    rcases List.mem_cons.mp hbody with rfl | hbody
    · refine addsEach_of_scoped hnodup hscoped ?_
      rw [List.filterMap_append, List.filterMap_append, h.balance]
      rfl
    rcases List.mem_append.mp (bodiesIn_append front _ ▸ hbody) with hbody | hbody
    · exact h.inner body hbody
    · intro before s after x heq hx
      have hs : s ∈ within (epilogue (α := α)).flatten := List.mem_append_right _
        (List.mem_flatten.mpr ⟨body, hbody, heq ▸ by simp⟩)
      rw [(quiet_epilogue s hs).1] at hx
      cases hx
  started := ⟨front, _, rfl, quiet_epilogue⟩
  later s hs hlater := by
    rcases List.mem_append.mp hs with hs | hs
    · exact h.later s hs hlater
    · have hnone : ∀ s ∈ (epilogue (α := α)).flatten, s.isLater = false := by
        simp [epilogue, Stmt.isLater]
      exact absurd (hlater.symm.trans (hnone s hs)) Bool.noConfusion
  outside body hbody := by
    rcases List.mem_append.mp (bodiesIn_append front _ ▸ hbody) with hbody | hbody
    · exact h.outside body hbody
    · have hnone : ∀ body ∈ bodiesIn (epilogue (α := α)).flatten,
          ∀ s ∈ body, s.isLater = false := by
        simp [epilogue, Stmt.isLater]
      exact hnone body hbody

theorem collects_ofGraph (g : Graph α) (options : Options α) :
    Collects (ofGraph g options).flatten := by
  have hnames := nodup_ofGraph g options
  have hscoped : ∀ before s after, (ofGraph g options).flatten = before ++ s :: after →
      ∀ x ∈ s.free, x ∈ declaredIn (ofGraph g options).flatten → x ∈ declaredIn before := by
    intro before s after heq x hx hdeclared
    have hknown := freeIn_subset_iff.mp (freeIn_ofGraph g options) before s after heq x hx
    exact hknown.resolve_left fun hpage => (List.nodup_append.mp hnames).2.2 x hpage x hdeclared rfl
  have hnodup := hnames.of_append_right
  rw [flatten_parts] at hnodup hscoped ⊢
  exact collects_of_tidy (tidy_front g options) hnodup hscoped

end Program

open Program Script in
/-- What a generated program uses it has declared before. Each name that a statement outside of all
braces uses, in its bodies too, is one of the page or is declared by an earlier such statement, and
by no other; no name is declared twice there, and none that the page declares. Every source that the
program makes is added once to the sources, before these are started. -/
theorem Document.scoped_of_program {α : Type} [Scalar α] {d : Document} {options : Options α}
    {program : Paragraphs α} (h : ofDocument d options = .ok program) :
    (pageNames ++ declaredIn program.flatten).Nodup ∧
    (∀ before s after, program.flatten = before ++ s :: after → ∀ x ∈ s.free,
      x ∈ pageNames ∨ x ∈ declaredIn before ∧ (declaredIn program.flatten).count x = 1) ∧
    Collects program.flatten := by
  obtain ⟨-, rfl⟩ := ofDocument_eq_ok_iff.mp h
  refine ⟨nodup_ofGraph _ _, fun before s after heq x hx => ?_, collects_ofGraph _ _⟩
  refine (freeIn_subset_iff.mp (freeIn_ofGraph _ _) before s after heq x hx).imp_right fun hx => ?_
  refine ⟨hx, List.count_eq_one_of_mem (nodup_ofGraph _ _).of_append_right ?_⟩
  rw [heq, declaredIn_append]
  exact List.mem_append_left _ hx

/-- Blue noise and a keyboard, both heard. -/
def Document.surf : Document where
  nodes := [⟨"keys", "Keyboard Note", .null⟩,
    ⟨"sea", "Noise", .record [("noiseType", .text "Blue Noise")]⟩, ⟨"out", "Audio Output", .null⟩]
  connections := [⟨"sea", "signal", "out", "signal"⟩, ⟨"keys", "signal", "out", "signal"⟩]
  comments := []

open Program Script in
/-- Its program is well scoped and starts what it makes. -/
theorem Document.scoped_surf : ∃ program, ofDocument (α := Float) surf .standard = .ok program ∧
    (declaredIn program.flatten).Nodup ∧ Collects program.flatten := by
  have hclean : (surf.toGraph (α := Float)).2.isClean = true := by decide
  have hprogram := ofDocument_of_isClean (α := Float) .standard hclean
  obtain ⟨hnodup, -, hcollects⟩ := scoped_of_program hprogram
  exact ⟨_, hprogram, hnodup.of_append_right, hcollects⟩

end Patchbay
