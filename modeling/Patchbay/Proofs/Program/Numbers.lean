import Patchbay.Proofs.Exact
import Patchbay.Proofs.Number.Finite
import Patchbay.Proofs.Program.Acceptance
import Patchbay.Proofs.Program.Literals
import Patchbay.Proofs.Program.Parts
import Patchbay.Proofs.Program.Scoped
/-!
# Numbers in programs

All numbers that a program writes are finite, and so are written as literals that are read back as
them, except for pitches: the frequencies and ratios that a power of two makes of notes and octaves
can be too large for a number (`Document.literal_of_program`).

What a panel holds is finite because it was accepted. Of what is computed from it, the reciprocal of
an amplitude stays finite because no amplitude is accepted that is too small
(`Panel.Accepted.isFinite_amp`).
-/

namespace Patchbay

open Script

/-! ## Accepted panels -/

theorem Control.Domain.Accepts.isFinite {α : Type} [Scalar α] {d : Control.Domain α} {x : α}
    (h : d.Accepts (.number x)) : Scalar.isFinite x = true := by
  cases d with
  | number standard range => exact (accepts_number_iff.mp h).1
  | _ => cases h

theorem Control.Domain.Accepts.isFinite_profile {α : Type} [Scalar α] {d : Control.Domain α}
    {p : Profile α} (h : d.Accepts (.profile p)) : ∀ x ∈ p.toList, Scalar.isFinite x = true := by
  cases d with
  | profile =>
    have hnone : p.fault? = none := Option.map_eq_none_iff.mp (accepts_iff.mp h)
    have hall := (Profile.fault?_eq_none_iff.mp hnone).1
    simp only [Profile.levels, Profile.lengths, Profile.toList, List.cons_append, List.nil_append,
      List.forall_mem_cons] at hall ⊢
    tauto
  | _ => cases h

/-- What a panel gives is in the domain of one of its controls, or it is the standard value. -/
theorem Panel.Accepted.accepts_of_get? {α : Type} [Scalar α] {panel : Panel α} (h : panel.Accepted)
    {key : String} {v : Control.Value α} (hget : panel.get? key = some v) :
    ∃ c ∈ panel.kind.controls (α := α), c.domain.Accepts v := by
  obtain ⟨entry, hentry, rfl⟩ := Option.map_eq_some_iff.mp hget
  have hmem : entry ∈ panel.kind.controls.zip panel.values := List.mem_of_find?_eq_some hentry
  exact ⟨entry.1, (List.of_mem_zip hmem).1, (List.forall₂_iff_zip.mp h).2 hmem⟩

/-- The numbers of an accepted panel are finite. -/
theorem Panel.Accepted.isFinite_number {panel : Panel Float} (h : panel.Accepted) (key : String) :
    (panel.number key).isFinite = true := by
  have hzero : (0.0 : Float).isFinite = true := by decide
  unfold number
  cases hget : panel.get? key with
  | none => exact hzero
  | some v =>
    obtain ⟨c, -, haccepts⟩ := h.accepts_of_get? hget
    cases v with
    | number x => exact haccepts.isFinite
    | choice name => exact hzero
    | profile p => exact hzero

theorem Panel.Accepted.isFinite_profile {panel : Panel Float} (h : panel.Accepted) (key : String) :
    ∀ x ∈ (panel.profile key).toList, x.isFinite = true := by
  have hstandard : ∀ x ∈ (Profile.standard (α := Float)).toList, x.isFinite = true := by
    decide
  unfold profile
  cases hget : panel.get? key with
  | none => exact hstandard
  | some v =>
    obtain ⟨c, -, haccepts⟩ := h.accepts_of_get? hget
    cases v with
    | number x => exact hstandard
    | choice name => exact hstandard
    | profile p => exact haccepts.isFinite_profile

/-- An accepted amplitude, its negation and its reciprocal are finite. -/
theorem Panel.Accepted.isFinite_amp {panel : Panel Float} (h : panel.Accepted)
    (hkind : panel.kind = .clip) : (-panel.number "amp").isFinite = true ∧
      (1.0 / panel.number "amp").isFinite = true := by
  obtain ⟨hfinite, hrange⟩ := Control.Domain.accepts_number_iff.mp <|
    h.accepts_number (c := .atLeast "amp" "Amplitude" 1.0 Kind.leastClip)
      (by rw [hkind]; exact List.mem_singleton_self _) rfl
  change (panel.number "amp").isFinite = true at hfinite
  have hleast : ¬panel.number "amp" < Kind.leastClip := fun hlt => hrange (.inl hlt)
  generalize panel.number "amp" = x at hfinite hleast
  have hunpack : (Kind.leastClip : Float).toModel.unpack =
      .finite .positive 4722366482869645 (-72) (by decide) :=
    Binary64.unpack_eq_of_ofFloat (by decide) _
  obtain ⟨m, q, hpos, hx, hlow⟩ := Binary64.exists_unpack_of_not_lt hunpack hfinite hleast
  have hparts : Number.Binary.ofFloat x = .finite false m q := by
    rw [Binary64.ofFloat_eq, hx]
    rfl
  obtain ⟨hbits, hmin, hfull⟩ := Binary64.canonical_ofBits hparts
  have hhigh := Json.le_of_ofBits hparts
  refine ⟨isFinite_of_ofFloat (Binary64.ofFloat_neg hbits hmin hhigh hfull hx), ?_⟩
  exact Binary64.isFinite_one_div hx
    (Binary64.log2_eq_of_full (hfull.resolve_left (by omega)) hbits)
    (by omega) hhigh

/-- The frequency or ratio that a node is tuned to. -/
def Panel.pitch? {α : Type} [Scalar α] (panel : Panel α) : Option α :=
  match panel.kind with
  | .noteFrequency => some (Pitch.noteFrequency (panel.number "note") (panel.number "octave"))
  | .transpose | .keyboardNote =>
    some (Pitch.ratio (panel.number "octave") (panel.number "halfstep"))
  | _ => none

namespace Program

section

variable {α : Type} [Scalar α]

theorem numbersIn_noteMap : numbersIn [noteMap (α := α)] = Key.pitches.map (·.2) := by
  have hrows : ∀ l : List (Key × α),
      numbersOf (l.map fun pitch => (.list [.text pitch.1.code, .number pitch.2] : Expr α)) =
        l.map (·.2) := by
    intro l
    induction l with
    | nil => rfl
    | cons pitch l ih => simpa using ih
  simp [numbersIn, noteMap, within, hrows]

omit [Scalar α] in
theorem numbersIn_preamble (g : Graph α) (options : Options α) :
    numbersIn (preamble g options) = [options.masterGain] := by
  simp [numbersIn, preamble, within, ctxMake, connect, Stmt.setValue, Stmt.set, Expr.send]

omit [Scalar α] in
theorem numbersIn_epilogue : numbersIn (epilogue (α := α)).flatten = [] := by
  simp [numbersIn, epilogue, within, Expr.send]

omit [Scalar α] in
theorem numbers_profileRecord (p : Profile α) : (profileRecord p).numbers = p.toList := rfl

end

theorem isFinite_noiseHelper (color : Noise.Color) :
    ∀ x ∈ numbersIn [noiseHelper (α := Float) color], x.isFinite = true := by
  cases color <;> decide

theorem isFinite_keyboardHelper :
    ∀ x ∈ numbersIn (keyboardHelper (α := Float)).flatten, x.isFinite = true := by
  decide

/-- The numbers that make a node are finite, or what it is tuned to. -/
theorem finite_or_pitch_nodeBlock {name : String} {seconds : Float} {panel : Panel Float}
    (hpanel : panel.Accepted) (hseconds : seconds.isFinite = true) :
    ∀ x ∈ numbersIn (nodeBlock name seconds panel).statements,
      x.isFinite = true ∨ panel.pitch? = some x := by
  intro x hx
  have hnumber := hpanel.isFinite_number
  have hprofile := hpanel.isFinite_profile
  obtain ⟨kind, values⟩ := panel
  cases kind <;>
    simp [numbersIn, nodeBlock, within, ctxMake, connect, addSource, compressorParams, Param.name,
      numbers_profileRecord, Stmt.setValue, Stmt.set, Expr.send, Expr.apply, Expr.times] at hx
  case constant | universalOutput => exact .inl (hx ▸ hnumber _)
  case noise =>
    rcases hx with rfl | rfl | rfl
    · exact .inl (by decide)
    · exact .inl hseconds
    · exact .inl (by decide)
  case noteFrequency | transpose => exact .inr (hx ▸ rfl)
  case delay =>
    refine .inl ?_
    rw [hx, Scalar.greatest]
    split
    · split
      · decide
      · exact hnumber _
    · decide
  case clip =>
    obtain ⟨hneg, hreciprocal⟩ := hpanel.isFinite_amp rfl
    rcases hx with rfl | rfl | rfl
    · exact .inl hreciprocal
    · exact .inl hneg
    · exact .inl (hnumber _)
  case dynamicsCompressor =>
    rcases hx with rfl | rfl | rfl | rfl | rfl <;> exact .inl (hnumber _)
  case keyboardNote =>
    rcases hx with hx | rfl | rfl
    · exact .inl (hprofile _ x hx)
    · exact .inr rfl
    · exact .inl (by decide)
  case keyboardAdsr =>
    rcases hx with rfl | hx
    · exact .inl (by decide)
    · exact .inl (hprofile _ x hx)

/-- What a node is tuned to is among the numbers that make it. -/
theorem mem_nodeBlock_of_pitch? {α : Type} [Scalar α] {name : String} {seconds : α}
    {panel : Panel α} {x : α} (hpitch : panel.pitch? = some x) :
    x ∈ numbersIn (nodeBlock name seconds panel).statements := by
  obtain ⟨kind, values⟩ := panel
  cases kind
  case noteFrequency | transpose =>
    cases hpitch
    exact List.mem_singleton_self _
  case keyboardNote =>
    cases hpitch
    simp [numbersIn, nodeBlock, within, Stmt.setValue, Stmt.set, Expr.times]
  all_goals cases hpitch

theorem finite_or_pitch_helpers (g : Graph Float) : ∀ x ∈ numbersIn (helpers g).flatten,
    x.isFinite = true ∨ hasKind g .keyboardNote = true ∧ x ∈ Key.pitches.map (·.2) := by
  intro x hx
  obtain ⟨p, hp, hx⟩ := mem_numbersIn_flatten.mp hx
  obtain ⟨color, -, rfl⟩ | hp | ⟨hkind, rfl⟩ := mem_helpers hp
  · exact .inl (isFinite_noiseHelper color x hx)
  · exact .inl (isFinite_keyboardHelper x (mem_numbersIn_flatten.mpr ⟨p, hp, hx⟩))
  · exact .inr ⟨hkind, numbersIn_noteMap (α := Float) ▸ hx⟩

/-! ## Inline values and wiring -/

section

variable {α : Type} [Scalar α] {name : String} {seconds : α} {panel : Panel α} {socket : String}

theorem numbers_of_output? {e : Expr α}
    (h : (nodeBlock name seconds panel).output? socket = some e) : e.numbers = [] := by
  obtain ⟨role, -, rfl⟩ := exists_of_output? h
  rfl

theorem numbers_of_wire? {path : Expr α} {combine : Combine}
    (h : (nodeBlock name seconds panel).wire? socket = some (.param path combine)) :
    path.numbers = [] := by
  obtain ⟨role, param, rfl⟩ := exists_of_wire? h
  rfl

omit [Scalar α] in
theorem numbersIn_link {source : Expr α} {wire : Wire α} {own : List String}
    (hsource : source.numbers = []) (hwire : wire.Into own) :
    numbersIn (link source wire) = [] := by
  cases hwire <;>
    simp [link, paramWire, numbersIn, within, connect, Expr.send, hsource]

omit [Scalar α] in
theorem numbersIn_setValue {path : Expr α} (hpath : path.numbers = []) (x : α) :
    numbersIn [.setValue path (.number x)] = [x] := by
  simp [numbersIn, within, Stmt.setValue, Stmt.set, hpath]

end

section

variable {g : Graph Float} {options : Options Float}

/-- The numbers of a block are finite, or what its node is tuned to. -/
theorem finite_or_pitch_blockOf {n : Node Float} (hpanel : n.panel.Accepted) {seconds : Float}
    (hseconds : seconds.isFinite = true) (place : Nat) :
    ∀ x ∈ numbersIn (blockOf g seconds n place).statements,
      x.isFinite = true ∨ n.panel.pitch? = some x := by
  intro x hx
  change x ∈ numbersIn ([heading n] ++ (nodeBlock (blockName place) seconds n.panel).statements ++
    inlineValues g n (nodeBlock (blockName place) seconds n.panel)) at hx
  rw [mem_numbersIn_append, mem_numbersIn_append] at hx
  rcases hx with (hx | hx) | hx
  · simp [heading, numbersIn, within] at hx
  · exact finite_or_pitch_nodeBlock hpanel hseconds x hx
  · obtain ⟨s, hs, hx⟩ := mem_numbersIn.mp hx
    rw [inlineValues_eq, List.mem_filterMap] at hs
    obtain ⟨socket, -, hs⟩ := hs
    obtain ⟨control, path, combine, -, hwire, rfl⟩ := exists_of_inlineValue? hs
    rw [numbersIn_setValue (numbers_of_wire? hwire), List.mem_singleton] at hx
    exact .inl (hx ▸ hpanel.isFinite_number control)

/-- The wiring writes only zeros. -/
theorem isFinite_wirings (done l : List Connection) :
    ∀ x ∈ numbersIn (wirings (blocks g options) done l), x.isFinite = true := by
  intro x hx
  obtain ⟨s, hs, hx⟩ := mem_numbersIn.mp hx
  refine of_mem_wirings (P := fun s => ∀ x ∈ numbersIn [s], x.isFinite = true)
    (fun done c s hs x hx => ?_) hs x hx
  obtain ⟨m, pm, n, pn, source, wire, -, -, hsource, hwire, hs⟩ := exists_of_mem_wiring hs
  rcases hs with hs | ⟨path, combine, rfl, rfl⟩
  · have hmem := mem_numbersIn.mpr ⟨s, hs, hx⟩
    rw [numbersIn_link (numbers_of_output? hsource) (into_of_wire? hwire)] at hmem
    cases hmem
  · rw [numbersIn_setValue (numbers_of_wire? hwire), List.mem_singleton] at hx
    rw [hx]
    decide

end

end Program

open Program Script

/-! ## Programs -/

/-- The frequencies and ratios that the nodes of a graph are tuned to, with those of the keys if it
has a keyboard. -/
def Graph.pitches {α : Type} [Scalar α] (g : Graph α) : List α :=
  g.nodes.filterMap (·.panel.pitch?) ++
    if hasKind g .keyboardNote then Key.pitches.map (·.2) else []

/-- The numbers of a program are finite or pitches. -/
theorem Graph.finite_or_pitch {g : Graph Float} (hg : g.Sound) {options : Options Float}
    (hgain : options.masterGain.isFinite = true) (hseconds : options.noiseSeconds.isFinite = true) :
    ∀ x ∈ numbersIn (ofGraph g options).flatten, x.isFinite = true ∨ x ∈ g.pitches := by
  intro x hx
  rw [flatten_parts, mem_numbersIn_append, mem_numbersIn_append, mem_numbersIn_append,
    mem_numbersIn_append, numbersIn_preamble, numbersIn_epilogue] at hx
  rcases hx with (((hx | hx) | hx) | hx) | hx
  · exact .inl (List.mem_singleton.mp hx ▸ hgain)
  · refine (finite_or_pitch_helpers g x hx).imp_right fun ⟨hkind, hx⟩ => ?_
    refine List.mem_append_right _ ?_
    rwa [if_pos hkind]
  · obtain ⟨p, hp, hx⟩ := mem_numbersIn_flatten.mp hx
    obtain ⟨entry, hentry, rfl⟩ := List.mem_map.mp hp
    obtain ⟨⟨n, place⟩, hn, rfl⟩ := List.mem_map.mp hentry
    have hn := List.fst_mem_of_mem_zipIdx hn
    refine (finite_or_pitch_blockOf (hg.panels n hn) hseconds place x hx).imp_right fun hx => ?_
    exact List.mem_append_left _ (List.mem_filterMap.mpr ⟨n, hn, hx⟩)
  · obtain hx | hx := mem_numbersIn_append (l := [_]).mp hx
    · cases hx
    · exact .inl (isFinite_wirings [] _ x hx)
  · cases hx

/-- A program writes what the nodes are tuned to. -/
theorem Graph.mem_numbersIn_of_pitch? {α : Type} [Scalar α] {g : Graph α} {n : Node α}
    (hn : n ∈ g.nodes) {x : α} (hpitch : n.panel.pitch? = some x) (options : Options α) :
    x ∈ numbersIn (ofGraph g options).flatten := by
  obtain ⟨place, hplace⟩ := List.mem_iff_getElem?.mp hn
  rw [flatten_parts, mem_numbersIn_append, mem_numbersIn_append, mem_numbersIn_append]
  refine .inl (.inl (.inr (mem_numbersIn_flatten.mpr ⟨_, List.mem_map_of_mem
    (List.mem_map_of_mem (List.mk_mem_zipIdx_iff_getElem?.mpr hplace)), ?_⟩)))
  change x ∈ numbersIn ([heading n] ++
    (nodeBlock (blockName place) options.noiseSeconds n.panel).statements ++ inlineValues g n _)
  rw [mem_numbersIn_append, mem_numbersIn_append]
  exact .inl (.inr (mem_nodeBlock_of_pitch? hpitch))

/-- Every number in a generated program is written as a literal that is read back as it, up to the
sign of zero, except for pitches too large for a number. These are written as something that is no
literal. -/
theorem Document.literal_of_program {d : Document} {options : Options Float}
    {program : Paragraphs Float} (h : ofDocument d options = .ok program)
    (hgain : options.masterGain.isFinite = true) (hseconds : options.noiseSeconds.isFinite = true) :
    ∀ x ∈ numbersIn program.flatten,
      (∃ l : Literal, l.text = (Expr.number x).toText ∧ (l.value == x) = true) ∨
      x.isFinite = false ∧ x ∈ (d.toGraph (α := Float)).1.pitches ∧
        ∀ l : Literal, l.text ≠ (Expr.number x).toText := by
  obtain ⟨-, rfl⟩ := ofDocument_eq_ok_iff.mp h
  intro x hx
  cases hfinite : x.isFinite with
  | true => exact .inl (exists_literal_iff.mpr hfinite)
  | false =>
    have hpitch := Graph.finite_or_pitch d.sound_toGraph hgain hseconds x hx
    have hlarge : ¬x.isFinite = true := hfinite ▸ Bool.false_ne_true
    exact .inr ⟨rfl, hpitch.resolve_left hlarge, fun l hl => hlarge (isFinite_of_text hl)⟩

/-- A tone that is clipped. -/
def Document.clippedTone : Document where
  nodes := [⟨"tone", "Oscillator", .record [("baseFreq", .number (.float 196.2))]⟩,
    ⟨"clip", "Clip Signal", .record [("amp", .number (.float 0.3))]⟩,
      ⟨"out", "Audio Output", .null⟩]
  connections := [⟨"tone", "signal", "clip", "signal"⟩, ⟨"clip", "signal", "out", "signal"⟩]
  comments := []

/-- Nothing in it is tuned to a pitch, so all numbers of its program are written exactly. -/
theorem Document.literal_clippedTone :
    ∃ program, ofDocument (α := Float) clippedTone .standard = .ok program ∧
      ∀ x ∈ numbersIn program.flatten,
        ∃ l : Literal, l.text = (Expr.number x).toText ∧ (l.value == x) = true := by
  have hclean : (clippedTone.toGraph (α := Float)).2.isClean = true := by decide +kernel
  have hpitches : (clippedTone.toGraph (α := Float)).1.pitches.isEmpty = true := by decide +kernel
  have hprogram := ofDocument_of_isClean (α := Float) .standard hclean
  refine ⟨_, hprogram, fun x hx => ?_⟩
  have hliteral := literal_of_program hprogram (by decide) (by decide) x hx
  refine hliteral.resolve_right fun hpitch => ?_
  rw [List.isEmpty_iff.mp hpitches] at hpitch
  cases hpitch.2.1

/-- A note of the two thousandth octave. -/
def Document.toweringNote : Document where
  nodes := [⟨"a", "Note Frequency", .record [("octave", .number (.int 2000))]⟩]
  connections := []
  comments := []

/-- Where the power of two that tunes this note is too large for a number, the program is made all
the same, and it writes the frequency as something that is no literal. -/
theorem Document.inf_of_toweringNote (hpow : Float.pow 2.0 1996.0 = 1.0 / 0.0) :
    ∃ program, ofDocument (α := Float) toweringNote .standard = .ok program ∧
      ∃ x ∈ numbersIn program.flatten,
        (Expr.number x).toText = "inf" ∧ ∀ l : Literal, l.text ≠ "inf" := by
  have hclean : (toweringNote.toGraph (α := Float)).2.isClean = true := by decide +kernel
  obtain ⟨n, hn, hkind, hnote, hoctave⟩ : ∃ n ∈ (toweringNote.toGraph (α := Float)).1.nodes,
      n.kind = .noteFrequency ∧ n.panel.number "note" = 9.0 ∧ n.panel.number "octave" = 2000.0 := by
    decide +kernel
  have htuned : Pitch.noteFrequency (9.0 : Float) 2000.0 = 1.0 / 0.0 := by
    have hexponent : ((9.0 - 9.0) / 12.0 + 2000.0 - 4.0 : Float) = 1996.0 := by decide
    change 440.0 * Float.pow 2.0 _ = (1.0 / 0.0 : Float)
    rw [hexponent, hpow]
    decide
  have hpitch : n.panel.pitch? = some (1.0 / 0.0) := by
    unfold Panel.pitch?
    rw [show n.panel.kind = .noteFrequency from hkind]
    exact congrArg some (by rw [hnote, hoctave, htuned])
  refine ⟨_, ofDocument_of_isClean (α := Float) .standard hclean, _,
    Graph.mem_numbersIn_of_pitch? hn hpitch _, by decide, fun l hl => ?_⟩
  have hfinite : (1.0 / 0.0 : Float).isFinite = true := isFinite_of_text hl
  exact absurd hfinite (by decide)

end Patchbay
