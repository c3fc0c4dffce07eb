import Patchbay.Program.Basic
import Patchbay.Proofs.Patch.Blueprint
import Patchbay.Proofs.Program.Keys
/-!
# Stages on which nodes can be made

Before the blocks of its nodes a program declares what they use (`Stage.Prepared`). On a prepared
stage the block of every node that can be heard makes the node, whatever its accepted values are
(`makes_of_accepted`). The names of a block belong to it alone (`blockName_inj`), so that a stage
keeps what earlier blocks declared (`Stage.Extends`).
-/

namespace Patchbay

variable {α : Type}

/-! ## Accepted choices -/

namespace Panel

variable [Scalar α] {panel : Panel α}

/-- An accepted panel holds one of the options of a choice. -/
theorem Accepted.choice_mem (h : panel.Accepted) {key label standard : String}
    {options : List String}
    (hc : (Control.choice key label standard options : Control α) ∈ panel.kind.controls) :
    panel.choice key ∈ options := by
  obtain ⟨v, hv, haccepts⟩ := h.exists_get? hc
  rw [Control.Domain.accepts_iff] at haccepts
  have hv : panel.get? key = some v := hv
  cases v with
  | number x => cases haccepts
  | profile p => cases haccepts
  | choice name =>
    have hchoice : panel.choice key = name := by
      unfold choice
      rw [hv]
      rfl
    rw [hchoice]
    by_contra hnot
    simp [Control.choice, Control.Domain.fault?, hnot] at haccepts

theorem Accepted.exists_waveform (h : panel.Accepted)
    (hc : (Kind.waveformControl : Control α) ∈ panel.kind.controls) :
    ∃ waveform, Waveform.ofName? (panel.choice "waveform") = some waveform := by
  have hmem : panel.choice "waveform" ∈ Waveform.all.map (·.name) := h.choice_mem hc
  obtain ⟨waveform, -, hname⟩ := List.mem_map.mp hmem
  rw [← hname]
  exact ⟨waveform, by cases waveform <;> decide⟩

theorem Accepted.exists_response (h : panel.Accepted) (hkind : panel.kind = .biquadFilter) :
    ∃ response, Response.ofName? (panel.choice "filterType") = some response := by
  have hcontrol : (.choice "filterType" "Filter Type" "lowpass" (Response.all.map (·.name)) :
      Control α) ∈ panel.kind.controls := by
    simp [hkind, Kind.controls]
  have hmem : panel.choice "filterType" ∈ Response.all.map (·.name) :=
    h.choice_mem hcontrol
  obtain ⟨response, -, hname⟩ := List.mem_map.mp hmem
  rw [← hname]
  exact ⟨response, by cases response <;> decide⟩

end Panel

namespace Script

open Program

/-! ## Names -/

/-- The first part of the names of the block at a place. -/
def blockName (place : Nat) : String := "n" ++ toString (place + 1)

/-- The number of a block ends at the first underscore. -/
theorem takeWhile_toDigits (n : Nat) (rest : List Char) :
    (Nat.toDigits 10 n ++ ('_' :: rest)).takeWhile (· ≠ '_') = Nat.toDigits 10 n := by
  have hdigits : ∀ c ∈ Nat.toDigits 10 n, decide (c ≠ '_') = true := fun c hc =>
    decide_eq_true fun heq : c = '_' => Nat.underscore_not_in_toDigits (heq ▸ hc)
  rw [List.takeWhile_append_of_pos hdigits]
  simp

/-- Blocks at different places have no name in common. -/
theorem blockName_inj {place place' : Nat} {r r' : String}
    (h : blockName place ++ "_" ++ r = blockName place' ++ "_" ++ r') : place = place' := by
  have hlists := congrArg String.toList h
  simp only [blockName, String.toList_append, Nat.toString_eq_ofList_toDigits,
    String.toList_ofList, List.append_assoc] at hlists
  have htake := congrArg (List.takeWhile (· ≠ '_')) (List.append_cancel_left hlists)
  have hdigits : Nat.toDigits 10 (place + 1) = Nat.toDigits 10 (place' + 1) :=
    (takeWhile_toDigits _ r.toList).symm.trans (htake.trans (takeWhile_toDigits _ r'.toList))
  have hsame := congrArg (Nat.ofDigitChars 10 · 0) hdigits
  simpa only [Nat.ofDigitChars_ten_toDigits, Nat.add_right_cancel_iff] using hsame

@[simp]
theorem head?_blockName (place : Nat) (r : String) :
    (blockName place ++ "_" ++ r).toList.head? = some 'n' := by
  simp [blockName]

/-! ## Prepared stages -/

section

variable {page : Page α} {g : Graph α} {master : PrimitiveId} {s s' : Stage α} {place : Nat}

/-- What the blocks of the nodes of a graph use is declared, and none of the names that their loops
declare. -/
structure Stage.Prepared [Scalar α] (s : Stage α) (g : Graph α) (master : PrimitiveId) : Prop where
  ctx : s.scope "ctx" = some .context
  sources : s.scope "sources" = some (.list 0)
  master : s.scope "master" = some (.object master)
  math : s.scope "Math" = some .math
  noises : ∀ color ∈ noiseColors g, s.scope (noiseFunction color) = some .function
  plays : (hasKind g .keyboardNote || hasKind g .keyboardAdsr) = true → s.Plays
  notes : hasKind g .keyboardNote = true → s.scope "NOTE_MAP" = some (.items
    ((Key.pitches (α := α)).map fun pitch => .items [.text pitch.1.code, .number pitch.2]))
  loops : ∀ x ∈ ["key", "freq", "osc", "gate", "p", "source"], s.scope x = none
  objects : ∃ sources lists, s.lists = sources :: lists ∧ ∀ v ∈ sources, ∃ id, v = .object id

/-- A stage stays prepared when only names that begin with an n are declared. -/
theorem Stage.Prepared.congr [Scalar α] (h : s.Prepared g master)
    (hscope : ∀ x : String, x.toList.head? ≠ some 'n' → s'.scope x = s.scope x)
    (hobjects : ∃ sources lists,
      s'.lists = sources :: lists ∧ ∀ v ∈ sources, ∃ id, v = .object id) :
    s'.Prepared g master where
  ctx := (hscope _ (by decide)).trans h.ctx
  sources := (hscope _ (by decide)).trans h.sources
  master := (hscope _ (by decide)).trans h.master
  math := (hscope _ (by decide)).trans h.math
  noises color hcolor := (hscope _ (by cases color <;> decide)).trans (h.noises color hcolor)
  plays hkind := ⟨(hscope _ (by decide)).trans (h.plays hkind).addProfile,
    (hscope _ (by decide)).trans (h.plays hkind).addVoice⟩
  notes hkind := (hscope _ (by decide)).trans (h.notes hkind)
  loops x hx := (hscope x (by revert x; decide)).trans (h.loops x hx)
  objects := hobjects

/-- The names of the blocks from a place on are not declared. -/
def Stage.Fresh (s : Stage α) (place : Nat) : Prop :=
  ∀ later, place ≤ later → ∀ r, s.scope (blockName later ++ "_" ++ r) = none

theorem Stage.Prepared.ready [Scalar α] (h : s.Prepared g master) (hfresh : s.Fresh place) :
    s.Ready (blockName place) master where
  ctx := h.ctx
  sources := h.sources
  lists := by
    obtain ⟨sources, lists, hlists, -⟩ := h.objects
    rw [hlists]
    exact List.cons_ne_nil _ _
  master := h.master
  math := h.math
  fresh := hfresh place (Nat.le_refl _)
  apart x r hx heq := hx (heq ▸ head?_blockName place r)

theorem Stage.Prepared.opens [Scalar α] (h : s.Prepared g master) : s.Open where
  key := h.loops _ (by decide)
  freq := h.loops _ (by decide)
  osc := h.loops _ (by decide)
  gate := h.loops _ (by decide)

theorem hasKind_of_mem {n : Node α} (hn : n ∈ g.nodes) {kind : Kind} (hkind : n.kind = kind) :
    hasKind g kind = true :=
  List.any_eq_true.mpr ⟨n, hn, decide_eq_true hkind⟩

variable [Scalar α]

theorem mem_noiseColors {n : Node α} (hn : n ∈ g.nodes) (hkind : n.kind = .noise) :
    (Noise.Color.ofName? (n.panel.choice "noiseType")).getD .white ∈ noiseColors g := by
  refine List.mem_filter.mpr ⟨?_, decide_eq_true (List.mem_flatMap.mpr ⟨_, List.mem_map_of_mem
    (List.mem_filter.mpr ⟨hn, decide_eq_true hkind⟩), List.mem_cons_self⟩)⟩
  cases (Noise.Color.ofName? (n.panel.choice "noiseType")).getD .white <;> decide

variable (page) in
/-- On a prepared stage the block of a node with accepted values makes the node. -/
theorem makes_of_accepted (h : s.Prepared g master) (hfresh : s.Fresh place) {n : Node α}
    (hn : n ∈ g.nodes) (haccepted : n.panel.Accepted) (hmonitor : n.kind.isMonitor = false)
    (seconds : α) : Makes page s (blockName place) master seconds n.panel := by
  have hready := h.ready hfresh
  obtain ⟨id, kind, values⟩ := n
  cases kind
  case constant => exact makes_constant hready seconds values
  case oscillator =>
    obtain ⟨waveform, hwaveform⟩ := haccepted.exists_waveform (by simp [Kind.controls])
    exact makes_oscillator hready seconds values hwaveform
  case noise =>
    refine makes_noise hready seconds values fun color hcolor => h.noises color ?_
    rw [← hcolor]
    exact mem_noiseColors hn rfl
  case noteFrequency => exact makes_noteFrequency hready seconds values
  case gain => exact makes_gain hready seconds values
  case biquadFilter =>
    obtain ⟨response, hresponse⟩ := haccepted.exists_response rfl
    exact makes_biquadFilter hready seconds values hresponse
  case delay => exact makes_delay hready seconds values
  case clip => exact makes_clip hready seconds values
  case dynamicsCompressor => exact makes_dynamicsCompressor hready seconds values
  case transpose => exact makes_transpose hready seconds values
  case keyboardNote =>
    obtain ⟨waveform, hwaveform⟩ := haccepted.exists_waveform (by simp [Kind.controls])
    have hkind : hasKind g .keyboardNote = true := hasKind_of_mem hn rfl
    have hplays : s.Plays := h.plays (by rw [hkind, Bool.true_or])
    exact makes_keyboardNote hready hplays h.opens (h.notes hkind) seconds values hwaveform
  case keyboardAdsr =>
    obtain ⟨key, hkey⟩ := Kind.exists_key_of_accepted haccepted
    have hkind : hasKind g .keyboardAdsr = true := hasKind_of_mem hn rfl
    exact makes_keyboardAdsr hready seconds values hkey (h.plays (by rw [hkind, Bool.or_true]))
  case audioOutput => exact makes_audioOutput hready seconds values
  case universalOutput => exact makes_universalOutput hready seconds values
  case timeVisualizer | frequencyVisualizer | consoleDebugger => cases hmonitor

end

/-! ## Later stages -/

/-- A later stage keeps the names, the families of the primitives, and all lists but that of the
sources. -/
structure Stage.Extends (s s' : Stage α) : Prop where
  scope : ∀ x v, s.scope x = some v → s'.scope x = some v
  families : ∀ (id : PrimitiveId) f, s.rack.families[id]? = some f → s'.rack.families[id]? = some f
  lists : ∀ (place : Nat) l, s.lists[place + 1]? = some l → s'.lists[place + 1]? = some l

namespace Stage.Extends

variable {s s' s'' : Stage α}

theorem refl (s : Stage α) : s.Extends s := ⟨fun _ _ h => h, fun _ _ h => h, fun _ _ h => h⟩

theorem trans (h : s.Extends s') (h' : s'.Extends s'') : s.Extends s'' :=
  ⟨fun x v hx => h'.scope x v (h.scope x v hx), fun id f hf =>
    h'.families id f (h.families id f hf), fun place l hl => h'.lists place l (h.lists place l hl)⟩

/-- The primitives that there were come first. -/
theorem families_prefix (h : s.Extends s') : s.rack.families <+: s'.rack.families :=
  List.prefix_iff_getElem?.mpr fun _ hi => h.families _ _ (List.getElem?_eq_getElem hi)

theorem hasParam (h : s.Extends s') {dial : Dial} (hdial : s.HasParam dial) : s'.HasParam dial := by
  obtain ⟨family, hfamily, hparam⟩ := hdial
  exact ⟨family, h.families _ _ hfamily, hparam⟩

/-- A wire leads where it led. -/
theorem leads (h : s.Extends s') {socket : Socket} {inlets : List Inlet} {wire : Wire α}
    (hwire : Wire.Leads s socket inlets wire) : Wire.Leads s' socket inlets wire := by
  cases wire with
  | object e =>
    obtain ⟨hcombine, x, id, he, hx, hinlets⟩ := hwire
    exact ⟨hcombine, x, id, he, h.scope _ _ hx, hinlets⟩
  | param path combine =>
    obtain ⟨hcombine, x, dial, hpath, hx, hdial, hinlets⟩ := hwire
    exact ⟨hcombine, x, dial, hpath, h.scope _ _ hx, h.hasParam hdial, hinlets⟩
  | each list field =>
    obtain ⟨hcombine, x, place, ids, param, hlist, hx, hids, hfield, hparams, hinlets⟩ := hwire
    exact ⟨hcombine, x, place, ids, param, hlist, h.scope _ _ hx, h.lists _ _ hids, hfield,
      fun id hid => h.hasParam (hparams id hid), hinlets⟩
  | dropped => exact hwire

end Stage.Extends

end Script

end Patchbay
