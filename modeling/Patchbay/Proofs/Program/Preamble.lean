import Patchbay.Proofs.Program.Prepared
/-!
# Running the preamble and the helpers

What a program does before its blocks. The preamble makes the master chain, and the helpers declare
functions and lists that the blocks use; each declares its own names and nothing else
(`Stage.Declares`). After them the stage is prepared for the nodes of the graph
(`exists_prepared`).
-/

namespace Patchbay.Script

open Program

variable {α : Type}

/-- Names are declared and lists added, and everything else stays. -/
structure Stage.Declares (s : Stage α) (names : List String) (s' : Stage α) : Prop where
  scope : ∀ x, x ∉ names → s'.scope x = s.scope x
  lists : s.lists <+: s'.lists
  rack : s'.rack = s.rack
  voicing : s'.voicing = s.voicing

namespace Stage.Declares

variable {s s' s'' : Stage α} {names names' : List String}

theorem refl (s : Stage α) : s.Declares [] s := ⟨fun _ _ => rfl, List.prefix_rfl, rfl, rfl⟩

theorem trans (h : s.Declares names s') (h' : s'.Declares names' s'') :
    s.Declares (names ++ names') s'' where
  scope x hx :=
    let hx := not_or.mp (mt List.mem_append.mpr hx)
    (h'.scope x hx.2).trans (h.scope x hx.1)
  lists := h.lists.trans h'.lists
  rack := h'.rack.trans h.rack
  voicing := h'.voicing.trans h.voicing

theorem mono (h : s.Declares names s') (hnames : names ⊆ names') : s.Declares names' s' :=
  { h with scope := fun x hx => h.scope x fun hmem => hx (hnames hmem) }

/-- Work that makes nothing only declares. -/
theorem of_after {w : Work α} (hsources : w.sources = []) (hmade : w.made = [])
    (hprofiles : w.profiles = []) (hbindings : w.bindings = []) :
    s.Declares (w.vars.map (·.1)) (s.after w) where
  scope x hx := declared_of_notMem fun var hvar heq =>
    hx (heq ▸ List.mem_map_of_mem hvar)
  lists := by
    have hsame : s.lists.modify 0 (· ++ []) = s.lists := by
      refine (congrArg (s.lists.modify 0) (funext fun l => l.append_nil)).trans ?_
      exact List.modify_id 0 s.lists
    unfold after
    rw [hsources, hsame]
    exact List.prefix_append _ _
  rack := by simp [after, hmade]
  voicing := by simp [after, hprofiles, hbindings]

end Stage.Declares

variable [Scalar α] {page : Page α} {s base : Stage α} {w : Work α}

theorem exec_function {x : String} {parameters : List String} {body : List (Stmt α)}
    (hx : (base.after w).scope x = none) :
    exec page (.function x parameters body) (base.after w) =
      some (base.after (w.declare x .function)) :=
  Stage.declare_after hx _

/-! ## The preamble -/

/-- What there is after the preamble: the master chain, and the list of the sources. -/
structure Stage.Begun (s : Stage α) : Prop where
  ctx : s.scope "ctx" = some .context
  sources : s.scope "sources" = some (.list 0)
  master : s.scope "master" = some (.object 0)
  math : s.scope "Math" = some .math
  others : ∀ x, x ∉ ["Math", "ctx", "master", "masterCompressor", "sources"] → s.scope x = none
  lists : s.lists = [[]]
  families : s.rack.families = [.gain, .dynamicsCompressor]
  voicing : s.voicing = .empty

/-- What the preamble adds, on a page where nothing was run. -/
def preambleWork (options : Options α) : Work α where
  vars := [("sources", .list 0), ("masterCompressor", .object 1), ("master", .object 0),
    ("ctx", .context)]
  sources := []
  lists := [[]]
  made := ((((Work.none.create (.gain 1.0)).create .dynamicsCompressor).connect 0
    (.input 1)).connect 1 (.input Rack.destination)).setBase 0 .gain options.masterGain |>.made
  profiles := []
  bindings := []

theorem exec_context {x : String} (hx : (base.after w).scope x = none) :
    exec page (.const x (.construct "AudioContext" [])) (base.after w) =
      some (base.after (w.declare x .context)) :=
  exec_const rfl hx

theorem means_destination (hctx : s.scope "ctx" = some .context) :
    Means page s (.member (.name "ctx") "destination") (.object Rack.destination) :=
  (Means.name hctx).member rfl

variable (page) in
/-- The preamble makes the master chain. -/
theorem does_preamble (g : Graph α) (options : Options α) :
    Does page (.start page) .none (preamble g options) (preambleWork options) := by
  have hcomment (text : String) : exec page (.comment text) ((Stage.start page).after .none) =
      some ((Stage.start page).after .none) := rfl
  refine .cons (hcomment _) <| .cons (exec_context ?_) <| .cons (exec_make ?_ ?_ rfl) <|
    .cons (exec_make ?_ ?_ rfl) <| .cons (exec_connect (.object 0 ?_) (.object 1 ?_) rfl) <|
    .cons (exec_connect (.object 1 ?_) (means_destination ?_) rfl) <|
    .cons (exec_list ?_) <|
    .cons (exec_setValue ((Means.object 0 ?_).param
      (p := { Primitive.new (α := α) (.gain 1.0) with outputs := [.input 1] }) ?_ rfl)
      (.number options.masterGain)) .nil
  all_goals simp [Stage.start]
  all_goals rfl

variable (page) in
theorem begun_preamble (options : Options α) :
    ((Stage.start page).after (preambleWork options)).Begun where
  ctx := by simp [preambleWork]
  sources := by simp [preambleWork]
  master := by simp [preambleWork]
  math := by simp [preambleWork, Stage.start]
  others x hx := by
    simp only [List.mem_cons, List.not_mem_nil, or_false, not_or] at hx
    simp [preambleWork, Stage.start, hx]
  lists := by simp [Stage.after, Stage.start, preambleWork]
  families := by
    rw [Stage.families_after]
    rfl
  voicing := by simp [Stage.after, Stage.start, preambleWork, Voicing.empty]

/-! ## Noise -/

theorem noiseFunction_inj {color color' : Noise.Color}
    (h : noiseFunction color = noiseFunction color') : color = color' := by
  revert h
  cases color <;> cases color' <;> decide

variable (page) in
/-- The functions of colours are declared. -/
theorem exists_noises {colors : List Noise.Color} (hnodup : colors.Nodup)
    (hnew : ∀ color ∈ colors, s.scope (noiseFunction color) = none) :
    ∃ s', execAll page (colors.map (noiseHelper (α := α))) s = some s' ∧
      s.Declares (colors.map noiseFunction) s' ∧
      ∀ color ∈ colors, s'.scope (noiseFunction color) = some .function := by
  -- the induction is on the colours; the names of the others stay free
  induction colors generalizing s with
  | nil => exact ⟨s, execAll_nil page s, .refl s, fun _ h => absurd h List.not_mem_nil⟩
  | cons color colors ih =>
    obtain ⟨hcolor, hnodup⟩ := List.nodup_cons.mp hnodup
    obtain ⟨hfree, hnew⟩ := List.forall_mem_cons.mp hnew
    have hothers : ∀ other ∈ colors, noiseFunction other ≠ noiseFunction color :=
      fun other hother heq => hcolor (noiseFunction_inj heq ▸ hother)
    let s₁ : Stage α :=
      { s with scope := Function.update s.scope (noiseFunction color) (some .function) }
    have hexec : exec page (noiseHelper color) s = some s₁ := by
      show s.declare (noiseFunction color) .function = _
      simp [Stage.declare, hfree, s₁]
    have hdeclares : s.Declares [noiseFunction color] s₁ :=
      ⟨fun x hx => Function.update_of_ne (List.ne_of_not_mem_cons hx) _ _, List.prefix_rfl, rfl,
        rfl⟩
    obtain ⟨s', hexec', hdeclares', hfunctions⟩ := ih (s := s₁) hnodup fun other hother =>
      (Function.update_of_ne (hothers other hother) _ _).trans (hnew other hother)
    refine ⟨s', ?_, hdeclares.trans hdeclares', List.forall_mem_cons.mpr ⟨?_, hfunctions⟩⟩
    · rw [List.map_cons, execAll_cons hexec]
      exact hexec'
    · rw [hdeclares'.scope]
      · exact Function.update_self _ _ _
      · intro hmem
        obtain ⟨other, hother, heq⟩ := List.mem_map.mp hmem
        exact hothers other hother heq

/-! ## The keyboard -/

/-- What the helper of the keyboard declares. -/
def keyboardNames : List String :=
  ["EPSILON", "profiles", "keyboard", "keyState", "sustaining", "addProfile", "addVoice",
    "playNote", "releaseNote"]

variable (page) in
theorem does_keyboardHelper (hnew : ∀ x ∈ keyboardNames, s.scope x = none) :
    ∃ w, Does page s .none (keyboardHelper (α := α)).flatten w ∧ w.sources = [] ∧ w.made = [] ∧
      w.profiles = [] ∧ w.bindings = [] ∧ w.vars.map (·.1) = keyboardNames.reverse ∧
      (s.after w).Plays := by
  simp only [keyboardNames, List.forall_mem_cons] at hnew
  obtain ⟨hepsilon, hprofiles, hkeyboard, hstate, hsustaining, hprofile, hvoice, hplay, hrelease,
    -⟩ := hnew
  have hlisten {w : Work α} (event parameter : String) (body : List (Stmt α)) :
      exec page (.listen event parameter body) (s.after w) = some (s.after w) := rfl
  have hrecord (s : Stage α) : eval page (.record []) s = some (.record [], s) := rfl
  have hsustain {w : Work α} (hx : (s.after w).scope "sustaining" = none) :
      exec page (.variables [("sustaining", .bool false)]) (s.after w) =
        some (s.after (w.declare "sustaining" (.bool false))) := by
    show ((s.after w).declare "sustaining" (.bool false)).bind some = _
    rw [Stage.declare_after hx]
    rfl
  refine ⟨_, .cons (exec_const (Means.number _) ?_) <| .cons (exec_list ?_) <|
    .cons (exec_const (hrecord _) ?_) <| .cons (exec_const (hrecord _) ?_) <|
    .cons (hsustain ?_) <| .cons (exec_function ?_) <| .cons (exec_function ?_) <|
    .cons (exec_function ?_) <| .cons (exec_function ?_) <| .cons (hlisten _ _ _) <|
    .cons (hlisten _ _ _) .nil, rfl, rfl, rfl, rfl, rfl, ?_⟩
  rotate_right
  · exact ⟨by simp, by simp⟩
  all_goals simp [*]

variable (page) in
/-- The helper of the keyboard is there if it is needed. -/
theorem exists_plays (hnew : ∀ x ∈ keyboardNames, s.scope x = none) (needed : Bool) :
    ∃ s', execAll page (if needed then keyboardHelper else []).flatten s = some s' ∧
      s.Declares keyboardNames s' ∧ (needed = true → s'.Plays) := by
  cases needed with
  | false => exact ⟨s, execAll_nil page s, .mono (.refl s) (List.nil_subset _), nofun⟩
  | true =>
    obtain ⟨w, hdoes, hsources, hmade, hprofiles, hbindings, hvars, hplays⟩ :=
      does_keyboardHelper page hnew
    refine ⟨_, hdoes.exec_none, ?_, fun _ => hplays⟩
    refine (Stage.Declares.of_after hsources hmade hprofiles hbindings).mono ?_
    rw [hvars]
    exact List.reverse_subset.mpr (List.Subset.refl _)

/-! ## The notes -/

theorem evalAll_map {τ : Type} {e : τ → Expr α} {v : τ → Value α}
    (h : ∀ x, Means page s (e x) (v x)) (l : List τ) :
    evalAll page (l.map e) s = some (l.map v, s) := by
  induction l with
  | nil => exact evalAll_nil
  | cons x l ih => exact evalAll_cons (h x) ih

/-- The list of the notes is declared. -/
theorem exec_noteMap (hnew : s.scope "NOTE_MAP" = none) :
    exec page noteMap s = some { s with
      scope := Function.update s.scope "NOTE_MAP" (some (.items ((Key.pitches (α := α)).map
        fun pitch => .items [.text pitch.1.code, .number pitch.2]))) } := by
  have hpitch (pitch : Key × α) : Means page s (.list [.text pitch.1.code, .number pitch.2])
      (.items [.text pitch.1.code, .number pitch.2]) :=
    .items (List.cons_ne_nil _ _) (evalAll_cons (.text _) (evalAll_singleton (.number _)))
  have hne : (Key.pitches (α := α)).map (fun pitch =>
      (.list [.text pitch.1.code, .number pitch.2] : Expr α)) ≠ [] := by
    simp [Key.pitches, Key.notes]
  refine (exec_declare "NOTE_MAP" (Means.items hne (evalAll_map hpitch _))).trans ?_
  simp [Stage.declare, hnew]

variable (page) in
/-- The list of the notes is there if it is needed. -/
theorem exists_notes (hnew : s.scope "NOTE_MAP" = none) (needed : Bool) :
    ∃ s', execAll page (if needed then [[noteMap]] else []).flatten s = some s' ∧
      s.Declares ["NOTE_MAP"] s' ∧ (needed = true → s'.scope "NOTE_MAP" = some (.items
        ((Key.pitches (α := α)).map fun pitch =>
          .items [.text pitch.1.code, .number pitch.2]))) := by
  cases needed with
  | false => exact ⟨s, execAll_nil page s, .mono (.refl s) (List.nil_subset _), nofun⟩
  | true =>
    exact ⟨_, execAll_singleton (exec_noteMap hnew),
      ⟨fun x hx => Function.update_of_ne (List.ne_of_not_mem_cons hx) _ _, List.prefix_rfl, rfl,
        rfl⟩, fun _ => by simp⟩

/-! ## Prepared -/

/-- What the helpers of a graph declare. -/
def helperNames : List String := Noise.Color.all.map noiseFunction ++ keyboardNames ++ ["NOTE_MAP"]

variable (page) in
/-- After the preamble, the helpers prepare the stage for the nodes of the graph. -/
theorem Stage.Begun.exists_prepared (h : s.Begun) (g : Graph α) :
    ∃ s', execAll page (helpers g).flatten s = some s' ∧ s'.Prepared g 0 ∧ s'.Fresh 0 ∧
      s'.rack = s.rack ∧ s'.voicing = s.voicing := by
  have hfree : ∀ x ∈ helperNames, s.scope x = none := fun x hx =>
    h.others x (by revert x; decide)
  have hnodup : (noiseColors g).Nodup := List.Nodup.filter _ (by decide)
  have hnoise : (noiseColors g).map noiseFunction ⊆ Noise.Color.all.map noiseFunction :=
    List.map_subset _ (List.filter_subset_self _)
  obtain ⟨s₁, hexec₁, hdeclares₁, hnoises⟩ := exists_noises page hnodup fun color _ =>
    hfree _ (by cases color <;> decide)
  replace hdeclares₁ := hdeclares₁.mono hnoise
  obtain ⟨s₂, hexec₂, hdeclares₂, hplays⟩ := exists_plays page
    (fun x hx => (hdeclares₁.scope x (by revert x; decide)).trans (hfree x (by revert x; decide)))
    (hasKind g .keyboardNote || hasKind g .keyboardAdsr)
  obtain ⟨s₃, hexec₃, hdeclares₃, hnotes⟩ := exists_notes page
    (((hdeclares₁.trans hdeclares₂).scope _ (by decide)).trans (hfree _ (by decide)))
    (hasKind g .keyboardNote)
  have hdeclares : s.Declares helperNames s₃ := (hdeclares₁.trans hdeclares₂).trans hdeclares₃
  -- of all other names those of the preamble are declared, and no more
  have hothers : ∀ x, x ∉ helperNames →
      x ∉ ["Math", "ctx", "master", "masterCompressor", "sources"] → s₃.scope x = none :=
    fun x hx hx' => (hdeclares.scope x hx).trans (h.others x hx')
  refine ⟨s₃, ?_, ?_, fun place _ r => ?_, hdeclares.rack, hdeclares.voicing⟩
  · have hflatten : ((noiseColors g).map fun color => [noiseHelper (α := α) color]).flatten =
        (noiseColors g).map noiseHelper := by
      rw [← List.flatMap_def, ← List.map_eq_flatMap]
    rw [helpers, List.flatten_append, List.flatten_append, hflatten, execAll_append, execAll_append,
      hexec₁, Option.bind_some, hexec₂, Option.bind_some, hexec₃]
  · exact {
      ctx := (hdeclares.scope _ (by decide)).trans h.ctx
      sources := (hdeclares.scope _ (by decide)).trans h.sources
      master := (hdeclares.scope _ (by decide)).trans h.master
      math := (hdeclares.scope _ (by decide)).trans h.math
      noises := fun color hcolor => ((hdeclares₂.trans hdeclares₃).scope _
        (by cases color <;> decide)).trans (hnoises color hcolor)
      plays := fun hkind => ⟨(hdeclares₃.scope _ (by decide)).trans (hplays hkind).addProfile,
        (hdeclares₃.scope _ (by decide)).trans (hplays hkind).addVoice⟩
      notes := hnotes
      loops := fun x hx => hothers x (by revert x; decide) (by revert x; decide)
      objects := by
        obtain ⟨lists, hlists⟩ := hdeclares.lists
        exact ⟨[], lists, by rw [← hlists, h.lists]; rfl, fun _ h => absurd h List.not_mem_nil⟩ }
  · have hhead : ∀ x ∈ helperNames ++ ["Math", "ctx", "master", "masterCompressor", "sources"],
        x.toList.head? ≠ some 'n' := by decide
    refine hothers _ (fun hmem => ?_) fun hmem => ?_
    · exact hhead _ (List.mem_append_left _ hmem) (head?_blockName place r)
    · exact hhead _ (List.mem_append_right _ hmem) (head?_blockName place r)

end Patchbay.Script
