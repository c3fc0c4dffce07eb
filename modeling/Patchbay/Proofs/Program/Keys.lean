import Patchbay.Proofs.Program.Blocks
/-!
# The block of a keyboard instrument

A loop over the notes makes an oscillator and a gate for each key. What it adds key by key
(`Work.addKey`) is gathered by induction over the notes (`addKeys_eq`).
-/

namespace Patchbay.Script

open Program

variable {α : Type} [Scalar α] {page : Page α} {base : Stage α}

/-! ## Loops -/

/-- One item after another a loop adds to the work, and forgets the names it declared. -/
inductive Loops (page : Page α) (base : Stage α) (names : List String) (body : List (Stmt α)) :
    Work α → List (Value α) → Work α → Prop where
  | nil (w : Work α) : Loops page base names body w [] w
  | cons {w inner inner' w' : Work α} {item : Value α} {items : List (Value α)}
    {bindings : List (String × Value α)} (hbindings : itemBindings? names item = some bindings)
    (hdeclared : (base.after w).declareAll bindings = some (base.after inner))
    (hbody : Does page base inner body inner')
    (hrest : Loops page base names body { inner' with vars := w.vars } items w') :
    Loops page base names body w (item :: items) w'

theorem exec_forItems {w w' : Work α} {names : List String} {source : Expr α} {braced : Bool}
    {body : List (Stmt α)} {v : Value α} {items : List (Value α)}
    (hsource : Means page (base.after w) source v)
    (hitems : (base.after w).itemsOf? v = some items)
    (h : Loops page base names body w items w') :
    exec page (.forItems names source braced body) (base.after w) = some (base.after w') := by
  unfold Means at hsource
  show (eval page source (base.after w)).bind _ = _
  rw [hsource]
  show ((base.after w).itemsOf? v).bind _ = _
  rw [hitems, Option.bind_some]
  clear hsource hitems
  induction h with
  | nil w => rfl
  | @cons w inner inner' w' item items bindings hbindings hdeclared hbody _ ih =>
    unfold Does at hbody
    rw [List.foldlM_cons]
    simp only [hbindings, hdeclared, hbody, Option.bind_eq_bind, Option.bind_some, Option.pure_def]
    exact ih

/-! ## Keys -/

/-- The oscillator of a key, patched into its gate. -/
def keyOscillator (waveform : Waveform) (frequency : α) (gate : PrimitiveId) : Primitive α where
  setup := .oscillator waveform 440.0
  timelines := (Setup.oscillator waveform frequency).timelines
  outputs := [.input gate]
  startedAt := none
  stoppedAt := none
  released := false

/-- The gate of a key, closed and patched into the common output. -/
def keyGate (out : PrimitiveId) : Primitive α where
  setup := .gain 1.0
  timelines := (Setup.gain 0.0).timelines
  outputs := [.input out]
  startedAt := none
  stoppedAt := none
  released := false

/-- What the loop adds for a key. -/
def Work.addKey (first : PrimitiveId) (waveform : Waveform) (ratio : α) (profile : Nat)
    (w : Work α) (pitch : Key × α) : Work α :=
  let osc := first + w.made.length
  { w with
    sources := w.sources ++ [.object osc]
    lists := w.lists.modify 0 (· ++ [.object osc])
    made := w.made ++ [keyOscillator waveform (pitch.2 * ratio) (osc + 1), keyGate first]
    bindings := w.bindings ++ [(pitch.1, ⟨⟨osc + 1, .gain⟩, profile⟩)] }

/-- What the loop does for a key, as the block writes it. -/
def keyBody (name waveform : String) (ratio : α) : List (Stmt α) :=
  [.const "osc" (ctxMake "createOscillator" []),
    .set (.member (.name "osc") "type") (.text waveform),
    .setValue (.member (.name "osc") "frequency") (.times (.name "freq") (.number ratio)),
    .const "gate" (ctxMake "createGain" []),
    .setValue (.member (.name "gate") "gain") (.number 0.0),
    connect (.name "osc") (.name "gate"),
    connect (.name "gate") (.name (name ++ "_" ++ "out")),
    addSource (.name "osc"),
    .run (.send (.name (name ++ "_" ++ "osc")) "push" [.name "osc"]),
    .run (.apply "addVoice"
      [.name "key", .member (.name "gate") "gain", .name (name ++ "_" ++ "profile")])]

/-- The names that the block has declared when the loop begins. -/
def keyVars (base : Stage α) (name : String) : List (String × Value α) :=
  [(name ++ "_" ++ "profile", .profile base.voicing.profiles.length),
    (name ++ "_" ++ "osc", .list base.lists.length),
    (name ++ "_" ++ "out", .object base.size)]

/-- None of the names of the loop is declared outside of it. -/
structure Stage.Open (s : Stage α) : Prop where
  key : s.scope "key" = none
  freq : s.scope "freq" = none
  osc : s.scope "osc" = none
  gate : s.scope "gate" = none

section

variable {name : String} {master : PrimitiveId} {w : Work α}

variable (page) in
/-- The loop makes an oscillator and a gate for a key, and binds the key to the gate. -/
theorem does_key (h : base.Ready name master) (hplays : base.Plays) (hopen : base.Open)
    {choice : String} {waveform : Waveform} (hwaveform : Waveform.ofName? choice = some waveform)
    (hvars : w.vars = keyVars base name) (ratio : α) (pitch : Key × α) :
    ∃ inner', Does page base { w with
        vars := ("freq", .number pitch.2) :: ("key", .text pitch.1.code) :: w.vars }
      (keyBody name choice ratio) inner' ∧
      { inner' with vars := w.vars } =
        w.addKey base.size waveform ratio base.voicing.profiles.length pitch := by
  have hnames : ∀ x r, x.toList.head? ≠ some 'n' → name ++ "_" ++ r ≠ x :=
    fun x r hx => (h.apart x r hx).symm
  refine ⟨_, .cons (exec_make ?_ ?_ rfl) <|
    .cons (exec_fit (p := .new (α := α) (.oscillator .sine 440.0)) (.oscillator waveform 440.0)
      (.object w.made.length ?_) (.text _) ?_ (by simp [assigned?, Primitive.new, hwaveform])) <|
    .cons (exec_setValue ((Means.object w.made.length ?_).param
      (p := { Primitive.new (α := α) (.oscillator .sine 440.0) with
        setup := .oscillator waveform 440.0 }) ?_ rfl)
      ((Means.name (v := .number pitch.2) ?_).times (.number _))) <|
    .cons (exec_make ?_ ?_ rfl) <|
    .cons (exec_setValue ((Means.object (w.made.length + 1) ?_).param
      (p := .new (α := α) (.gain 1.0)) ?_ rfl) (.number _)) <|
    .cons (exec_connect (.object w.made.length ?_) (.object (w.made.length + 1) ?_) rfl) <|
    .cons (exec_connect (.object (w.made.length + 1) ?_) (.object 0 ?_) rfl) <|
    .cons (exec_addSource (i := w.made.length) ?_ h.lists (.object w.made.length ?_)) <|
    .cons (exec_push (j := 0) (.name ?_) (.object w.made.length ?_)) <|
    .cons (exec_addVoice ?_ (.name ?_) (Key.ofCode?_code pitch.1)
      ((Means.object (w.made.length + 1) ?_).param (p := keyGate base.size) ?_ rfl)
      (Means.name (v := .profile base.voicing.profiles.length) ?_)) .nil, ?_⟩
  -- what was added one by one is what a round of the loop adds; the names are looked up after that
  rotate_right
  · simp only [Work.addKey, Work.declare, Work.create, Work.fit, Work.setBase, Work.connect,
      Work.change, Work.addSource, Work.push, Work.bind, modify_append_length, modify_append_add,
      List.append_assoc]
    rfl
  all_goals simp (disch := decide) [Function.update_apply, h.ctx, h.sources, h.apart, hnames, hvars,
    keyVars, hopen.osc, hopen.gate, hplays.addVoice, modify_append_length, modify_append_add,
    getElem?_append_length, getElem?_append_add]
  all_goals rfl

variable (page) in
/-- The loop over the notes adds key after key. -/
theorem loops_keys (h : base.Ready name master) (hplays : base.Plays) (hopen : base.Open)
    {choice : String} {waveform : Waveform} (hwaveform : Waveform.ofName? choice = some waveform)
    (ratio : α) (pitches : List (Key × α)) (hvars : w.vars = keyVars base name) :
    Loops page base ["key", "freq"] (keyBody name choice ratio) w
      (pitches.map fun pitch => .items [.text pitch.1.code, .number pitch.2])
      (pitches.foldl (Work.addKey base.size waveform ratio base.voicing.profiles.length) w) := by
  induction pitches generalizing w with
  | nil => exact .nil w
  | cons pitch pitches ih =>
    obtain ⟨inner', hdoes, hadded⟩ := does_key page h hplays hopen hwaveform hvars ratio pitch
    refine .cons rfl ?_ hdoes (hadded ▸ ih hvars)
    have hkey : (base.after w).scope "key" = none := by
      simp (disch := decide) [hvars, keyVars, Function.update_apply, h.apart, hopen.key]
    have hfreq : (base.after (w.declare "key" (.text pitch.1.code))).scope "freq" = none := by
      simp (disch := decide) [hvars, keyVars, Function.update_apply, h.apart, hopen.freq]
    simp only [Stage.declareAll, List.zip_cons_cons, List.zip_nil_left, List.foldlM_cons,
      List.foldlM_nil, Stage.declare_after hkey, Stage.declare_after hfreq, Option.bind_eq_bind,
      Option.bind_some, Option.pure_def]
    rfl

/-- The oscillators of keys, counted from a number on. -/
def oscillatorsFrom (first : PrimitiveId) (n : Nat) (pitches : List (Key × α)) : List PrimitiveId :=
  (pitches.zipIdx n).map fun (_, i) => first + 1 + 2 * i

/-- The primitives that the loop makes, key by key. -/
def keyPrimitives (first : PrimitiveId) (waveform : Waveform) (ratio : α) (n : Nat)
    (pitches : List (Key × α)) : List (Primitive α) :=
  (pitches.zipIdx n).flatMap fun ((_, base), i) =>
    [keyOscillator waveform (base * ratio) (first + (2 * i + 2)), keyGate first]

theorem keyPrimitives_cons (first : PrimitiveId) (waveform : Waveform) (ratio : α) (n : Nat)
    (pitch : Key × α) (pitches : List (Key × α)) :
    keyPrimitives first waveform ratio n (pitch :: pitches) =
      keyOscillator waveform (pitch.2 * ratio) (first + (2 * n + 2)) :: keyGate first ::
        keyPrimitives first waveform ratio (n + 1) pitches := rfl

theorem addKeys_eq (first : PrimitiveId) (waveform : Waveform) (ratio : α) (profile : Nat)
    (pitches : List (Key × α)) {n : Nat} {w : Work α} {oscillators : List (Value α)}
    (hn : w.made.length = 2 * n + 1) (hlists : w.lists = [oscillators]) :
    pitches.foldl (Work.addKey first waveform ratio profile) w =
      { w with
        sources := w.sources ++ (oscillatorsFrom first n pitches).map .object
        lists := [oscillators ++ (oscillatorsFrom first n pitches).map .object]
        made := w.made ++ keyPrimitives first waveform ratio n pitches
        bindings := w.bindings ++ (pitches.zipIdx n).map fun ((key, _), i) =>
          (key, ⟨⟨first + (2 * i + 2), .gain⟩, profile⟩) } := by
  induction pitches generalizing n w oscillators with
  | nil => simp [oscillatorsFrom, keyPrimitives, ← hlists]
  | cons pitch pitches ih =>
    have hn' : (w.addKey first waveform ratio profile pitch).made.length = 2 * (n + 1) + 1 := by
      simp [Work.addKey, hn]
      omega
    have hlists' : (w.addKey first waveform ratio profile pitch).lists =
        [oscillators ++ [.object (first + w.made.length)]] := by
      simp [Work.addKey, hlists]
    have hosc : ∀ m : Nat, m + (2 * n + 1) = m + 1 + 2 * n := by omega
    have hgate : ∀ m : Nat, m + (2 * n + 1) + 1 = m + (2 * n + 2) := by omega
    rw [List.foldl_cons, ih hn' hlists']
    simp [Work.addKey, oscillatorsFrom, keyPrimitives, hn, hgate first]
    exact hosc first

theorem states_keyPrimitives (first : PrimitiveId) (waveform : Waveform) (ratio : α) (n : Nat)
    (pitches : List (Key × α)) (t : α) :
    (keyPrimitives first waveform ratio n pitches).map (·.stateAt t) =
      pitches.flatMap fun (_, base) =>
        [(Setup.oscillator waveform (base * ratio)).state, (Setup.gain 0.0).state] := by
  induction pitches generalizing n with
  | nil => rfl
  | cons pitch pitches ih =>
    rw [keyPrimitives_cons, List.map_cons, List.map_cons, ih, List.flatMap_cons]
    rfl

theorem wires_keyPrimitives (first : PrimitiveId) (waveform : Waveform) (ratio : α) (n : Nat)
    (pitches : List (Key × α)) :
    wiresFrom (first + (2 * n + 1)) (keyPrimitives first waveform ratio n pitches) =
      (oscillatorsFrom first n pitches).flatMap fun osc =>
        [(osc, .input (osc + 1)), (osc + 1, .input first)] := by
  induction pitches generalizing n with
  | nil => rfl
  | cons pitch pitches ih =>
    have hosc : ∀ m : Nat, m + (2 * n + 1) = m + 1 + 2 * n := by omega
    have hgate : ∀ m : Nat, m + (2 * n + 2) = m + 1 + 2 * n + 1 := by omega
    have hnext : ∀ m : Nat, m + (2 * n + 1) + 1 + 1 = m + (2 * (n + 1) + 1) := by omega
    rw [keyPrimitives_cons, wiresFrom_cons, wiresFrom_cons, hnext first, ih, hosc first]
    show [(_, Inlet.input (first + (2 * n + 2)))] ++ ([(_, _)] ++ _) = _
    rw [hgate first]
    rfl

/-- Each of the oscillators is one of the primitives. -/
theorem oscillator_keyPrimitives (first : PrimitiveId) (waveform : Waveform) (ratio : α) (n : Nat)
    (pitches : List (Key × α)) (before : List (Primitive α)) (hn : before.length = 2 * n + 1) :
    ∀ id ∈ oscillatorsFrom first n pitches, ∃ i p, id = first + i ∧
      (before ++ keyPrimitives first waveform ratio n pitches)[i]? = some p ∧
      p.family = .oscillator := by
  induction pitches generalizing n before with
  | nil => exact fun id hid => absurd hid List.not_mem_nil
  | cons pitch pitches ih =>
    intro id hid
    rcases List.mem_cons.mp hid with rfl | hid
    · refine ⟨2 * n + 1, keyOscillator waveform (pitch.2 * ratio) (first + (2 * n + 2)), ?_, ?_,
        rfl⟩
      · have hosc : ∀ m : Nat, m + 1 + 2 * n = m + (2 * n + 1) := by omega
        exact hosc first
      · rw [← hn, getElem?_append_length]
        rfl
    · have hmore := ih (n + 1) (before ++ [keyOscillator waveform (pitch.2 * ratio)
        (first + (2 * n + 2)), keyGate first]) (by simp [hn]; omega) id hid
      rwa [List.append_assoc] at hmore

theorem oscillatorsFrom_pitches (first : PrimitiveId) :
    oscillatorsFrom first 0 (Key.pitches (α := α)) = Kind.keyOscillators first := by
  unfold oscillatorsFrom Kind.keyOscillators
  rw [← Function.comp_def (fun i => first + 1 + 2 * i) (fun p : (Key × α) × Nat => p.2),
    ← List.map_map, List.zipIdx_map_snd]
  rfl

/-! ## The block -/

theorem makes_keyboardNote (h : base.Ready name master) (hplays : base.Plays) (hopen : base.Open)
    (hnotes : base.scope "NOTE_MAP" = some (.items ((Key.pitches (α := α)).map fun pitch =>
      .items [.text pitch.1.code, .number pitch.2])))
    (seconds : α) (values : List (Control.Value α)) {waveform : Waveform}
    (hwaveform :
      Waveform.ofName? (Panel.choice ⟨.keyboardNote, values⟩ "waveform") = some waveform) :
    Makes page base name master seconds ⟨.keyboardNote, values⟩ := by
  have hloop := fun (w : Work α) (hvars : w.vars = keyVars base name) =>
    loops_keys page h hplays hopen hwaveform
      (Pitch.ratio (Panel.number ⟨.keyboardNote, values⟩ "octave")
        (Panel.number ⟨.keyboardNote, values⟩ "halfstep")) Key.pitches hvars
  refine ⟨_, .cons (exec_make ?_ ?_ rfl) <|
    .cons (exec_list ?_) <|
    .cons (exec_const (eval_addProfile ?_ _) ?_) <|
    .cons (exec_forItems (.name (v := .items _) ?_) rfl (hloop _ ?_)) .nil, ?_⟩
  -- the primitives of the loop come after the one that all gates lead into
  rotate_right
  · rw [addKeys_eq (n := 0) _ _ _ _ _ rfl rfl]
    refine ⟨⟨fun _ => 0.0, fun t => ?_⟩, ?_, rfl, ?_, by simp, ?_, ?_, ?_⟩
    · simp only [Panel.states, hwaveform]
      exact congrArg (List.cons _) (states_keyPrimitives _ _ _ _ _ t)
    · exact (wires_keyPrimitives _ _ _ _ _).trans
        (congrArg (List.flatMap _) (oscillatorsFrom_pitches base.size))
    · simp only [Panel.bindings, Panel.voices, List.map_map]
      rfl
    · intro v hv
      obtain ⟨id, -, rfl⟩ := List.mem_map.mp hv
      exact ⟨id, rfl⟩
    · exact List.forall_mem_singleton.mpr ⟨_, rfl, by simp; rfl⟩
    -- the list of the sources is the first of all, so the list of the oscillators is a later one
    · obtain ⟨place, hplace⟩ := Nat.exists_eq_succ_of_ne_zero
        (fun hnone => h.lists (List.length_eq_zero_iff.mp hnone))
      refine List.forall_mem_singleton.mpr ⟨_, rfl, rfl, name ++ "_" ++ "osc", place,
        Kind.keyOscillators base.size, .frequency, rfl, ?_, ?_, rfl, fun id hid => ?_, rfl⟩
      · simp [hplace]
      · rw [← oscillatorsFrom_pitches (α := α) base.size, ← Nat.succ_eq_add_one, ← hplace]
        exact Stage.lists_after 0
      · rw [← oscillatorsFrom_pitches (α := α) base.size] at hid
        obtain ⟨i, p, rfl, hp, hfamily⟩ := oscillator_keyPrimitives base.size waveform
          (Pitch.ratio (Panel.number ⟨.keyboardNote, values⟩ "octave")
            (Panel.number ⟨.keyboardNote, values⟩ "halfstep")) 0 Key.pitches
          [.new (.gain 1.0)] rfl id hid
        exact Stage.hasParam_after hp (by rw [hfamily]; rfl)
  all_goals simp (disch := decide) [Function.update_apply, h.ctx, h.fresh, h.apart, hnotes, keyVars,
    hplays.addProfile]

end

end Patchbay.Script
