import Patchbay.Proofs.Program.Built
/-!
# Voices of a built graph

The gains that a built graph gives to the keys are closed and were never touched, no two voices have
one gain, and every voice has its profile (`Voicing.Fresh`, `Graph.fresh_of_build`). A node creates
the gates of its keys closed, and no step of building sets one (`Step.Spares`). That no two voices
have one gain holds wherever building stops (`Graph.nodup_gains_of_build`).
-/

namespace Patchbay

variable {α : Type}

/-! ## Steps -/

namespace Step

/-- The primitives that steps create, in order, as they are set up. -/
def setups (steps : List (Step α)) : List (Setup α) :=
  steps.filterMap fun
    | create setup => some setup
    | _ => none

/-- No step sets a parameter. -/
def Spares (dial : Dial) (steps : List (Step α)) : Prop := ∀ v, setValue dial v ∉ steps

variable {dial : Dial} {step : Step α} {l l' : List (Step α)}

@[simp]
theorem setups_nil : setups ([] : List (Step α)) = [] := rfl

@[simp]
theorem setups_create (setup : Setup α) (l : List (Step α)) :
    setups (create setup :: l) = setup :: setups l := rfl

@[simp]
theorem setups_connect (source : PrimitiveId) (inlet : Inlet) (l : List (Step α)) :
    setups (connect source inlet :: l) = setups l := rfl

@[simp]
theorem setups_setValue (dial : Dial) (v : α) (l : List (Step α)) :
    setups (setValue dial v :: l) = setups l := rfl

@[simp]
theorem setups_register (profile : Profile α) (l : List (Step α)) :
    setups (register profile :: l) = setups l := rfl

@[simp]
theorem setups_bind (key : Key) (voice : Voice) (l : List (Step α)) :
    setups (bind key voice :: l) = setups l := rfl

@[simp]
theorem setups_append (l l' : List (Step α)) : setups (l ++ l') = setups l ++ setups l' :=
  List.filterMap_append

/-- Steps that create nothing have no setups. -/
theorem setups_eq_nil (h : families l = []) : setups l = [] := by
  refine List.filterMap_eq_nil_iff.mpr fun step hstep => ?_
  have hnone := List.filterMap_eq_nil_iff.mp h step hstep
  cases step with
  | create setup => cases hnone
  | _ => rfl

@[simp]
theorem spares_nil : Spares dial ([] : List (Step α)) := fun _ => List.not_mem_nil

@[simp]
theorem spares_cons : Spares dial (step :: l) ↔ (∀ v, step ≠ setValue dial v) ∧ Spares dial l := by
  simp [Spares, forall_and, eq_comm]

@[simp]
theorem spares_append : Spares dial (l ++ l') ↔ Spares dial l ∧ Spares dial l' := by
  simp [Spares, forall_and]

theorem spares_connects (sources : List PrimitiveId) (inlet : Inlet) :
    Spares dial (sources.map fun source => (connect source inlet : Step α)) := by
  simp [Spares]

@[simp]
theorem spares_patch (sources : List PrimitiveId) (into : PrimitiveId) :
    Spares dial (patch sources into : List (Step α)) :=
  spares_connects sources _

end Step

/-- A socket sets no other parameter than the one that it drives. -/
theorem Socket.spares_drive [Scalar α] {dial own : Dial} (h : own ≠ dial) (s : Socket) (v : α)
    (sources : List PrimitiveId) : Step.Spares dial (s.drive own v sources) := by
  unfold drive
  by_cases hempty : sources.isEmpty
  · cases s.inline <;> simp [hempty, h]
  · cases s.combine <;> simp [hempty, h, Step.spares_connects]

/-- A step does not change what is read off a primitive, whatever it patches. -/
def Step.Skips {β : Type} (read : Primitive α → β) (id : PrimitiveId) (step : Step α) : Prop :=
  ∀ dial v, step = .setValue dial v → dial.primitive = id →
    ∀ p f, read (p.mapTimeline dial.param f) = read p

/-- Where a parameter is not set its course can be read. -/
theorem Step.Spares.skips {dial : Dial} {steps : List (Step α)} (h : Spares dial steps) :
    ∀ step ∈ steps, step.Skips (·.timeline? dial.param) dial.primitive := by
  rintro _ hstep own v rfl hprimitive p f
  have hparam : dial.param ≠ own.param := by
    intro hparam
    obtain rfl : own = dial := congr (congrArg Dial.mk hprimitive) hparam.symm
    exact h v hstep
  exact p.timeline?_mapTimeline_of_ne hparam f

theorem Rack.timeline?_eq_join (rack : Rack α) (dial : Dial) :
    rack.timeline? dial = ((rack.primitive? dial.primitive).map (·.timeline? dial.param)).join := by
  unfold timeline?
  cases rack.primitive? dial.primitive <;> rfl

namespace Assembly

variable [Scalar α] {a b : Assembly α} {dial : Dial}

section

variable {β : Type} {read : Primitive α → β}
  (hread : ∀ (p : Primitive α) outputs, read { p with outputs } = read p)

include hread

theorem read_of_runStep {step : Step α} {id : PrimitiveId} (hskips : step.Skips read id)
    (hid : id < a.rack.primitives.size) (h : a.runStep step = .ok b) :
    (b.rack.primitive? id).map read = (a.rack.primitive? id).map read := by
  cases step with
  | create setup =>
    obtain ⟨-, rfl⟩ := runStep_create_eq_ok.mp h
    dsimp only
    rw [Rack.primitive?_add, if_neg (Nat.ne_of_lt hid)]
  | connect source inlet =>
    cases h
    dsimp only [Rack.connect]
    rw [Rack.primitive?_update]
    split
    next => rw [Option.map_map]; exact Option.map_congr fun p _ => hread p _
    next => rfl
  | setValue own v =>
    cases h
    dsimp only [Rack.setValue, Rack.schedule]
    rw [Rack.primitive?_update]
    split
    next hown => rw [Option.map_map]; exact Option.map_congr fun p _ => hskips own v rfl hown p _
    next => rfl
  | register profile =>
    cases h
    rfl
  | bind key voice =>
    cases h
    rfl

/-- Steps that do not change what is read off a primitive leave it. -/
theorem read_of_run {steps : List (Step α)} {id : PrimitiveId}
    (hskips : ∀ step ∈ steps, step.Skips read id) (hid : id < a.rack.primitives.size)
    (h : steps.foldlM runStep a = .ok b) :
    (b.rack.primitive? id).map read = (a.rack.primitive? id).map read := by
  induction steps generalizing a with
  | nil =>
    cases h
    rfl
  | cons step steps ih =>
    rw [List.foldlM_cons] at h
    obtain ⟨a', hstep, hrest⟩ := bind_eq_ok.mp h
    have hsize : a.rack.primitives.size ≤ a'.rack.primitives.size := by
      rw [(ran_of_runStep hstep).size]
      exact Nat.le_add_right _ _
    rw [ih (fun _ hmem => hskips _ (List.mem_cons_of_mem _ hmem)) (Nat.lt_of_lt_of_le hid hsize)
      hrest, read_of_runStep hread (hskips step List.mem_cons_self) hid hstep]

/-- Off a new primitive that no step changes is read what was created. -/
theorem read_created {steps : List (Step α)} {i : Nat} {setup : Setup α}
    (hsetup : (Step.setups steps)[i]? = some setup)
    (hskips : ∀ step ∈ steps, step.Skips read (a.rack.primitives.size + i))
    (h : steps.foldlM runStep a = .ok b) :
    (b.rack.primitive? (a.rack.primitives.size + i)).map read = some (read (.new setup)) := by
  induction steps generalizing a i with
  | nil => cases hsetup
  | cons step steps ih =>
    rw [List.foldlM_cons] at h
    obtain ⟨a', hstep, hrest⟩ := bind_eq_ok.mp h
    have hskips' : ∀ step ∈ steps, step.Skips read (a.rack.primitives.size + i) :=
      fun _ hmem => hskips _ (List.mem_cons_of_mem _ hmem)
    have hsize := (ran_of_runStep hstep).size
    cases step with
    | create own =>
      have hsize' : a'.rack.primitives.size = a.rack.primitives.size + 1 := hsize
      cases i with
      | zero =>
        obtain rfl : own = setup := Option.some.inj hsetup
        have hnew : a'.rack.primitive? a.rack.primitives.size = some (.new own) := by
          obtain ⟨-, rfl⟩ := runStep_create_eq_ok.mp hstep
          exact (a.rack.primitive?_add own _).trans (if_pos rfl)
        rw [read_of_run hread hskips' (hsize' ▸ Nat.lt_succ_self _) hrest, Nat.add_zero, hnew]
        rfl
      | succ i =>
        have hplace : a.rack.primitives.size + (i + 1) = a'.rack.primitives.size + i := by omega
        rw [hplace] at hskips' ⊢
        exact ih hsetup hskips' hrest
    -- the other steps create nothing
    | _ =>
      have hsize' : a'.rack.primitives.size = a.rack.primitives.size := hsize
      rw [← hsize'] at hskips' ⊢
      exact ih hsetup hskips' hrest

end

/-- A parameter that no step sets keeps its course. -/
theorem timeline?_of_run {steps : List (Step α)} (hspares : Step.Spares dial steps)
    (hdial : dial.primitive < a.rack.primitives.size) (h : steps.foldlM runStep a = .ok b) :
    b.rack.timeline? dial = a.rack.timeline? dial := by
  rw [Rack.timeline?_eq_join, Rack.timeline?_eq_join]
  exact congrArg _ (read_of_run (fun _ _ => rfl) hspares.skips hdial h)

/-- A parameter of a new primitive that no step sets has the course with which it was created. -/
theorem timeline?_created {steps : List (Step α)} {i : Nat} {setup : Setup α} {param : Param}
    (hsetup : (Step.setups steps)[i]? = some setup)
    (hspares : Step.Spares ⟨a.rack.primitives.size + i, param⟩ steps)
    (h : steps.foldlM runStep a = .ok b) :
    b.rack.timeline? ⟨a.rack.primitives.size + i, param⟩ =
      (Primitive.new setup).timeline? param := by
  rw [Rack.timeline?_eq_join]
  exact congrArg _ (read_created (fun _ _ => rfl) hsetup hspares.skips h)

end Assembly

/-! ## Nodes -/

variable [Scalar α]

namespace Kind

variable {panel : Panel α} {site : Site α} {plan : Blueprint α}

theorem setups_keySteps (waveform : Waveform) (frequency : α) (sources : List PrimitiveId)
    (profile : Nat) (out osc : PrimitiveId) (key : Key) :
    Step.setups (keySteps waveform frequency sources profile out osc key) =
      [.oscillator waveform frequency, .gain 0.0] := by
  simp [keySteps, Step.setups_eq_nil (Socket.families_drive ..)]

/-- Every key has its oscillator, followed by its gate, which is closed. -/
theorem gate_of_keys (waveform : Waveform) (ratio : α) (sources : List PrimitiveId) (profile : Nat)
    (out first : PrimitiveId) (keys : List (Key × α)) (n : Nat) {i : Nat} (hi : i < keys.length) :
    (Step.setups ((keys.zipIdx n).flatMap fun ((key, base), i) =>
      keySteps waveform (base * ratio) sources profile out (first + 1 + 2 * i) key))[2 * i + 1]? =
        some (.gain 0.0) := by
  induction keys generalizing n i with
  | nil => cases hi
  | cons pitch keys ih =>
    rw [List.zipIdx_cons, List.flatMap_cons, Step.setups_append, setups_keySteps]
    cases i with
    | zero => rfl
    | succ i => exact ih (n + 1) (Nat.lt_of_succ_lt_succ hi)

/-- The gates of a node's voices are created closed. -/
theorem gate_of_blueprint (h : blueprint panel site = .ok plan) {voice : Key × Nat}
    (hvoice : voice ∈ panel.voices) : (Step.setups plan.steps)[voice.2]? = some (.gain 0.0) := by
  obtain ⟨kind, values⟩ := panel
  cases kind
  case keyboardNote =>
    cases h
    obtain ⟨⟨pitch, i⟩, hi, rfl⟩ := List.mem_map.mp hvoice
    have hlt : i < (Key.pitches (α := α)).length := (List.mem_zipIdx hi).2.1
    exact gate_of_keys _ _ _ _ _ _ Key.pitches 0 hlt
  case keyboardAdsr =>
    obtain ⟨-, rfl⟩ := steps_keyboardAdsr h
    obtain ⟨key, -, rfl⟩ := List.mem_map.mp hvoice
    rfl
  all_goals exact absurd hvoice List.not_mem_nil

/-- A blueprint sets neither what was there before nor the gates of the node's voices. -/
theorem spares_of_blueprint (h : blueprint panel site = .ok plan) {dial : Dial}
    (hdial : dial.primitive < site.next ∨
      ∃ voice ∈ panel.voices, dial = ⟨site.next + voice.2, .gain⟩) :
    Step.Spares dial plan.steps := by
  obtain ⟨kind, values⟩ := panel
  cases kind
  case keyboardNote =>
    cases h
    -- only the pitch of an oscillator is ever set
    have hdrive : ∀ i sources,
        Step.Spares dial (keysFrequency.drive ⟨site.next + 1 + 2 * i, .frequency⟩ (0.0 : α)
          sources) := by
      intro i sources
      refine keysFrequency.spares_drive ?_ _ sources
      rintro rfl
      rcases hdial with hbefore | ⟨voice, -, hgate⟩
      · have hafter : ∀ m : Nat, ¬m + 1 + 2 * i < m := by omega
        exact hafter site.next hbefore
      · cases congrArg Dial.param hgate
    intro v hv
    simp only [List.mem_append, List.mem_cons, List.not_mem_nil, or_false, List.mem_flatMap] at hv
    rcases hv with (hv | hv) | ⟨⟨⟨key, base⟩, i⟩, -, hv⟩
    · cases hv
    · cases hv
    · revert hv
      have hkey := hdrive i
      simp [keySteps, (hkey _ v : _)]
  case keyboardAdsr =>
    obtain ⟨-, rfl⟩ := steps_keyboardAdsr h
    simp
  all_goals
    have hne : ∀ param, (⟨site.next, param⟩ : Dial) ≠ dial := by
      rintro param rfl
      rcases hdial with hbefore | ⟨voice, hvoice, -⟩
      · exact absurd hbefore (Nat.lt_irrefl _)
      · exact absurd hvoice List.not_mem_nil
    cases h
    simp [driven, Socket.spares_drive, hne, compressorDials]

end Kind

theorem Panel.nodup_voices (panel : Panel α) : (panel.voices.map (·.2)).Nodup := by
  obtain ⟨kind, values⟩ := panel
  cases kind
  case keyboardNote =>
    have hplaces : (Panel.voices (α := α) ⟨.keyboardNote, values⟩).map (·.2) =
        (List.range 25).map fun i => 2 * i + 2 := by
      have hnumbers : (Key.pitches (α := α)).zipIdx.map (·.2) = List.range 25 := by
        rw [List.zipIdx_map_snd, List.range_eq_range']
        rfl
      rw [← hnumbers, List.map_map]
      exact List.map_map
    have hinj : Function.Injective fun i : Nat => 2 * i + 2 := by
      intro i j hij
      have hij : 2 * i + 2 = 2 * j + 2 := hij
      omega
    rw [hplaces]
    exact List.nodup_range.map hinj
  case keyboardAdsr =>
    show (((Key.ofCode? _).toList.map _).map _).Nodup
    cases Key.ofCode? (Panel.choice ⟨.keyboardAdsr, values⟩ "keyCode") with
    | none => exact List.nodup_nil
    | some key => exact List.nodup_singleton 0
  all_goals exact List.nodup_nil

/-! ## Building -/

/-- The gains that a voicing plays are closed and untouched, no two voices have one gain, and every
voice has its profile. -/
structure Voicing.Fresh (v : Voicing α) (rack : Rack α) : Prop where
  closed : ∀ b ∈ v.bindings, rack.timeline? b.2.gain = some (.starting 0.0)
  distinct : (v.bindings.map (·.2.gain)).Nodup
  profiled : ∀ b ∈ v.bindings, b.2.profile < v.profiles.length

theorem Voicing.fresh_empty (rack : Rack α) : Voicing.empty.Fresh rack where
  closed _ hb := absurd hb List.not_mem_nil
  distinct := List.nodup_nil
  profiled _ hb := absurd hb List.not_mem_nil

/-- The gains of untouched voices are on the rack. -/
theorem Voicing.Fresh.lt_size {v : Voicing α} {rack : Rack α} (h : v.Fresh rack)
    {b : Key × Voice} (hb : b ∈ v.bindings) : b.2.gain.primitive < rack.primitives.size := by
  obtain ⟨p, hp, -⟩ := Option.bind_eq_some_iff.mp (h.closed b hb)
  exact Rack.lt_size_of_primitive? hp

namespace Assembly

variable {g : Graph α} {master : PrimitiveId} {noise : Noise.Source α}

/-- A property is kept by what building does when it ends well. -/
def Preserves (P : Assembly α → Prop) (build : Assembly α → Except (Stopped α) (Assembly α)) :
    Prop :=
  ∀ a b, P a → build a = .ok b → P b

omit [Scalar α] in
theorem Preserves.ends {P : Assembly α → Prop}
    {build : Assembly α → Except (Stopped α) (Assembly α)} (h : Preserves P build) :
    Ends P (fun _ => True) build := by
  intro a ha
  cases hbuild : build a with
  | ok b => exact h a b ha hbuild
  | error stopped => trivial

/-- The gates of a node come after all that were there. -/
theorem nodup_gains_of_fresh {a : Assembly α} (ha : a.voicing.Fresh a.rack) (panel : Panel α) :
    ((a.voicing.bindings ++
      panel.bindings a.rack.primitives.size a.voicing.profiles.length).map (·.2.gain)).Nodup := by
  have hplaces : (panel.bindings a.rack.primitives.size a.voicing.profiles.length).map
      (·.2.gain) = (panel.voices.map (·.2)).map fun i =>
        ⟨a.rack.primitives.size + i, .gain⟩ := by
    unfold Panel.bindings
    rw [List.map_map, List.map_map]
    rfl
  rw [List.map_append, hplaces, List.nodup_append]
  refine ⟨ha.distinct, panel.nodup_voices.map fun i j hij => ?_,
    fun dial hdial dial' hdial' heq => ?_⟩
  · exact Nat.add_left_cancel (congrArg Dial.primitive hij)
  · obtain ⟨entry, hentry, rfl⟩ := List.mem_map.mp hdial
    obtain ⟨i, -, rfl⟩ := List.mem_map.mp hdial'
    have hlt := ha.lt_size hentry
    rw [heq] at hlt
    exact absurd hlt (Nat.not_lt_of_le (Nat.le_add_right _ _))

/-- Building a node leaves all voices untouched. -/
theorem preserves_fresh (n : Node α) :
    Preserves (fun a => a.voicing.Fresh a.rack) (buildNode g master noise n) := by
  intro a a' ha hbuild
  obtain ⟨plan, b, hplan, hrun, rfl⟩ := run_of_buildNode hbuild
  have hvoicing : b.voicing = _ :=
    (voicing_of_run hrun).2.trans (Kind.voicing_of_blueprint hplan a.voicing)
  have hold : ∀ entry ∈ a.voicing.bindings, entry.2.gain.primitive < a.rack.primitives.size :=
    fun entry hentry => ha.lt_size hentry
  show b.voicing.Fresh b.rack
  rw [hvoicing]
  refine ⟨fun entry hentry => ?_, nodup_gains_of_fresh ha n.panel, fun entry hentry => ?_⟩
  · rcases List.mem_append.mp hentry with hentry | hentry
    · have hspares := Kind.spares_of_blueprint hplan (.inl (hold entry hentry))
      rw [timeline?_of_run hspares (hold entry hentry) hrun]
      exact ha.closed entry hentry
    · obtain ⟨voice, hvoice, rfl⟩ := List.mem_map.mp hentry
      have hspares := Kind.spares_of_blueprint hplan (.inr ⟨voice, hvoice, rfl⟩)
      exact timeline?_created (Kind.gate_of_blueprint hplan hvoice) hspares hrun
  · show _ < (a.voicing.profiles ++ n.panel.profiles).length
    rw [List.length_append]
    rcases List.mem_append.mp hentry with hentry | hentry
    · exact Nat.lt_add_right _ (ha.profiled entry hentry)
    · obtain ⟨voice, hvoice, rfl⟩ := List.mem_map.mp hentry
      have hprofiles : n.panel.profiles ≠ [] := Panel.profiles_ne_nil (List.ne_nil_of_mem hvoice)
      exact Nat.lt_add_of_pos_right (List.length_pos_of_ne_nil hprofiles)

omit [Scalar α] in
/-- Steps bind voices after those that were bound. -/
theorem bindings_sing_prefix (steps : List (Step α)) (voicing : Voicing α) :
    voicing.bindings <+: (steps.foldl Step.sing voicing).bindings := by
  induction steps generalizing voicing with
  | nil => exact List.prefix_rfl
  | cons step steps ih =>
    refine List.IsPrefix.trans ?_ (ih (step.sing voicing))
    cases step with
    | bind key voice => exact List.prefix_append _ _
    | _ => exact List.prefix_rfl

/-- A step that fails changes nothing. -/
theorem reached_of_runStep {step : Step α} {stopped : Stopped α}
    (h : a.runStep step = .error stopped) : stopped.reached = a := by
  cases step with
  | create setup =>
    unfold runStep at h
    dsimp only at h
    split at h
    next => cases h
    next =>
      cases h
      rfl
  | connect | setValue | register | bind => cases h

/-- Where steps come to an end, the first of them have been carried out. -/
theorem run_prefix_of_run (a : Assembly α) (steps : List (Step α)) :
    ∃ done rest, steps = done ++ rest ∧
      done.foldlM runStep a = .ok (reached (steps.foldlM runStep a)) := by
  induction steps generalizing a with
  | nil => exact ⟨[], [], rfl, rfl⟩
  | cons step steps ih =>
    rw [List.foldlM_cons]
    cases hstep : a.runStep step with
    | ok b =>
      obtain ⟨done, rest, rfl, hdone⟩ := ih b
      refine ⟨step :: done, rest, rfl, ?_⟩
      rw [List.foldlM_cons, hstep]
      exact hdone
    | error stopped =>
      have hstopped : stopped.reached = a := reached_of_runStep hstep
      exact ⟨[], step :: steps, rfl, congrArg Except.ok hstopped.symm⟩

/-- Building a node leaves all voices untouched, and where it stops no two voices have one gain. -/
theorem ends_fresh (n : Node α) :
    Ends (fun a => a.voicing.Fresh a.rack) (fun a => (a.voicing.bindings.map (·.2.gain)).Nodup)
      (buildNode g master noise n) := by
  intro a ha
  cases hbuild : buildNode g master noise n a with
  | ok b => exact preserves_fresh n a b ha hbuild
  | error stopped =>
    unfold buildNode at hbuild
    split at hbuild
    next =>
      cases hbuild
      exact ha.distinct
    next plan hplan =>
      obtain ⟨done, rest, hsteps, hdone⟩ := run_prefix_of_run a plan.steps
      have hreached : reached (plan.steps.foldlM runStep a) = stopped.reached := by
        cases hrun : plan.steps.foldlM runStep a with
        | ok b =>
          rw [hrun] at hbuild
          cases hbuild
        | error stopped' =>
          rw [hrun] at hbuild
          cases hbuild
          rfl
      rw [hreached] at hdone
      -- what was bound is the beginning of what the whole blueprint binds
      have hbegun := bindings_sing_prefix rest (done.foldl Step.sing a.voicing)
      rw [← List.foldl_append, ← hsteps, Kind.voicing_of_blueprint hplan,
        ← (voicing_of_run hdone).2] at hbegun
      exact (nodup_gains_of_fresh ha n.panel).sublist (hbegun.sublist.map _)

end Assembly

section

variable {g : Graph α} {master : PrimitiveId} {noise : Noise.Source α} {rack : Rack α}

/-- When a graph was built, its voices are untouched. -/
theorem Graph.fresh_of_build {patch : Patch α}
    (h : (g.build master noise rack .empty).outcome = .ok patch) :
    (g.build master noise rack .empty).voicing.Fresh (g.build master noise rack .empty).rack := by
  rcases g.build_of_ends master noise rack .empty (Voicing.fresh_empty rack)
    (fun _ ha => ha.distinct) fun n _ => Assembly.ends_fresh n with
    ⟨a, ha, hbuild⟩ | ⟨a, -, fault, hbuild⟩
  · rw [hbuild]
    exact ha
  · rw [hbuild] at h
    cases h

/-- However the building of a graph ends, no two of its voices have one gain. -/
theorem Graph.nodup_gains_of_build :
    ((g.build master noise rack .empty).voicing.bindings.map (·.2.gain)).Nodup := by
  rcases g.build_of_ends master noise rack .empty (Voicing.fresh_empty rack)
    (fun _ ha => ha.distinct) fun n _ => Assembly.ends_fresh n with
    ⟨a, ha, hbuild⟩ | ⟨a, ha, fault, hbuild⟩
  · rw [hbuild]
    exact ha.distinct
  · rw [hbuild]
    exact ha

end

end Patchbay
