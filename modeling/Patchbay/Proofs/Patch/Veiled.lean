import Patchbay.Proofs.Patch.Frame
import Patchbay.Proofs.Ramp
/-!
# Racks that differ where it does not show

The first value of a parameter does not show from the time on at which a point is set for it. Two
racks are alike up to such values (`Rack.Veiled`) when they have the same primitives, wires and
points, and every parameter that does not begin alike has its first point at the present time. What
is played from then on is the same on both (`Rack.Veiled.outputAt_eq`).

While a node is built one parameter may be loose: its primitive was created with different first
values, and the point that is to veil them is still to come. Steps that bring this point leave racks
that are alike (`Assembly.Veiled.run`).
-/

namespace Patchbay

variable {α : Type}

/-! ## Courses -/

namespace Timeline

/-- Neither course has a point yet. -/
structure Bare (tl tl' : Timeline α) : Prop where
  left : tl.points = []
  right : tl'.points = []

/-- Two courses with the same points, the first of them at `now` if they do not begin alike. -/
structure Veiled (now : α) (tl tl' : Timeline α) : Prop where
  points : tl'.points = tl.points
  initial : tl'.initial = tl.initial ∨ ∃ p rest, tl.points = p :: rest ∧ p.time = now

theorem Veiled.refl (now : α) (tl : Timeline α) : Veiled now tl tl := ⟨rfl, .inl rfl⟩

variable [Scalar α] {now : α} {tl tl' : Timeline α}

/-- From `now` on the first values do not show. -/
theorem Veiled.valueAt_eq (h : Veiled now tl tl') {t : α} (ht : now ≤ t) :
    tl'.valueAt t = tl.valueAt t := by
  unfold valueAt
  rw [h.points]
  rcases h.initial with hinitial | ⟨p, rest, hpoints, htime⟩
  · rw [hinitial]
  · have hpassed : p.time ≤ t := htime.symm ▸ ht
    rw [hpoints, follow, follow, if_pos hpassed, if_pos hpassed]

/-- A point at the present time veils a course that has none. -/
theorem Bare.insert (h : Bare tl tl') {p : Point α} (hp : p.time = now) :
    Veiled now (tl.insert p) (tl'.insert p) where
  points := by
    unfold Timeline.insert
    rw [h.left, h.right]
  initial := by
    refine .inr ⟨p, [], ?_, hp⟩
    unfold Timeline.insert
    rw [h.left]
    rfl

/-- Another point at the present time takes no veil away. -/
theorem Veiled.insert (h : Veiled now tl tl') {p : Point α} (hp : p.time = now) :
    Veiled now (tl.insert p) (tl'.insert p) where
  points := by
    unfold Timeline.insert
    rw [h.points]
  initial := by
    rcases h.initial with hinitial | ⟨q, rest, hpoints, htime⟩
    · exact .inl hinitial
    · right
      unfold Timeline.insert
      rw [hpoints, insertPoint]
      split
      next => exact ⟨p, q :: rest, rfl, hp⟩
      next => exact ⟨q, insertPoint p rest, rfl, htime⟩

end Timeline

/-! ## Primitives -/

/-- Primitives that are alike in all but their setups and the courses of their parameters. -/
structure Primitive.SameFrame (p p' : Primitive α) : Prop where
  family : p'.family = p.family
  params : p'.timelines.map (·.1) = p.timelines.map (·.1)
  outputs : p'.outputs = p.outputs
  startedAt : p'.startedAt = p.startedAt
  stoppedAt : p'.stoppedAt = p.stoppedAt
  released : p'.released = p.released

namespace Primitive.SameFrame

variable {p p' : Primitive α}

theorem refl (p : Primitive α) : SameFrame p p := ⟨rfl, rfl, rfl, rfl, rfl, rfl⟩

theorem mapTimeline (h : SameFrame p p') (param : Param) (f f' : Timeline α → Timeline α) :
    SameFrame (p.mapTimeline param f) (p'.mapTimeline param f') where
  family := h.family
  params := by
    have hparams : ∀ (p : Primitive α) f,
        (p.mapTimeline param f).timelines.map (·.1) = p.timelines.map (·.1) := by
      intro p f
      unfold Primitive.mapTimeline
      rw [List.map_map]
      rfl
    rw [hparams, hparams, h.params]
  outputs := h.outputs
  startedAt := h.startedAt
  stoppedAt := h.stoppedAt
  released := h.released

end Primitive.SameFrame

/-- Two options that are equal are related by what every course is to itself. -/
theorem rel_of_eq {τ : Type} {R : τ → τ → Prop} {x x' : Option τ} (h : x' = x) (hR : ∀ a, R a a) :
    Option.Rel R x x' := by
  subst h
  cases x' with
  | none => exact .none
  | some a => exact .some (hR a)

/-- What holds of two options that are both there, or both not. -/
theorem rel_map {τ : Type} {R R' : τ → τ → Prop} {f f' : τ → τ} {x x' : Option τ}
    (h : Option.Rel R x x') (hf : ∀ a a', R a a' → R' (f a) (f' a')) :
    Option.Rel R' (x.map f) (x'.map f') := by
  cases h with
  | none => exact .none
  | some h => exact .some (hf _ _ h)

/-- Two setups of one family that differ at most in the first value of one parameter. -/
structure Setup.Veiled [Scalar α] (loose : Option Param) (s s' : Setup α) : Prop where
  frame : (Primitive.new s).SameFrame (.new s')
  bare : ∀ param, loose = some param →
    Option.Rel Timeline.Bare ((Primitive.new s).timeline? param)
      ((Primitive.new s').timeline? param)
  same : ∀ param, loose ≠ some param →
    (Primitive.new s').timeline? param = (Primitive.new s).timeline? param

namespace Rack

/-! ## Racks -/

/-- How two courses of one parameter are alike. -/
def Course (now : α) (loose : Option Dial) (dial : Dial) : Timeline α → Timeline α → Prop :=
  if loose = some dial then Timeline.Bare else Timeline.Veiled now

/-- Racks that differ at most in first values that do not show, and in that of the loose parameter,
for which nothing is scheduled yet. -/
structure Veiled (loose : Option Dial) (rack rack' : Rack α) : Prop where
  rest : rack' = { rack with primitives := rack'.primitives }
  size : rack'.primitives.size = rack.primitives.size
  frames : ∀ id, Option.Rel Primitive.SameFrame (rack.primitive? id) (rack'.primitive? id)
  courses : ∀ dial,
    Option.Rel (Course rack.clock loose dial) (rack.timeline? dial) (rack'.timeline? dial)

namespace Veiled

variable {loose : Option Dial} {rack rack' : Rack α}

theorem refl (rack : Rack α) : Veiled none rack rack :=
  ⟨rfl, rfl, fun _ => rel_of_eq rfl .refl, fun _ => rel_of_eq rfl (.refl _)⟩

theorem clock (h : Veiled loose rack rack') : rack'.clock = rack.clock := by rw [h.rest]

theorem sampleRate (h : Veiled loose rack rack') : rack'.sampleRate = rack.sampleRate := by
  rw [h.rest]

theorem refused (h : Veiled loose rack rack') : rack'.refused = rack.refused := by rw [h.rest]

/-- The same change to one primitive that neither sees the courses nor changes them. -/
theorem update (h : Veiled loose rack rack') (id : PrimitiveId) {f : Primitive α → Primitive α}
    (hframe : ∀ p p', p.SameFrame p' → (f p).SameFrame (f p'))
    (hcourses : ∀ p, (f p).timelines = p.timelines) :
    Veiled loose (rack.update id f) (rack'.update id f) where
  rest := by rw [Rack.update, Rack.update, h.rest]
  size := by rw [size_update, size_update, h.size]
  frames other := by
    rw [primitive?_update, primitive?_update]
    split
    next => exact rel_map (h.frames other) hframe
    next => exact h.frames other
  courses dial := by
    rw [timeline?_update _ id hcourses, timeline?_update _ id hcourses]
    exact h.courses dial

theorem connect (h : Veiled loose rack rack') (source : PrimitiveId) (inlet : Inlet) :
    Veiled loose (rack.connect source inlet) (rack'.connect source inlet) := by
  refine h.update source (fun p p' hframe => ⟨hframe.family, hframe.params, ?_, hframe.startedAt,
    hframe.stoppedAt, hframe.released⟩) fun _ => rfl
  show p'.outputs ++ [inlet] = p.outputs ++ [inlet]
  rw [hframe.outputs]

theorem releaseAll (h : Veiled loose rack rack') (ids : List PrimitiveId) :
    Veiled loose (rack.releaseAll ids) (rack'.releaseAll ids) := by
  induction ids generalizing rack rack' with
  | nil => exact h
  | cons id ids ih =>
    have hreleased : Veiled loose (rack.release id) (rack'.release id) :=
      h.update id (fun p p' hframe => ⟨hframe.family, hframe.params, rfl, hframe.startedAt,
        hframe.stoppedAt, rfl⟩) fun _ => rfl
    exact ih hreleased

variable [Scalar α]

/-- What is created with setups that differ in one first value is loose in that parameter. -/
theorem add (h : Veiled none rack rack') {param : Option Param} {s s' : Setup α}
    (hsetup : Setup.Veiled param s s') :
    Veiled (param.map (.mk rack.primitives.size)) (rack.add s) (rack'.add s') where
  rest := by rw [Rack.add, Rack.add, h.rest]
  size := by rw [Rack.add, Rack.add, Array.size_push, Array.size_push, h.size]
  frames id := by
    rw [primitive?_add, primitive?_add, h.size]
    split
    next => exact .some hsetup.frame
    next => exact h.frames id
  courses dial := by
    rw [timeline?_add, timeline?_add, h.size]
    by_cases hnew : dial.primitive = rack.primitives.size
    · rw [if_pos hnew, if_pos hnew]
      unfold Course
      by_cases hloose : param.map (Dial.mk rack.primitives.size) = some dial
      · rw [if_pos hloose]
        obtain ⟨p, rfl, rfl⟩ := Option.map_eq_some_iff.mp hloose
        exact hsetup.bare p rfl
      · rw [if_neg hloose]
        refine rel_of_eq (hsetup.same dial.param fun hparam => hloose ?_) (.refl _)
        rw [hparam, ← hnew]
        rfl
    · rw [if_neg hnew, if_neg hnew]
      have hloose : ¬param.map (Dial.mk rack.primitives.size) = some dial := by
        intro hloose
        obtain ⟨p, -, rfl⟩ := Option.map_eq_some_iff.mp hloose
        exact hnew rfl
      have hcourse := h.courses dial
      unfold Course at hcourse ⊢
      rw [if_neg hloose]
      rwa [if_neg (by simp)] at hcourse

/-- A primitive that is created alike on both leaves loose what is. -/
theorem add_same (h : Veiled loose rack rack') (s : Setup α) :
    Veiled loose (rack.add s) (rack'.add s) where
  rest := by rw [Rack.add, Rack.add, h.rest]
  size := by rw [Rack.add, Rack.add, Array.size_push, Array.size_push, h.size]
  frames id := by
    rw [primitive?_add, primitive?_add, h.size]
    split
    next => exact .some (.refl _)
    next => exact h.frames id
  courses dial := by
    rw [timeline?_add, timeline?_add, h.size]
    by_cases hnew : dial.primitive = rack.primitives.size
    · rw [if_pos hnew, if_pos hnew]
      cases htl : (Primitive.new s).timeline? dial.param with
      | none => exact .none
      | some tl =>
        have hpoints := Primitive.points_new htl
        refine .some ?_
        unfold Course
        split
        next => exact ⟨hpoints, hpoints⟩
        next => exact .refl _ tl
    · rw [if_neg hnew, if_neg hnew]
      exact h.courses dial

/-- What is loose after a parameter was set. -/
def settled (loose : Option Dial) (dial : Dial) : Option Dial :=
  if loose = some dial then none else loose

/-- Setting a parameter from now on veils its first value. -/
theorem setValue (h : Veiled loose rack rack') (dial : Dial) (value : α) :
    Veiled (settled loose dial) (rack.setValue dial value) (rack'.setValue dial value) where
  rest := by
    unfold Rack.setValue schedule Rack.update
    rw [h.rest]
  size := (size_update _ _ _).trans (h.size.trans (size_update _ _ _).symm)
  frames id := by
    unfold Rack.setValue schedule
    rw [primitive?_update, primitive?_update]
    split
    next => exact rel_map (h.frames id) fun p p' hframe => hframe.mapTimeline dial.param _ _
    next => exact h.frames id
  courses other := by
    have hclock : (rack.setValue dial value).clock = rack.clock := rfl
    have hcourse := h.courses other
    rw [hclock]
    unfold settled Rack.setValue
    rw [h.clock]
    by_cases hother : other = dial
    · subst hother
      rw [timeline?_schedule, timeline?_schedule, h.clock]
      refine rel_map hcourse fun tl tl' hcourse => ?_
      unfold Course at hcourse ⊢
      by_cases hloose : loose = some other
      · rw [if_pos hloose] at hcourse
        rw [if_pos hloose, if_neg (by simp)]
        exact hcourse.insert rfl
      · rw [if_neg hloose] at hcourse
        rw [if_neg hloose, if_neg hloose]
        exact hcourse.insert rfl
    · rw [timeline?_schedule_of_ne _ hother, timeline?_schedule_of_ne _ hother]
      unfold Course at hcourse ⊢
      by_cases hloose : loose = some dial
      · have hnot : ¬loose = some other := fun heq =>
          hother (Option.some.inj (heq.symm.trans hloose))
        rw [if_pos hloose]
        simpa [hnot] using hcourse
      · rwa [if_neg hloose]

/-! ## What shows -/

section

variable (h : Veiled none rack rack') {t : α} (ht : rack.clock ≤ t)

include h ht in
theorem valueAt_eq (dial : Dial) : rack'.valueAt dial t = rack.valueAt dial t := by
  have hcourse := h.courses dial
  unfold valueAt
  rw [← timeline?, ← timeline?]
  generalize rack.timeline? dial = tl, rack'.timeline? dial = tl' at hcourse
  cases hcourse with
  | none => rfl
  | some hcourse =>
    unfold Course at hcourse
    rw [if_neg (by simp)] at hcourse
    exact hcourse.valueAt_eq ht

omit [Scalar α] in
include h in
theorem inputsOf_eq (inlet : Inlet) : rack'.inputsOf inlet = rack.inputsOf inlet := by
  unfold inputsOf
  rw [h.size]
  refine List.filter_congr fun id _ => ?_
  have hframe := h.frames id
  generalize rack.primitive? id = p, rack'.primitive? id = p' at hframe
  cases hframe with
  | none => rfl
  | some hframe =>
    dsimp only
    rw [hframe.outputs, hframe.released]

include h ht in
theorem outputWithin_eq (depth : Nat) : rack'.outputWithin t depth = rack.outputWithin t depth := by
  induction depth with
  | zero => rfl
  | succ depth ih =>
    funext id
    have hframe := h.frames id
    unfold outputWithin
    generalize rack.primitive? id = p, rack'.primitive? id = p' at hframe
    cases hframe with
    | none => rfl
    | some hframe =>
      rw [Option.bind_eq_bind, Option.bind_eq_bind, Option.bind_some, Option.bind_some,
        hframe.family]
      simp only [ih, h.inputsOf_eq, h.valueAt_eq ht]

include h ht in
theorem outputAt_eq (id : PrimitiveId) : rack'.outputAt id t = rack.outputAt id t := by
  unfold outputAt
  rw [h.size, h.outputWithin_eq ht]

include h ht in
theorem effectiveAt_eq (dial : Dial) : rack'.effectiveAt dial t = rack.effectiveAt dial t := by
  have houtput : (rack'.outputAt · t) = (rack.outputAt · t) := funext (h.outputAt_eq ht)
  unfold effectiveAt
  rw [houtput, h.valueAt_eq ht, h.inputsOf_eq]

end

end Veiled

end Rack

/-! ## Assemblies -/

namespace Assembly

/-- Assemblies that are the same but for their racks, and these differ where it does not show. -/
structure Veiled (loose : Option Dial) (a a' : Assembly α) : Prop where
  rack : Rack.Veiled loose a.rack a'.rack
  voicing : a'.voicing = a.voicing
  made : a'.made = a.made
  parts : a'.parts = a.parts

theorem Veiled.refl (a : Assembly α) : Veiled none a a := ⟨.refl _, rfl, rfl, rfl⟩

variable [Scalar α] {loose : Option Dial} {a a' : Assembly α}

/-- A rack that refuses nothing creates what it is asked for. -/
theorem runStep_create (hrefused : a.rack.refused = []) (s : Setup α) :
    a.runStep (.create s) = .ok { a with
      rack := a.rack.add s, made := a.made ++ [(a.rack.primitives.size, s.family)] } := by
  refine runStep_create_eq_ok.mpr ⟨?_, rfl⟩
  rw [hrefused]
  exact List.not_mem_nil

/-- Creating primitives with setups that differ in one first value. -/
theorem Veiled.create (h : Veiled none a a') (hrefused : a.rack.refused = []) {param : Option Param}
    {s s' : Setup α} (hsetup : Setup.Veiled param s s') :
    ∃ b b', a.runStep (.create s) = .ok b ∧ a'.runStep (.create s') = .ok b' ∧
      b.rack.refused = [] ∧ Veiled (param.map (.mk a.rack.primitives.size)) b b' := by
  refine ⟨_, _, runStep_create hrefused s, runStep_create (h.rack.refused.trans hrefused) s',
    hrefused, h.rack.add hsetup, h.voicing, ?_, h.parts⟩
  have hfamily : s'.family = s.family := hsetup.frame.family
  dsimp only
  rw [h.made, h.rack.size, hfamily]

/-- The same step on both. -/
theorem Veiled.runStep (h : Veiled loose a a') (hrefused : a.rack.refused = []) (step : Step α) :
    ∃ b b', a.runStep step = .ok b ∧ a'.runStep step = .ok b' ∧ b.rack.refused = [] ∧
      ∃ loose', Veiled loose' b b' ∧
        ∀ dial, loose' = some dial → loose = some dial ∧ ∀ v, step ≠ .setValue dial v := by
  cases step with
  | create s =>
    refine ⟨_, _, runStep_create hrefused s, runStep_create (h.rack.refused.trans hrefused) s,
      hrefused, loose, ⟨h.rack.add_same s, h.voicing, ?_, h.parts⟩,
      fun dial hdial => ⟨hdial, fun _ => nofun⟩⟩
    dsimp only
    rw [h.made, h.rack.size]
  | connect source inlet =>
    exact ⟨_, _, rfl, rfl, hrefused, loose, ⟨h.rack.connect source inlet, h.voicing, h.made,
      h.parts⟩, fun dial hdial => ⟨hdial, fun _ => nofun⟩⟩
  | setValue dial v =>
    refine ⟨_, _, rfl, rfl, hrefused, _, ⟨h.rack.setValue dial v, h.voicing, h.made, h.parts⟩, ?_⟩
    intro other hother
    unfold Rack.Veiled.settled at hother
    split at hother
    next => cases hother
    next hne =>
      refine ⟨hother, fun v' heq => hne ?_⟩
      cases heq
      exact hother
  | register profile =>
    refine ⟨_, _, rfl, rfl, hrefused, loose, ⟨h.rack, ?_, h.made, h.parts⟩,
      fun dial hdial => ⟨hdial, fun _ => nofun⟩⟩
    dsimp only
    rw [h.voicing]
  | bind key voice =>
    refine ⟨_, _, rfl, rfl, hrefused, loose, ⟨h.rack, ?_, h.made, h.parts⟩,
      fun dial hdial => ⟨hdial, fun _ => nofun⟩⟩
    dsimp only
    rw [h.voicing]

/-- The same steps on both, by which what is loose is set. -/
theorem Veiled.run (h : Veiled loose a a') (hrefused : a.rack.refused = []) (steps : List (Step α))
    (hset : ∀ dial, loose = some dial → ∃ v, .setValue dial v ∈ steps) :
    ∃ b b', steps.foldlM Assembly.runStep a = .ok b ∧ steps.foldlM Assembly.runStep a' = .ok b' ∧
      b.rack.refused = [] ∧ Veiled none b b' := by
  induction steps generalizing a a' loose with
  | nil =>
    cases loose with
    | none => exact ⟨a, a', rfl, rfl, hrefused, h⟩
    | some dial =>
      obtain ⟨v, hv⟩ := hset dial rfl
      exact absurd hv List.not_mem_nil
  | cons step steps ih =>
    obtain ⟨b, b', hb, hb', hrefused', loose', hveiled, hloose⟩ := h.runStep hrefused step
    have hset' : ∀ dial, loose' = some dial → ∃ v, .setValue dial v ∈ steps := by
      intro dial hdial
      obtain ⟨hdial, hne⟩ := hloose dial hdial
      obtain ⟨v, hv⟩ := hset dial hdial
      rcases List.mem_cons.mp hv with heq | hv
      · exact absurd heq.symm (hne v)
      · exact ⟨v, hv⟩
    rw [List.foldlM_cons, List.foldlM_cons, hb, hb']
    exact ih hveiled hrefused' hset'

end Assembly

end Patchbay
