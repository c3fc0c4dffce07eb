import Patchbay.Proofs.Rack
import Patchbay.Proofs.Scalar
/-!
# Ramps that are over

A parameter comes to rest at the value of its last point (`Timeline.rest`). When no point lies
ahead, that is the value it has (`Timeline.valueAt_of_past`), and a ramp from there leads to the
value it was given (`Rack.RestsAt.rampTo`).
-/

namespace Patchbay

variable {α : Type}

namespace Timeline

/-- The value that the last point leads to, whatever lies before it. -/
def rest (tl : Timeline α) : α := (tl.points.getLast?.map (·.value)).getD tl.initial

variable [Scalar α]

/-- No point is later than a time. -/
def Past (tl : Timeline α) (now : α) : Prop := ∀ p ∈ tl.points, p.time ≤ now

instance (tl : Timeline α) (now : α) : Decidable (tl.Past now) :=
  inferInstanceAs (Decidable (∀ p ∈ tl.points, p.time ≤ now))

/-- Points that have been passed leave the value and the time of the last of them. -/
theorem follow_of_passed {t : α} {passed : List (Point α)} (h : ∀ q ∈ passed, q.time ≤ t)
    (ahead : List (Point α)) (value : α) (since : Option α) :
    follow t value since (passed ++ ahead) =
      follow t ((passed.getLast?.map (·.value)).getD value)
        ((passed.getLast?.map (·.time)).or since) ahead := by
  induction passed generalizing value since with
  | nil => rfl
  | cons q passed ih =>
    rw [List.cons_append, follow, if_pos (h q List.mem_cons_self),
      ih fun r hr => h r (List.mem_cons_of_mem _ hr), List.getLast?_cons]
    cases passed.getLast? <;> rfl

/-- When all points have been passed, the value is that of the last one. -/
theorem valueAt_of_past {tl : Timeline α} {now : α} (h : tl.Past now) :
    tl.valueAt now = tl.rest := by
  have hpassed := follow_of_passed h [] tl.initial none
  rwa [List.append_nil] at hpassed

/-- A point is inserted after those that are not later and before those that are. -/
theorem insertPoint_append {p : Point α} {passed ahead : List (Point α)}
    (hpassed : ∀ q ∈ passed, ¬p.time < q.time) (hahead : ∀ q ∈ ahead, p.time < q.time) :
    insertPoint p (passed ++ ahead) = passed ++ p :: ahead := by
  induction passed with
  | nil =>
    cases ahead with
    | nil => rfl
    | cons q ahead => exact if_pos (hahead q List.mem_cons_self)
  | cons q passed ih =>
    rw [List.cons_append, insertPoint, if_neg (hpassed q List.mem_cons_self),
      ih fun r hr => hpassed r (List.mem_cons_of_mem _ hr)]
    rfl

/-- A point that is not earlier than the others comes last. -/
theorem insertPoint_eq_append {p : Point α} {points : List (Point α)}
    (h : ∀ q ∈ points, ¬p.time < q.time) : insertPoint p points = points ++ [p] := by
  have hinserted := insertPoint_append h (List.forall_mem_nil fun q : Point α => p.time < q.time)
  rwa [List.append_nil] at hinserted

/-- The ramp from the present value to another one, which it reaches at `stop`. -/
def ramp (tl : Timeline α) (now value stop : α) : Timeline α :=
  (tl.apply now (.set (tl.valueAt now) now)).apply now (.linear value stop)

omit [Scalar α] in
theorem rest_of_append {tl : Timeline α} {points : List (Point α)} {p : Point α}
    (h : tl.points = points ++ [p]) : tl.rest = p.value := by
  unfold rest
  rw [h, List.getLast?_concat]
  rfl

theorem past_concat {tl tl' : Timeline α} {now : α} {p : Point α} (h : tl.Past now)
    (hpoints : tl'.points = tl.points ++ [p]) (hp : p.time ≤ now) : tl'.Past now := by
  intro q hq
  rw [hpoints] at hq
  rcases List.mem_append.mp hq with hq | hq
  · exact h q hq
  · rw [List.mem_singleton.mp hq]
    exact hp

section

variable [Scalar.Ordered α] {tl : Timeline α} {now : α}

theorem Past.mono (h : tl.Past now) {t : α} (ht : now ≤ t) : tl.Past t :=
  fun q hq => Scalar.Ordered.le_trans (h q hq) ht

/-- A point that is not earlier than the others comes after them. -/
theorem Past.points_insert {p : Point α} (h : tl.Past p.time) :
    (tl.insert p).points = tl.points ++ [p] :=
  insertPoint_eq_append fun q hq => Scalar.Ordered.not_lt_of_le (h q hq)

/-- A ramp that begins after all points comes after them. -/
theorem points_ramp_of_past (h : tl.Past now) {stop : α} (hstop : now ≤ stop) (value : α) :
    (tl.ramp now value stop).points =
      tl.points ++ [⟨.set, tl.valueAt now, now, now⟩, ⟨.linear, value, stop, now⟩] := by
  have hset : (tl.apply now (.set (tl.valueAt now) now)).points =
      tl.points ++ [⟨.set, tl.valueAt now, now, now⟩] := Past.points_insert h
  have hpast : (tl.apply now (.set (tl.valueAt now) now)).Past stop :=
    past_concat (h.mono hstop) hset hstop
  refine (Past.points_insert (p := ⟨.linear, value, stop, now⟩) hpast).trans ?_
  rw [hset, List.append_assoc]
  rfl

/-- A ramp that begins after all points comes to rest at its target. -/
theorem rest_ramp (h : tl.Past now) {stop : α} (hstop : now ≤ stop) (value : α) :
    (tl.ramp now value stop).rest = value := by
  have hpoints : (tl.ramp now value stop).points =
      (tl.points ++ [⟨.set, tl.valueAt now, now, now⟩]) ++ [⟨.linear, value, stop, now⟩] := by
    rw [points_ramp_of_past h hstop, List.append_assoc]
    rfl
  exact rest_of_append hpoints

/-- From its end on, a ramp that begins after all points has its target as the value. -/
theorem valueAt_ramp_of_past (h : tl.Past now) {stop t : α} (hstop : now ≤ stop) (ht : stop ≤ t)
    (value : α) : (tl.ramp now value stop).valueAt t = value := by
  refine (valueAt_of_past fun p hp => ?_).trans (rest_ramp h hstop value)
  rw [points_ramp_of_past h hstop, List.mem_append] at hp
  rcases hp with hp | hp
  · exact Scalar.Ordered.le_trans (h.mono hstop p hp) ht
  · rcases List.mem_pair.mp hp with rfl | rfl
    · exact Scalar.Ordered.le_trans hstop ht
    · exact ht

end

end Timeline

/-- Changing the course of a parameter changes the course that is looked up for it. -/
theorem Primitive.timeline?_mapTimeline (p : Primitive α) (param : Param)
    (f : Timeline α → Timeline α) :
    (p.mapTimeline param f).timeline? param = (p.timeline? param).map f := by
  unfold timeline? mapTimeline
  rw [List.find?_map]
  show Option.map _ (Option.map _ (p.timelines.find? fun entry => entry.1 == param)) = _
  cases hfound : p.timelines.find? (·.1 == param) with
  | none => rfl
  | some entry =>
    have hparam : entry.1 = param := by simpa using List.find?_some hfound
    simp [hparam]

/-- The other parameters keep their courses. -/
theorem Primitive.timeline?_mapTimeline_of_ne (p : Primitive α) {param other : Param}
    (h : other ≠ param) (f : Timeline α → Timeline α) :
    (p.mapTimeline param f).timeline? other = p.timeline? other := by
  unfold timeline? mapTimeline
  rw [List.find?_map]
  show Option.map _ (Option.map _ (p.timelines.find? fun entry => entry.1 == other)) = _
  cases hfound : p.timelines.find? (·.1 == other) with
  | none => rfl
  | some entry =>
    have hother : entry.1 = other := by simpa using List.find?_some hfound
    simp [hother, h]

/-- A new primitive has no points yet. -/
theorem Primitive.points_new [Scalar α] {s : Setup α} {param : Param} {tl : Timeline α}
    (h : (Primitive.new s).timeline? param = some tl) : tl.points = [] := by
  obtain ⟨entry, hentry, rfl⟩ := Option.map_eq_some_iff.mp h
  have hmem : entry ∈ s.timelines := List.mem_of_find?_eq_some hentry
  obtain ⟨p, -, hp⟩ := List.mem_filterMap.mp hmem
  obtain ⟨first, -, rfl⟩ := Option.map_eq_some_iff.mp hp
  rfl

namespace Rack

/-- The course of a parameter. -/
def timeline? (rack : Rack α) (dial : Dial) : Option (Timeline α) :=
  (rack.primitive? dial.primitive).bind (·.timeline? dial.param)

/-- The parameter is there, and comes to rest at a value. -/
def RestsAt (rack : Rack α) (dial : Dial) (value : α) : Prop :=
  ∃ tl, rack.timeline? dial = some tl ∧ tl.rest = value

/-- The parameter stands as it stood with the same primitive. -/
theorem RestsAt.congr {rack rack' : Rack α} {dial : Dial} {value : α} (h : rack.RestsAt dial value)
    (hsame : rack'.primitive? dial.primitive = rack.primitive? dial.primitive) :
    rack'.RestsAt dial value := by
  obtain ⟨tl, htl, hrest⟩ := h
  exact ⟨tl, by rw [timeline?, hsame]; exact htl, hrest⟩

theorem RestsAt.lt_size {rack : Rack α} {dial : Dial} {value : α} (h : rack.RestsAt dial value) :
    dial.primitive < rack.primitives.size := by
  obtain ⟨tl, htl, -⟩ := h
  obtain ⟨p, hp, -⟩ := Option.bind_eq_some_iff.mp htl
  exact lt_size_of_primitive? hp

/-- A change that leaves the courses of a primitive alone. -/
theorem timeline?_update (rack : Rack α) (id : PrimitiveId) {f : Primitive α → Primitive α}
    (hf : ∀ p, (f p).timelines = p.timelines) (dial : Dial) :
    (rack.update id f).timeline? dial = rack.timeline? dial := by
  unfold timeline?
  rw [primitive?_update]
  split
  next =>
    rw [Option.bind_map]
    congr 1
    funext p
    unfold Primitive.timeline?
    rw [Function.comp_apply, hf p]
  next => rfl

/-- Patching leaves the courses of parameters alone. -/
theorem timeline?_connect (rack : Rack α) (source : PrimitiveId) (inlet : Inlet) (dial : Dial) :
    (rack.connect source inlet).timeline? dial = rack.timeline? dial := by
  refine rack.timeline?_update source ?_ dial
  exact fun _ => rfl

variable [Scalar α]

/-- A new primitive has the courses of its setup. -/
theorem timeline?_add (rack : Rack α) (setup : Setup α) (dial : Dial) :
    (rack.add setup).timeline? dial =
      if dial.primitive = rack.primitives.size then (Primitive.new setup).timeline? dial.param
      else rack.timeline? dial := by
  unfold timeline?
  rw [primitive?_add]
  split <;> rfl

/-- Nothing is scheduled for a parameter that lies ahead. -/
def Still (rack : Rack α) (dial : Dial) : Prop := ∀ tl ∈ rack.timeline? dial, tl.Past rack.clock

instance (rack : Rack α) (dial : Dial) : Decidable (rack.Still dial) :=
  inferInstanceAs (Decidable (∀ tl ∈ rack.timeline? dial, tl.Past rack.clock))

theorem Still.congr {rack rack' : Rack α} {dial : Dial} (h : rack.Still dial)
    (hsame : rack'.primitive? dial.primitive = rack.primitive? dial.primitive)
    (hclock : rack'.clock = rack.clock) : rack'.Still dial := by
  unfold Still timeline? at h ⊢
  rw [hsame, hclock]
  exact h

/-- A cue goes to the parameter it is scheduled for. -/
theorem timeline?_schedule (rack : Rack α) (dial : Dial) (cue : Cue α) :
    (rack.schedule dial cue).timeline? dial =
      (rack.timeline? dial).map (·.apply rack.clock cue) := by
  unfold timeline? schedule
  rw [primitive?_update, if_pos rfl, Option.bind_map, Option.map_bind]
  congr 1
  funext p
  exact p.timeline?_mapTimeline dial.param _

/-- A cue does not go to other parameters. -/
theorem timeline?_schedule_of_ne (rack : Rack α) {dial other : Dial} (h : other ≠ dial)
    (cue : Cue α) : (rack.schedule dial cue).timeline? other = rack.timeline? other := by
  unfold timeline? schedule
  rw [primitive?_update]
  split
  next hprimitive =>
    have hparam : other.param ≠ dial.param := fun hparam =>
      h (by cases other; cases dial; exact congr (congrArg Dial.mk hprimitive.symm) hparam)
    rw [Option.bind_map]
    congr 1
    funext p
    exact p.timeline?_mapTimeline_of_ne hparam _
  next => rfl

/-- A parameter that is there has the values of its course. -/
theorem valueAt_of_timeline? {rack : Rack α} {dial : Dial} {tl : Timeline α}
    (h : rack.timeline? dial = some tl) (t : α) : rack.valueAt dial t = tl.valueAt t := by
  unfold valueAt
  rw [← timeline?, h]

/-- A parameter that is there is moved from the value of its course. -/
theorem timeline?_rampTo {rack : Rack α} {dial : Dial} {tl : Timeline α}
    (h : rack.timeline? dial = some tl) (value duration : α) :
    (rack.rampTo dial value duration).timeline? dial =
      some (tl.ramp rack.clock value (rack.clock + duration)) := by
  have hheld : rack.valueNow dial = tl.valueAt rack.clock := valueAt_of_timeline? h rack.clock
  unfold rampTo
  rw [timeline?_schedule, timeline?_schedule, h, hheld]
  rfl

theorem RestsAt.valueNow {rack : Rack α} {dial : Dial} {value : α} (h : rack.RestsAt dial value)
    (hstill : rack.Still dial) : rack.valueNow dial = value := by
  obtain ⟨tl, htl, rfl⟩ := h
  exact (valueAt_of_timeline? htl rack.clock).trans (Timeline.valueAt_of_past (hstill tl htl))

/-- A ramp that begins when the one before it is over comes to rest at its target. -/
theorem RestsAt.rampTo [Scalar.Ordered α] {rack : Rack α} {dial : Dial} {before : α}
    (h : rack.RestsAt dial before) (hstill : rack.Still dial) {length : α}
    (hlength : rack.clock ≤ rack.clock + length) (value : α) :
    (rack.rampTo dial value length).RestsAt dial value := by
  obtain ⟨tl, htl, -⟩ := h
  exact ⟨_, timeline?_rampTo htl value length,
    Timeline.rest_ramp (hstill tl htl) hlength value⟩

end Rack

end Patchbay
