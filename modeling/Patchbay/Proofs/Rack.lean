import Patchbay.Proofs.Patch.Steps
/-!
# Changes to racks

What is done to a rack falls into three sorts. It grows at its end and what was added is worked on
(`Rack.Extends`); some of its primitives are automated, started or stopped (`Rack.Played`); or some
are released. Each sort says what it leaves alone, and what becomes of the primitives that are not
released (`Rack.unreleased`).
-/

namespace Patchbay.Rack

variable {α : Type}

/-! ## Looking primitives up -/

theorem primitive?_update (rack : Rack α) (id : PrimitiveId) (f : Primitive α → Primitive α)
    (other : PrimitiveId) :
    (rack.update id f).primitive? other =
      if id = other then (rack.primitive? other).map f else rack.primitive? other := by
  unfold primitive? update
  rw [Array.getElem?_modify]

theorem primitive?_update_of_ne (rack : Rack α) {id other : PrimitiveId} (h : id ≠ other)
    (f : Primitive α → Primitive α) :
    (rack.update id f).primitive? other = rack.primitive? other := by
  rw [primitive?_update, if_neg h]

theorem primitive?_add [Scalar α] (rack : Rack α) (setup : Setup α) (id : PrimitiveId) :
    (rack.add setup).primitive? id =
      if id = rack.primitives.size then some (.new setup) else rack.primitive? id := by
  unfold primitive? add
  rw [Array.getElem?_push]

/-- A primitive that is not refused gets the next place. -/
theorem create_eq_ok [Scalar α] {rack rack' : Rack α} {setup : Setup α} {id : PrimitiveId} :
    rack.create setup = .ok (id, rack') ↔
      setup.family ∉ rack.refused ∧ id = rack.primitives.size ∧ rack' = rack.add setup := by
  unfold create
  by_cases hrefused : setup.family ∈ rack.refused
  · simp [hrefused]
  · simp [hrefused, eq_comm]

theorem lt_size_of_primitive? {rack : Rack α} {id : PrimitiveId} {p : Primitive α}
    (h : rack.primitive? id = some p) : id < rack.primitives.size :=
  (Array.getElem?_eq_some_iff.mp h).1

theorem exists_primitive? {rack : Rack α} {id : PrimitiveId} (h : id < rack.primitives.size) :
    ∃ p, rack.primitive? id = some p :=
  ⟨_, Array.getElem?_eq_getElem h⟩

/-- Releasing changes exactly the primitives that are named. -/
theorem primitive?_releaseAll (rack : Rack α) (ids : List PrimitiveId) (id : PrimitiveId) :
    (rack.releaseAll ids).primitive? id =
      if id ∈ ids then (rack.primitive? id).map fun p => { p with outputs := [], released := true }
      else rack.primitive? id := by
  induction ids generalizing rack with
  | nil => rfl
  | cons first ids ih =>
    show ((rack.release first).releaseAll ids).primitive? id = _
    rw [ih, release, primitive?_update]
    rcases eq_or_ne first id with rfl | hfirst
    · by_cases hid : first ∈ ids <;> simp [hid, Function.comp_def]
    · simp [hfirst, hfirst.symm]

theorem size_releaseAll (rack : Rack α) (ids : List PrimitiveId) :
    (rack.releaseAll ids).primitives.size = rack.primitives.size := by
  induction ids generalizing rack with
  | nil => rfl
  | cons first ids ih => exact (ih (rack.release first)).trans (size_update rack first _)

/-! ## Growing -/

/-- The second rack is the first with further primitives at its end. -/
structure Extends (rack rack' : Rack α) : Prop where
  rest : rack' = { rack with primitives := rack'.primitives }
  size : rack.primitives.size ≤ rack'.primitives.size
  kept : ∀ id < rack.primitives.size, rack'.primitive? id = rack.primitive? id

namespace Extends

variable {base rack : Rack α}

theorem refl (rack : Rack α) : rack.Extends rack := ⟨rfl, Nat.le_refl _, fun _ _ => rfl⟩

theorem push [Scalar α] (h : base.Extends rack) (setup : Setup α) :
    base.Extends (rack.add setup) where
  rest := by rw [add, h.rest]
  size := by
    rw [add, Array.size_push]
    exact Nat.le_succ_of_le h.size
  kept id hid := by
    rw [primitive?_add, if_neg (Nat.ne_of_lt (Nat.lt_of_lt_of_le hid h.size)), h.kept id hid]

/-- What was added may be changed. -/
theorem change (h : base.Extends rack) {id : PrimitiveId} (hid : base.primitives.size ≤ id)
    (f : Primitive α → Primitive α) : base.Extends (rack.update id f) where
  rest := by rw [update, h.rest]
  size := (size_update rack id f).symm ▸ h.size
  kept other hother := by
    rw [primitive?_update_of_ne _ (Nat.ne_of_gt (Nat.lt_of_lt_of_le hother hid)),
      h.kept other hother]

/-- What was added may be released. -/
theorem releaseAll (h : base.Extends rack) {ids : List PrimitiveId}
    (hids : ∀ id ∈ ids, base.primitives.size ≤ id) : base.Extends (rack.releaseAll ids) := by
  induction ids generalizing rack with
  | nil => exact h
  | cons id ids ih =>
    exact ih (h.change (hids id List.mem_cons_self) _) fun other hother =>
      hids other (List.mem_cons_of_mem _ hother)

end Extends

/-! ## Playing -/

/-- Some primitives that may be touched were automated, started, stopped or patched, and none was
added or released. -/
structure Played (touched : PrimitiveId → Prop) (rack rack' : Rack α) : Prop where
  size : rack'.primitives.size = rack.primitives.size
  released : ∀ id, (rack'.primitive? id).map (·.released) = (rack.primitive? id).map (·.released)
  kept : ∀ id, ¬touched id → rack'.primitive? id = rack.primitive? id

namespace Played

variable {touched : PrimitiveId → Prop} {rack rack' rack'' : Rack α}

/-- What is done to the rack's clock and to what it refuses is not seen. -/
theorem of_primitives (h : rack'.primitives = rack.primitives) : Played touched rack rack' where
  size := by rw [h]
  released id := by rw [primitive?, h, ← primitive?]
  kept id _ := by rw [primitive?, h, ← primitive?]

theorem refl (touched : PrimitiveId → Prop) (rack : Rack α) : Played touched rack rack :=
  of_primitives rfl

theorem trans (h : Played touched rack rack') (h' : Played touched rack' rack'') :
    Played touched rack rack'' where
  size := h'.size.trans h.size
  released id := (h'.released id).trans (h.released id)
  kept id hid := (h'.kept id hid).trans (h.kept id hid)

/-- A change to one primitive that neither releases it nor takes its release back. -/
theorem of_update (rack : Rack α) {id : PrimitiveId} (hid : touched id)
    {f : Primitive α → Primitive α} (hf : ∀ p, (f p).released = p.released) :
    Played touched rack (rack.update id f) where
  size := size_update rack id f
  released other := by
    rw [primitive?_update]
    split
    next => rw [Option.map_map]; exact Option.map_congr fun p _ => hf p
    next => rfl
  kept other hother := primitive?_update_of_ne _ (fun heq : id = other => hother (heq ▸ hid)) _

theorem connect (rack : Rack α) {source : PrimitiveId} (hsource : touched source) (inlet : Inlet) :
    Played touched rack (rack.connect source inlet) :=
  .of_update rack hsource fun _ => rfl

theorem start (rack : Rack α) {id : PrimitiveId} (hid : touched id) (time : α) :
    Played touched rack (rack.start id time) :=
  .of_update rack hid fun _ => rfl

theorem stop (rack : Rack α) {id : PrimitiveId} (hid : touched id) (time : α) :
    Played touched rack (rack.stop id time) :=
  .of_update rack hid fun _ => rfl

/-- Playing one thing after another. -/
theorem foldl {τ : Type} {f : Rack α → τ → Rack α} {l : List τ}
    (hf : ∀ x ∈ l, ∀ rack, Played touched rack (f rack x)) (rack : Rack α) :
    Played touched rack (l.foldl f rack) := by
  induction l generalizing rack with
  | nil => exact .refl _ rack
  | cons x l ih =>
    exact (hf x List.mem_cons_self rack).trans
      (ih (fun y hy => hf y (List.mem_cons_of_mem _ hy)) (f rack x))

variable [Scalar α]

theorem schedule (rack : Rack α) {dial : Dial} (hdial : touched dial.primitive) (cue : Cue α) :
    Played touched rack (rack.schedule dial cue) :=
  .of_update rack hdial fun _ => rfl

theorem rampTo (rack : Rack α) {dial : Dial} (hdial : touched dial.primitive) (value length : α) :
    Played touched rack (rack.rampTo dial value length) :=
  (schedule rack hdial _).trans (schedule _ hdial _)

end Played

/-! ## What is not released -/

/-- The primitives that are not released, in the order of their places. -/
def unreleased (rack : Rack α) : List PrimitiveId :=
  (List.range rack.primitives.size).filter fun id => (rack.primitive? id).any (!·.released)

theorem nodup_unreleased (rack : Rack α) : rack.unreleased.Nodup :=
  List.nodup_range.filter _

theorem Played.unreleased_eq {touched : PrimitiveId → Prop} {rack rack' : Rack α}
    (h : Played touched rack rack') : rack'.unreleased = rack.unreleased := by
  unfold unreleased
  rw [h.size]
  refine List.filter_congr fun id _ => ?_
  have hreleased := h.released id
  cases hold : rack.primitive? id <;> cases hnew : rack'.primitive? id <;> simp_all

theorem unreleased_releaseAll (rack : Rack α) (ids : List PrimitiveId) :
    (rack.releaseAll ids).unreleased = rack.unreleased.filter (· ∉ ids) := by
  unfold unreleased
  rw [size_releaseAll, List.filter_filter]
  refine List.filter_congr fun id _ => ?_
  rw [primitive?_releaseAll]
  by_cases hid : id ∈ ids <;> cases rack.primitive? id <;> simp [hid]

/-- Of what was added all or nothing may be released. -/
theorem Extends.unreleased_eq {rack rack' : Rack α} (h : rack.Extends rack') {released : Bool}
    (hadded : ∀ id p, rack.primitives.size ≤ id → rack'.primitive? id = some p →
      p.released = released) :
    rack'.unreleased = rack.unreleased ++ if released then []
      else List.range' rack.primitives.size (rack'.primitives.size - rack.primitives.size) := by
  unfold unreleased
  obtain ⟨more, hmore⟩ := Nat.exists_eq_add_of_le h.size
  rw [hmore, List.range_eq_range', ← List.range'_append_1, List.filter_append, Nat.zero_add,
    Nat.add_sub_cancel_left, List.range_eq_range']
  congr 1
  · refine List.filter_congr fun id hid => ?_
    rw [h.kept id (by simpa using hid)]
  · have hall : ∀ id ∈ List.range' rack.primitives.size more,
        (rack'.primitive? id).any (!·.released) = !released := by
      intro id hid
      rw [List.mem_range'_1, ← hmore] at hid
      obtain ⟨p, hp⟩ := exists_primitive? hid.2
      rw [hp, Option.any_some, hadded id p hid.1 hp]
    cases released with
    | true => exact List.filter_eq_nil_iff.mpr fun id hid => by simp [hall id hid]
    | false => exact List.filter_eq_self.mpr fun id hid => by simp [hall id hid]

theorem unreleased_add [Scalar α] (rack : Rack α) (setup : Setup α) :
    (rack.add setup).unreleased = rack.unreleased ++ [rack.primitives.size] := by
  have hfresh : ∀ id p, rack.primitives.size ≤ id → (rack.add setup).primitive? id = some p →
      p.released = false := by
    intro id p hid hp
    rw [primitive?_add] at hp
    split at hp
    next => cases hp; rfl
    next => exact absurd (lt_size_of_primitive? hp) (Nat.not_lt_of_le hid)
  have hsize : (rack.add setup).primitives.size = rack.primitives.size + 1 := Array.size_push _
  rw [((Extends.refl rack).push setup).unreleased_eq hfresh, hsize, Nat.add_sub_cancel_left]
  rfl

end Patchbay.Rack
