import Patchbay.Patch.Assembly
import Patchbay.Proofs.Except
/-!
# Carrying out steps

What a list of steps does to an assembly can be read off the list: the primitives it creates, with
the numbers that follow the rack's, and the wires it patches (`Ran`). The only thing that can stop
it is a family that the rack refuses (`exists_refused_of_run`).
-/

namespace Patchbay

variable {α : Type}

/-! ## Wires on a rack -/

/-- The primitive that an inlet belongs to. -/
def Inlet.place : Inlet → PrimitiveId
  | .input id => id
  | .dial d => d.primitive

namespace Rack

/-- The inlets that a primitive is patched into. -/
def outputsOf (rack : Rack α) (id : PrimitiveId) : List Inlet :=
  ((rack.primitive? id).map (·.outputs)).getD []

theorem size_update (rack : Rack α) (id : PrimitiveId) (f : Primitive α → Primitive α) :
    (rack.update id f).primitives.size = rack.primitives.size :=
  Array.size_modify

/-- A change that leaves the outputs of a primitive alone. -/
theorem outputsOf_update_of_outputs (rack : Rack α) (id : PrimitiveId)
    {f : Primitive α → Primitive α} (hf : ∀ p, (f p).outputs = p.outputs) (other : PrimitiveId) :
    (rack.update id f).outputsOf other = rack.outputsOf other := by
  unfold outputsOf primitive? update
  rw [Array.getElem?_modify]
  split
  next => rw [Option.map_map]; exact congrArg (Option.getD · []) (Option.map_congr fun p _ => hf p)
  next => rfl

theorem outputsOf_connect (rack : Rack α) {source : PrimitiveId}
    (h : source < rack.primitives.size) (inlet : Inlet) (id : PrimitiveId) :
    (rack.connect source inlet).outputsOf id =
      rack.outputsOf id ++ (if source = id then [inlet] else []) := by
  unfold outputsOf primitive? connect update
  rw [Array.getElem?_modify]
  split
  next heq =>
    subst heq
    rw [Array.getElem?_eq_getElem h]
    rfl
  next => rw [List.append_nil]

variable [Scalar α]

/-- A new primitive is patched into nothing. -/
theorem outputsOf_add (rack : Rack α) (setup : Setup α) (id : PrimitiveId) :
    (rack.add setup).outputsOf id = rack.outputsOf id := by
  unfold outputsOf primitive? add
  rw [Array.getElem?_push]
  split
  next heq =>
    rw [heq, Array.getElem?_eq_none (Nat.le_refl _)]
    rfl
  next => rfl

theorem outputsOf_setValue (rack : Rack α) (dial : Dial) (value : α) (id : PrimitiveId) :
    (rack.setValue dial value).outputsOf id = rack.outputsOf id := by
  refine rack.outputsOf_update_of_outputs dial.primitive ?_ id
  exact fun _ => rfl

end Rack

/-! ## What steps create and patch -/

/-- Families with their numbers, counted from the first. -/
def numbered (first : PrimitiveId) (families : List Family) : List (PrimitiveId × Family) :=
  (families.zipIdx first).map Prod.swap

theorem numbered_append (first : PrimitiveId) (l l' : List Family) :
    numbered first (l ++ l') = numbered first l ++ numbered (first + l.length) l' := by
  unfold numbered
  rw [List.zipIdx_append, List.map_append]

theorem length_numbered (first : PrimitiveId) (l : List Family) :
    (numbered first l).length = l.length := by
  simp [numbered]

theorem map_fst_numbered (first : PrimitiveId) (l : List Family) :
    (numbered first l).map (·.1) = List.range' first l.length := by
  unfold numbered
  rw [List.map_map]
  exact List.zipIdx_map_snd first l

namespace Step

/-- The family of the primitive that a step creates. -/
def family? : Step α → Option Family
  | create setup => some setup.family
  | _ => none

/-- The wire that a step patches. -/
def wire? : Step α → Option (PrimitiveId × Inlet)
  | connect source inlet => some (source, inlet)
  | _ => none

/-- The families of the primitives that steps create, in order. -/
def families (steps : List (Step α)) : List Family := steps.filterMap family?

/-- The wires that steps patch, in order. -/
def wires (steps : List (Step α)) : List (PrimitiveId × Inlet) := steps.filterMap wire?

/-- With `size` primitives on the rack no step patches from a primitive that is not there yet. -/
def Grounded : (size : Nat) → List (Step α) → Prop
  | _, [] => True
  | size, create _ :: steps => Grounded (size + 1) steps
  | size, connect source _ :: steps => source < size ∧ Grounded size steps
  | size, setValue .. :: steps | size, register _ :: steps | size, bind .. :: steps =>
    Grounded size steps

@[simp]
theorem families_append (l l' : List (Step α)) : families (l ++ l') = families l ++ families l' :=
  List.filterMap_append

@[simp]
theorem wires_append (l l' : List (Step α)) : wires (l ++ l') = wires l ++ wires l' :=
  List.filterMap_append

@[simp]
theorem grounded_append {size : Nat} {l l' : List (Step α)} :
    Grounded size (l ++ l') ↔ Grounded size l ∧ Grounded (size + (families l).length) l' := by
  induction l generalizing size with
  | nil => simp [Grounded, families]
  | cons step l ih =>
    cases step with
    | create setup =>
      -- only a creation adds to what may be patched from
      simp only [List.cons_append, Grounded, ih, families, List.filterMap_cons, family?,
        List.length_cons]
      rw [Nat.add_right_comm, Nat.add_assoc size]
    | connect source inlet => simp only [List.cons_append, Grounded, ih, and_assoc]; rfl
    | setValue dial value => exact ih
    | register profile => exact ih
    | bind key bound => exact ih

end Step

/-! ## Runs -/

namespace Assembly

/-- What steps that were carried out did. -/
structure Ran (a : Assembly α) (steps : List (Step α)) (a' : Assembly α) : Prop where
  parts : a'.parts = a.parts
  refused : a'.rack.refused = a.rack.refused
  accepted : ∀ f ∈ Step.families steps, f ∉ a.rack.refused
  size : a'.rack.primitives.size = a.rack.primitives.size + (Step.families steps).length
  made : a'.made = a.made ++ numbered a.rack.primitives.size (Step.families steps)
  outputs : Step.Grounded a.rack.primitives.size steps → ∀ id,
    a'.rack.outputsOf id =
      a.rack.outputsOf id ++ ((Step.wires steps).filter (·.1 == id)).map (·.2)

theorem Ran.nil (a : Assembly α) : Ran a [] a where
  parts := rfl
  refused := rfl
  accepted _ hf := absurd hf List.not_mem_nil
  size := rfl
  made := (List.append_nil _).symm
  outputs _ _ := (List.append_nil _).symm

theorem Ran.append {a b c : Assembly α} {l l' : List (Step α)} (h : Ran a l b) (h' : Ran b l' c) :
    Ran a (l ++ l') c where
  parts := h'.parts.trans h.parts
  refused := h'.refused.trans h.refused
  accepted f hf := by
    rw [Step.families_append, List.mem_append] at hf
    rcases hf with hf | hf
    · exact h.accepted f hf
    · exact h.refused ▸ h'.accepted f hf
  size := by rw [h'.size, h.size, Step.families_append, List.length_append, Nat.add_assoc]
  made := by rw [h'.made, h.made, h.size, Step.families_append, numbered_append, List.append_assoc]
  outputs hgrounded id := by
    obtain ⟨hl, hl'⟩ := Step.grounded_append.mp hgrounded
    rw [h'.outputs (h.size ▸ hl') id, h.outputs hl id, Step.wires_append, List.filter_append,
      List.map_append, List.append_assoc]

variable [Scalar α]

/-- A primitive is created unless its family is refused. -/
theorem runStep_create_eq_ok {a b : Assembly α} {setup : Setup α} :
    a.runStep (.create setup) = .ok b ↔ setup.family ∉ a.rack.refused ∧ b = { a with
      rack := a.rack.add setup, made := a.made ++ [(a.rack.primitives.size, setup.family)] } := by
  unfold runStep Rack.create
  by_cases hrefused : setup.family ∈ a.rack.refused
  · simp [hrefused]
  · simp [hrefused, eq_comm]

theorem ran_of_runStep {a a' : Assembly α} {step : Step α} (h : a.runStep step = .ok a') :
    Ran a [step] a' := by
  cases step with
  | create setup =>
    obtain ⟨hrefused, rfl⟩ := runStep_create_eq_ok.mp h
    refine ⟨rfl, rfl, fun f hf => ?_, Array.size_push _, rfl, fun _ id => ?_⟩
    · rw [List.mem_singleton.mp hf]
      exact hrefused
    · rw [Rack.outputsOf_add]
      exact (List.append_nil _).symm
  | connect source inlet =>
    cases h
    refine ⟨rfl, rfl, fun _ hf => absurd hf List.not_mem_nil, Rack.size_update _ _ _,
      (List.append_nil _).symm, fun hgrounded id => ?_⟩
    rw [Rack.outputsOf_connect _ hgrounded.1]
    by_cases heq : source = id <;> simp [Step.wires, Step.wire?, heq]
  | setValue dial value =>
    cases h
    refine ⟨rfl, rfl, fun _ hf => absurd hf List.not_mem_nil, Rack.size_update _ _ _,
      (List.append_nil _).symm, fun _ id => ?_⟩
    rw [Rack.outputsOf_setValue]
    exact (List.append_nil _).symm
  | register profile =>
    cases h
    exact ⟨rfl, rfl, fun _ hf => absurd hf List.not_mem_nil, rfl, (List.append_nil _).symm,
      fun _ _ => (List.append_nil _).symm⟩
  | bind key bound =>
    cases h
    exact ⟨rfl, rfl, fun _ hf => absurd hf List.not_mem_nil, rfl, (List.append_nil _).symm,
      fun _ _ => (List.append_nil _).symm⟩

theorem ran_of_run {a a' : Assembly α} {steps : List (Step α)}
    (h : steps.foldlM runStep a = .ok a') : Ran a steps a' := by
  induction steps generalizing a with
  | nil =>
    cases h
    exact .nil _
  | cons step steps ih =>
    rw [List.foldlM_cons] at h
    obtain ⟨b, hstep, hrest⟩ := bind_eq_ok.mp h
    exact (ran_of_runStep hstep).append (ih hrest)

/-- A step fails only when it creates a primitive of a refused family. -/
theorem exists_refused_of_runStep {a : Assembly α} {step : Step α} {stopped : Stopped α}
    (h : a.runStep step = .error stopped) :
    ∃ f ∈ Step.families [step], f ∈ a.rack.refused ∧ stopped.fault = .refused ⟨f⟩ := by
  cases step with
  | create setup =>
    unfold runStep Rack.create at h
    by_cases hrefused : setup.family ∈ a.rack.refused
    · simp only [hrefused, if_true] at h
      cases h
      exact ⟨setup.family, List.mem_singleton_self _, hrefused, rfl⟩
    · simp [hrefused] at h
  | connect source inlet => cases h
  | setValue dial value => cases h
  | register profile => cases h
  | bind key bound => cases h

/-- Steps fail only when they create a primitive of a refused family. -/
theorem exists_refused_of_run {a : Assembly α} {steps : List (Step α)} {stopped : Stopped α}
    (h : steps.foldlM runStep a = .error stopped) :
    ∃ f ∈ Step.families steps, f ∈ a.rack.refused ∧ stopped.fault = .refused ⟨f⟩ := by
  induction steps generalizing a with
  | nil => cases h
  | cons step steps ih =>
    rw [List.foldlM_cons] at h
    show ∃ f ∈ Step.families ([step] ++ steps), _
    rw [Step.families_append]
    rcases bind_eq_error.mp h with hstep | ⟨b, hstep, hrest⟩
    · obtain ⟨f, hf, hrefused, hfault⟩ := exists_refused_of_runStep hstep
      exact ⟨f, List.mem_append_left _ hf, hrefused, hfault⟩
    · obtain ⟨f, hf, hrefused, hfault⟩ := ih hrest
      exact ⟨f, List.mem_append_right _ hf, (ran_of_runStep hstep).refused ▸ hrefused, hfault⟩

end Assembly

end Patchbay
