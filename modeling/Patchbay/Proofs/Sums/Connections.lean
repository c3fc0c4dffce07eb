import Mathlib.Algebra.Order.Monoid.WithTop
import Patchbay.Proofs.Sums.Standing
/-!
# What connections add up to

Without rounding, the value of a parameter with everything that is patched into it is a sum in which
the order does not count. What is unknown is `⊤`, which makes every sum unknown that it comes in
(`known_effectiveAt`). So a parameter whose socket takes over from the inline value has the sum of
the connections into the socket, each counted once (`Standing.known_effectiveAt`).
-/

namespace Patchbay

open Scalar.Exact (toReal)

variable {α : Type} [Scalar α] [Scalar.Exact α]

/-! ## Known values -/

/-- The real number that a value stands for, and `⊤` for a value that is not known. -/
noncomputable def known : Option α → WithTop ℝ
  | some x => (toReal x : ℝ)
  | none => ⊤

@[simp]
theorem known_some (x : α) : known (some x) = (toReal x : ℝ) := rfl

@[simp]
theorem known_none : known (none : Option α) = ⊤ := rfl

theorem known_eq_top {x : Option α} : known x = ⊤ ↔ x = none := by
  cases x with
  | none => simp
  | some x => simp

theorem known_eq_coe {x : Option α} {r : ℝ} : known x = r ↔ ∃ y, x = some y ∧ toReal y = r := by
  cases x with
  | none => simp
  | some x => simp

theorem toReal_map_eq {x y : Option α} : x.map toReal = y.map toReal ↔ known x = known y := by
  cases x with
  | none => cases y <;> simp
  | some x => cases y <;> simp

/-- A sum is unknown when one of its parts is. -/
theorem sum_known_eq_top {τ : Type} {f : τ → Option α} {l : List τ} :
    (l.map fun x => known (f x)).sum = ⊤ ↔ ∃ x ∈ l, f x = none := by
  induction l with
  | nil => simp
  | cons x l ih => simp [ih, known_eq_top]

theorem sum_known_eq_coe {τ : Type} {f : τ → Option α} {v : τ → α} {l : List τ}
    (h : ∀ x ∈ l, f x = some (v x)) :
    (l.map fun x => known (f x)).sum = ((l.map fun x => toReal (v x)).sum : ℝ) := by
  induction l with
  | nil => rfl
  | cons x l ih =>
    rw [List.map_cons, List.sum_cons, h x List.mem_cons_self,
      ih fun y hy => h y (List.mem_cons_of_mem _ hy), List.map_cons, List.sum_cons]
    rfl

namespace Rack

variable {rack : Rack α} {output? : PrimitiveId → Option α}

theorem known_sumOutputs (start : α) (ids : List PrimitiveId) :
    known (sumOutputs output? start ids) =
      ((toReal start : ℝ) : WithTop ℝ) + (ids.map fun id => known (output? id)).sum := by
  unfold sumOutputs
  induction ids generalizing start with
  | nil => simp
  | cons id ids ih =>
    rw [List.foldlM_cons, List.map_cons, List.sum_cons]
    cases output? id with
    | none => simp
    | some x =>
      refine (ih (start + x)).trans ?_
      rw [Scalar.Exact.toReal_add, WithTop.coe_add, add_assoc]
      rfl

/-- The value of a parameter is the sum of what is scheduled and of what is patched in. -/
theorem known_effectiveAt (rack : Rack α) (dial : Dial) (t : α) :
    known (rack.effectiveAt dial t) = ((toReal (rack.valueAt dial t) : ℝ) : WithTop ℝ) +
      ((rack.inputsOf (.dial dial)).map fun id => known (rack.outputAt id t)).sum :=
  known_sumOutputs _ _

/-- What is known of a product depends on what is known of its factors. -/
theorem known_product {x x' y y' : Option α} (hx : known x = known x') (hy : known y = known y') :
    known (do return (← x) * (← y)) = known (do return (← x') * (← y')) := by
  rw [← toReal_map_eq] at hx hy ⊢
  cases x <;> cases x' <;> simp at hx <;> cases y <;> cases y' <;> simp at hy ⊢
  rw [Scalar.Exact.toReal_mul, Scalar.Exact.toReal_mul, hx, hy]

/-- Primitives in the same state, on which the same is patched, have the same output. -/
theorem known_outputBy_congr {rack rack' : Rack α} {q q' : PrimitiveId} {t : α}
    {output? output?' : PrimitiveId → Option α}
    (hstate : (rack.primitive? q).map (·.stateAt t) = (rack'.primitive? q').map (·.stateAt t))
    (hinput : known (sumOutputs output? 0.0 (rack.inputsOf (.input q))) =
      known (sumOutputs output?' 0.0 (rack'.inputsOf (.input q'))))
    (hdial : ∀ param, known (rack.effectiveBy t output? ⟨q, param⟩) =
      known (rack'.effectiveBy t output?' ⟨q', param⟩)) :
    known (rack.outputBy t output? q) = known (rack'.outputBy t output?' q') := by
  unfold outputBy
  cases hp : rack.primitive? q with
  | none =>
    rw [hp, Option.map_none, eq_comm, Option.map_eq_none_iff] at hstate
    rw [hstate]
    rfl
  | some p =>
    rw [hp, Option.map_some, eq_comm] at hstate
    obtain ⟨p', hp', hsame⟩ := Option.map_eq_some_iff.mp hstate
    have hfamily : p'.family = p.family := by
      have hbare : p'.setup.bare = p.setup.bare := congrArg Primitive.State.setup hsame
      rw [Primitive.family, Primitive.family, ← p'.setup.family_bare, hbare, Setup.family_bare]
    rw [hp']
    dsimp only [Option.bind_eq_bind, Option.bind_some]
    rw [hfamily]
    cases p.family with
    | constantSource => exact hdial .offset
    | gain => exact known_product hinput (hdial .gain)
    | _ => rfl

end Rack

/-! ## Sockets that take over -/

/-- Connections into a socket that adds up lead to the parameter that it drives. -/
theorem Kind.inletsAt_of_additive {k : Kind} {s : Socket} (hs : s ∈ k.inputs)
    (hcombine : s.combine = .additive) (master first : PrimitiveId) :
    k.inletsAt master first s.name = [.dial ⟨first, drivenBy s.name⟩] := by
  unfold inletsAt
  rw [input?_eq_some_iff.mpr ⟨hs, rfl⟩]
  exact inlets_of_inline hs (inline_of_replaces hs ▸ hcombine ▸ rfl) master first

/-- The kinds whose parameters are driven by one socket each. -/
def Kind.isDriven : Kind → Bool
  | gain | biquadFilter | delay => true
  | _ => false

theorem Kind.drivenBy_inj {k : Kind} (hk : k.isDriven = true) {s s' : Socket} (hs : s ∈ k.inputs)
    (hs' : s' ∈ k.inputs) (hsignal : s.combine ≠ .signal) (hsignal' : s'.combine ≠ .signal)
    (h : drivenBy s'.name = drivenBy s.name) : s' = s := by
  revert hsignal hsignal' h
  cases k <;> cases hk
  all_goals
    simp only [inputs] at hs hs'
    fin_cases hs <;> fin_cases hs'
  all_goals decide

theorem Kind.signal_of_isDriven {k : Kind} (hk : k.isDriven = true) :
    signalOut ∈ k.outputs ∧ k.outlet = 0 := by
  revert hk
  cases k <;> decide

theorem Kind.isDriven_of_additive {k : Kind} {s : Socket} (hs : s ∈ k.inputs)
    (hcombine : s.combine = .additive) : k.isDriven = true := by
  revert hcombine
  cases k
  all_goals
    simp only [inputs] at hs
    fin_cases hs
  all_goals decide

namespace Graph.Standing

variable {g : Graph α} {m : Mixer α} {patch : Patch α} {order : List (Node α)} {rack : Rack α}
  {n : Node α} {s : Socket} {t : α}

omit [Scalar.Exact α] in
/-- The primitives patched into a parameter that one socket drives are those behind the connections
into the socket, each once. -/
theorem inputsOf_perm (h : g.Standing m patch order rack) (hn : n ∈ order)
    (hdriven : n.kind.isDriven = true) (hs : s ∈ n.kind.inputs)
    (hreplaces : s.combine.replaces = true) :
    (rack.inputsOf
        (.dial ⟨firstIn order m.rack.primitives.size n.id, Kind.drivenBy s.name⟩)).Perm
      ((g.feeding n.id s.name).map (g.handle (firstIn order m.rack.primitives.size))) := by
  have hinline := (Kind.inline_of_replaces hs).symm.trans hreplaces
  have hsignal := Kind.ne_signal_of_inline hs hinline
  refine (List.perm_ext_iff_of_nodup (rack.nodup_inputsOf _) (h.nodup_handles hn s.name)).mpr
    fun q => ?_
  rw [h.mem_inputsOf_dial hn hs hinline, List.mem_map]
  constructor
  · rintro ⟨s', hs', hsignal', hdrives, c, hc, hq⟩
    exact ⟨c, Kind.drivenBy_inj hdriven hs hs' hsignal hsignal' hdrives ▸ hc, hq⟩
  · rintro ⟨c, hc, hq⟩
    exact ⟨s, hs, hsignal, rfl, c, hc, hq⟩

/-- A parameter whose socket has connections has the sum of these. -/
theorem known_effectiveAt (h : g.Standing m patch order rack) (hn : n ∈ order)
    (hdriven : n.kind.isDriven = true) (hs : s ∈ n.kind.inputs)
    (hreplaces : s.combine.replaces = true) (hfed : g.feeding n.id s.name ≠ [])
    (ht : m.rack.clock ≤ t) :
    known (rack.effectiveAt
        ⟨firstIn order m.rack.primitives.size n.id, Kind.drivenBy s.name⟩ t) =
      ((g.feeding n.id s.name).map fun c =>
        known (rack.outputAt (g.handle (firstIn order m.rack.primitives.size) c) t)).sum := by
  have hinline := (Kind.inline_of_replaces hs).symm.trans hreplaces
  rw [Rack.known_effectiveAt, h.valueAt_eq hn hs hinline ht, levelOf,
    if_pos (feeding_ne_nil.mp hfed), Scalar.Exact.toReal_zero, WithTop.coe_zero, zero_add,
    ((h.inputsOf_perm hn hdriven hs hreplaces).map _).sum_eq, List.map_map]
  rfl

/-- It is known just when these are, and then it is their sum. -/
theorem effectiveAt_sum (h : g.Standing m patch order rack) (hn : n ∈ order)
    (hdriven : n.kind.isDriven = true) (hs : s ∈ n.kind.inputs)
    (hreplaces : s.combine.replaces = true) (hfed : g.feeding n.id s.name ≠ [])
    (ht : m.rack.clock ≤ t) :
    let dial : Dial := ⟨firstIn order m.rack.primitives.size n.id, Kind.drivenBy s.name⟩
    let source := g.handle (firstIn order m.rack.primitives.size)
    (∀ v : Connection → α,
      (∀ c ∈ g.feeding n.id s.name, rack.outputAt (source c) t = some (v c)) →
      ∃ x, rack.effectiveAt dial t = some x ∧
        toReal x = ((g.feeding n.id s.name).map fun c => toReal (v c)).sum) ∧
    (rack.effectiveAt dial t = none ↔
      ∃ c ∈ g.feeding n.id s.name, rack.outputAt (source c) t = none) := by
  have hsum := h.known_effectiveAt hn hdriven hs hreplaces hfed ht
  refine ⟨fun v hv => ?_, ?_⟩
  · rw [sum_known_eq_coe hv] at hsum
    exact known_eq_coe.mp hsum
  · rw [← known_eq_top, hsum, sum_known_eq_top]

end Graph.Standing

end Patchbay
