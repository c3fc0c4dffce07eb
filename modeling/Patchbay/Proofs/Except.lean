import Mathlib.Data.List.Forall2
/-!
# Sequences of fallible steps

What is known of the parts when a sequence of steps that can fail ends well, and which part is to
blame when it does not.
-/

namespace Patchbay

variable {ε σ τ : Type}

theorem exists_eq_ok {x : Except ε σ} (h : x.toOption.isSome = true) : ∃ s, x = .ok s := by
  cases x with
  | error e => cases h
  | ok s => exact ⟨s, rfl⟩

/-- Two steps end well exactly when both do. -/
theorem bind_eq_ok {x : Except ε σ} {f : σ → Except ε τ} {t : τ} :
    (x >>= f) = .ok t ↔ ∃ s, x = .ok s ∧ f s = .ok t := by
  cases x with
  | error e => simp [bind, Except.bind]
  | ok s => simp [bind, Except.bind]

/-- Two steps fail when the first does, or when the second does after it. -/
theorem bind_eq_error {x : Except ε σ} {f : σ → Except ε τ} {e : ε} :
    (x >>= f) = .error e ↔ x = .error e ∨ ∃ s, x = .ok s ∧ f s = .error e := by
  cases x with
  | error e' => simp [bind, Except.bind]
  | ok s => simp [bind, Except.bind]

/-- A result that is passed on changed was there unchanged. -/
theorem map_eq_ok {x : Except ε σ} {f : σ → τ} {t : τ} :
    x.map f = .ok t ↔ ∃ s, x = .ok s ∧ f s = t := by
  cases x with
  | error e => simp [Except.map]
  | ok s => simp [Except.map]

theorem mapError_eq_ok {ε' : Type} {x : Except ε σ} {f : ε → ε'} {s : σ} :
    x.mapError f = .ok s ↔ x = .ok s := by
  cases x with
  | error e => simp [Except.mapError]
  | ok s' => simp [Except.mapError]

/-- Reading a list item by item gives one result for each item, in order. -/
theorem forall₂_of_mapM_eq_ok {f : σ → Except ε τ} :
    ∀ {l : List σ} {r : List τ}, l.mapM f = .ok r →
      List.Forall₂ (fun a b => f a = .ok b) l r
  | [], r, h => by
    rw [List.mapM_nil] at h
    cases h
    exact .nil
  | a :: l, r, h => by
    rw [List.mapM_cons] at h
    obtain ⟨b, hb, h⟩ := bind_eq_ok.mp h
    obtain ⟨bs, hbs, h⟩ := bind_eq_ok.mp h
    cases h
    exact .cons hb (forall₂_of_mapM_eq_ok hbs)

/-- When every item can be read so can the list. -/
theorem mapM_eq_ok_of_forall₂ {f : σ → Except ε τ} {l : List σ} {r : List τ}
    (h : List.Forall₂ (fun a b => f a = .ok b) l r) : l.mapM f = .ok r := by
  induction h with
  | nil => rfl
  | cons ha _ ih =>
    rw [List.mapM_cons, ha, ih]
    rfl

/-! ## Lists side by side -/

theorem map_eq_map_of_forall₂ {ρ : Type} {f : σ → ρ} {f' : τ → ρ} {l : List σ} {l' : List τ}
    (h : List.Forall₂ (fun a b => f a = f' b) l l') : l'.map f' = l.map f := by
  rw [← List.forall₂_eq_eq_eq, List.forall₂_map_left_iff, List.forall₂_map_right_iff]
  exact h.flip.imp fun _ _ heq => heq.symm

theorem exists_of_mem_forall₂ {R : σ → τ → Prop} {l : List σ} {l' : List τ}
    (h : List.Forall₂ R l l') {a : σ} (ha : a ∈ l) : ∃ b ∈ l', R a b := by
  induction h with
  | nil => cases ha
  | cons hab _ ih =>
    rcases List.mem_cons.mp ha with rfl | ha
    · exact ⟨_, List.mem_cons_self, hab⟩
    · obtain ⟨b, hb, hrel⟩ := ih ha
      exact ⟨b, List.mem_cons_of_mem _ hb, hrel⟩

end Patchbay
