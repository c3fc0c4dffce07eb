import Mathlib.Data.List.Nodup
import Patchbay.Graph.Panel
import Patchbay.Proofs.Except
/-!
# Panels hold accepted values

A panel is accepted when it holds exactly one value for each control of its kind and every value is
in its control's domain. The three ways to come by a panel, the standard values, a record of fields
and a changed control, give accepted panels only (`Panel.Made.accepted`).

That the standard values are in their domains is a fact about the numbers they are written in, so
it is asked of the scalars (`StandardsAccepted`); for binary64 it is computed.
-/

namespace Patchbay

variable {α : Type} [Scalar α]

/-! ## Domains -/

/-- The domain has no fault to find in the value. -/
def Control.Domain.Accepts (d : Control.Domain α) (v : Control.Value α) : Prop :=
  (d.fault? v).isNone

instance (d : Control.Domain α) (v : Control.Value α) : Decidable (d.Accepts v) :=
  inferInstanceAs (Decidable (_ = _))

theorem Control.Domain.accepts_iff {d : Control.Domain α} {v : Control.Value α} :
    d.Accepts v ↔ d.fault? v = none :=
  Option.isNone_iff_eq_none

theorem Control.Domain.accepts_number_iff {standard x : α} {range : Range α} :
    (Domain.number standard range).Accepts (.number x) ↔
      Scalar.isFinite x = true ∧ ¬(x < range.low ∨ range.high < x) := by
  rw [accepts_iff]
  show (if !Scalar.isFinite x then some _ else if x < range.low ∨ range.high < x then some _
    else none) = none ↔ _
  cases Scalar.isFinite x with
  | false => simp
  | true => by_cases hrange : x < range.low ∨ range.high < x <;> simp [hrange]

/-- What is read from a record is in the domain. -/
theorem Control.Domain.accepts_of_read {d : Control.Domain α} {written : Json}
    {v : Control.Value α} (h : d.read written = .ok v) : d.Accepts v := by
  unfold Control.Domain.read at h
  obtain ⟨v', _, h⟩ := bind_eq_ok.mp h
  split at h
  next => cases h
  next hnone =>
    cases h
    exact accepts_iff.mpr hnone

/-- No two controls of a kind share their name. -/
theorem Kind.controls_nodup (k : Kind) : ((k.controls (α := α)).map (·.key)).Nodup := by
  cases k <;>
    simp [Kind.controls, Kind.waveformControl, Kind.scaleControl, Kind.profileControl,
      Control.number, Control.ranged, Control.atLeast, Control.choice, Control.alive]

/-- Looking a control up by its name finds it. -/
theorem Kind.control?_eq_of_mem {k : Kind} {key : String} {c c' : Control α}
    (h : k.control? key = some c) (hc' : c' ∈ k.controls (α := α)) (hkey : c'.key = key) :
    c' = c := by
  have hc : c ∈ k.controls (α := α) := List.mem_of_find?_eq_some h
  have hckey : c.key = key := by simpa using List.find?_some h
  exact List.inj_on_of_nodup_map (Kind.controls_nodup k) hc' hc (hkey.trans hckey.symm)

/-- A control is found under its name. -/
theorem Kind.control?_of_mem {k : Kind} {c : Control α} (hc : c ∈ k.controls) :
    k.control? c.key = some c := by
  have hsome : (k.controls.find? (·.key == c.key)).isSome :=
    List.find?_isSome.mpr ⟨c, hc, beq_self_eq_true c.key⟩
  obtain ⟨c', hc'⟩ := Option.isSome_iff_exists.mp hsome
  obtain rfl := Kind.control?_eq_of_mem hc' hc rfl
  exact hc'

/-- The standard value of every control is in the control's domain. -/
class StandardsAccepted (α : Type) [Scalar α] : Prop where
  accepted : ∀ k : Kind, ∀ c ∈ k.controls (α := α), c.domain.Accepts c.domain.standardValue

instance : StandardsAccepted Float where
  accepted k := by cases k <;> decide +kernel

namespace Panel

/-! ## Panels -/

/-- One value for each control of the kind, each in the control's domain. -/
def Accepted (p : Panel α) : Prop :=
  List.Forall₂ (fun c v => c.domain.Accepts v) p.kind.controls p.values

theorem accepted_standard [StandardsAccepted α] (k : Kind) : (standard k : Panel α).Accepted := by
  show List.Forall₂ _ k.controls (k.controls.map _)
  rw [List.forall₂_map_right_iff, List.forall₂_same]
  exact StandardsAccepted.accepted k

/-- An accepted panel holds an accepted value for each control. -/
theorem Accepted.exists_get? {p : Panel α} (h : p.Accepted) {c : Control α}
    (hc : c ∈ p.kind.controls) : ∃ v, p.get? c.key = some v ∧ c.domain.Accepts v := by
  obtain ⟨i, hi, rfl⟩ := List.mem_iff_getElem.mp hc
  have hlength := h.length_eq
  have hi' : i < p.values.length := hlength ▸ hi
  have hentry : (p.kind.controls[i], p.values[i]) ∈ p.entries :=
    List.mem_iff_getElem.mpr ⟨i, by rw [entries, List.length_zip]; omega, List.getElem_zip⟩
  have hfound : (p.entries.find? (·.1.key == p.kind.controls[i].key)).isSome :=
    List.find?_isSome.mpr ⟨_, hentry, by simp⟩
  obtain ⟨⟨c, v⟩, hcv⟩ := Option.isSome_iff_exists.mp hfound
  have hmem : (c, v) ∈ p.kind.controls.zip p.values := List.mem_of_find?_eq_some hcv
  have hkey : c.key = p.kind.controls[i].key := by simpa using List.find?_some hcv
  have hsame : c = p.kind.controls[i] :=
    List.inj_on_of_nodup_map (Kind.controls_nodup p.kind) (List.of_mem_zip hmem).1 hc hkey
  refine ⟨v, by rw [get?, hcv]; rfl, ?_⟩
  rw [← hsame]
  exact (List.forall₂_iff_zip.mp h).2 hmem

/-- An accepted panel holds a number in the range of a control for numbers. -/
theorem Accepted.accepts_number {panel : Panel α} (h : panel.Accepted)
    {c : Control α} (hc : c ∈ panel.kind.controls) {standard : α} {range : Range α}
    (hdomain : c.domain = .number standard range) :
    (Control.Domain.number standard range).Accepts (.number (panel.number c.key)) := by
  obtain ⟨v, hv, haccepts⟩ := h.exists_get? hc
  rw [hdomain] at haccepts
  cases v with
  | number x =>
    have hnumber : panel.number c.key = x := by
      unfold number
      rw [hv]
      rfl
    rwa [hnumber]
  | choice name => cases haccepts
  | profile p => cases haccepts

/-- An accepted amplitude is not below the least one, so the greater of the two is the amplitude,
when finite numbers are equal to themselves. -/
theorem Accepted.greatest_amp_of_beq_self {panel : Panel α} (h : panel.Accepted)
    (hkind : panel.kind = .clip) (hself : ∀ x : α, Scalar.isFinite x = true → (x == x) = true) :
    Scalar.greatest (panel.number "amp") Kind.leastClip = panel.number "amp" := by
  obtain ⟨hfinite, hrange⟩ := Control.Domain.accepts_number_iff.mp <|
    h.accepts_number (c := .atLeast "amp" "Amplitude" 1.0 Kind.leastClip)
      (by rw [hkind]; exact List.mem_singleton_self _) rfl
  have hequal : (panel.number "amp" == panel.number "amp") = true := hself _ hfinite
  have hleast : ¬panel.number "amp" < Kind.leastClip := fun hlt => hrange (.inl hlt)
  rw [Scalar.greatest, if_pos hequal, if_neg hleast]

/-- One field gives an accepted value: what is written, or the standard value. -/
theorem accepts_of_readField [StandardsAccepted α] {k : Kind} {fields : List (String × Json)}
    {c : Control α} {v : Control.Value α} (hc : c ∈ k.controls)
    (h : readField k fields c = .ok v) : c.domain.Accepts v := by
  unfold readField at h
  split at h
  next =>
    cases h
    exact StandardsAccepted.accepted k c hc
  next written _ =>
    cases hread : c.domain.read written with
    | error cause => rw [hread] at h; cases h
    | ok v' =>
      rw [hread] at h
      cases h
      exact Control.Domain.accepts_of_read hread

theorem accepted_of_ofData [StandardsAccepted α] {k : Kind} {data : Json} {p : Panel α}
    (h : ofData k data = .ok p) : p.kind = k ∧ p.Accepted := by
  unfold ofData at h
  split at h
  next => cases h; exact ⟨rfl, accepted_standard k⟩
  next fields =>
    obtain ⟨values, hvalues, h⟩ := bind_eq_ok.mp h
    cases h
    obtain ⟨hlength, hread⟩ := List.forall₂_iff_get.mp (forall₂_of_mapM_eq_ok hvalues)
    refine ⟨rfl, List.forall₂_iff_get.mpr ⟨hlength, fun i hi hi' => ?_⟩⟩
    exact accepts_of_readField (List.get_mem _ _) (hread i hi hi')
  next => cases h

/-- Changing a control changes no other thing about the kind. -/
theorem kind_of_set {p p' : Panel α} {key : String} {v : Control.Value α}
    (h : p.set key v = .ok p') : p'.kind = p.kind := by
  unfold set at h
  split at h
  next => cases h
  next =>
    split at h
    next => cases h
    next => cases h; rfl

/-- A control takes a value that it accepts. -/
theorem set_of_accepts {p : Panel α} {key : String} {control : Control α} {v : Control.Value α}
    (hcontrol : p.kind.control? key = some control) (h : control.domain.Accepts v) :
    p.set key v = .ok { p with
      values := p.entries.map fun entry => if entry.1.key == key then v else entry.2 } := by
  unfold set
  rw [hcontrol]
  dsimp only
  rw [Control.Domain.accepts_iff.mp h]

/-- A list beside its own pairs, changed in their second parts. -/
theorem zip_map_zip {σ τ : Type} (f : σ × τ → τ) :
    ∀ (l : List σ) (l' : List τ), l.zip ((l.zip l').map f) = (l.zip l').map fun p => (p.1, f p)
  | [], _ => rfl
  | _ :: _, [] => rfl
  | a :: l, b :: l' => by
    rw [List.zip_cons_cons, List.map_cons, List.map_cons, List.zip_cons_cons, zip_map_zip f l l']

/-- A control that was changed has the new value, and every other control the value it had. -/
theorem get?_set {p p' : Panel α} {key : String} {v : Control.Value α}
    (h : p.set key v = .ok p') (other : String) :
    p'.get? other = if other = key then (p.get? other).map fun _ => v else p.get? other := by
  unfold set at h
  split at h
  next => cases h
  next =>
    split at h
    next => cases h
    next =>
      cases h
      let changed : Control α × Control.Value α → Control.Value α :=
        fun entry => if entry.1.key == key then v else entry.2
      have hentries : entries ⟨p.kind, p.entries.map changed⟩ =
          p.entries.map fun entry => (entry.1, changed entry) := zip_map_zip changed _ _
      unfold get?
      rw [hentries, List.find?_map]
      show Option.map _ (Option.map _ (p.entries.find? fun entry => entry.1.key == other)) = _
      cases hfound : p.entries.find? (·.1.key == other) with
      | none => simp
      | some entry =>
        have hkey : entry.1.key = other := by simpa using List.find?_some hfound
        simp [changed, hkey]
        split <;> rfl

/-- Changing a control changes no other control. -/
theorem get?_of_set {p p' : Panel α} {key other : String} {v : Control.Value α}
    (h : p.set key v = .ok p') (hother : other ≠ key) : p'.get? other = p.get? other :=
  (get?_set h other).trans (if_neg hother)

/-- A value that was taken is one that its control accepts. -/
theorem accepts_of_set {p p' : Panel α} {key : String} {v : Control.Value α}
    (h : p.set key v = .ok p') :
    ∃ c ∈ p.kind.controls, c.key = key ∧ c.domain.Accepts v := by
  unfold set at h
  split at h
  next => cases h
  next c hc =>
    split at h
    next => cases h
    next hnone =>
      exact ⟨c, List.mem_of_find?_eq_some hc, by simpa using List.find?_some hc,
        Control.Domain.accepts_iff.mpr hnone⟩

/-- Values that are changed one by one stay right for what they are listed with. -/
theorem forall₂_zip_map {σ τ : Type} {R : σ → τ → Prop} {f : σ × τ → τ} {l : List σ}
    {l' : List τ} (h : List.Forall₂ R l l') (hf : ∀ a ∈ l, ∀ b, R a b → R a (f (a, b))) :
    List.Forall₂ R l ((l.zip l').map f) := by
  induction h with
  | nil => exact .nil
  | cons hab _ ih =>
    exact .cons (hf _ List.mem_cons_self _ hab)
      (ih fun a ha => hf a (List.mem_cons_of_mem _ ha))

theorem accepted_of_set {p p' : Panel α} {key : String} {v : Control.Value α}
    (hp : p.Accepted) (h : p.set key v = .ok p') : p'.Accepted := by
  unfold set at h
  split at h
  next => cases h
  next control hcontrol =>
    split at h
    next => cases h
    next hnone =>
      cases h
      refine forall₂_zip_map hp fun c hc old hold => ?_
      show c.domain.Accepts (if c.key == key then v else old)
      split
      next hkey =>
        rw [Kind.control?_eq_of_mem hcontrol hc (by simpa using hkey)]
        exact Control.Domain.accepts_iff.mpr hnone
      next => exact hold

/-- A panel as the operations on panels make it. -/
inductive Made : Panel α → Prop where
  | standard (k : Kind) : Made (.standard k)
  | ofData {k : Kind} {data : Json} {p : Panel α} (h : Panel.ofData k data = .ok p) : Made p
  | set {p p' : Panel α} {key : String} {v : Control.Value α} (hp : Made p)
    (h : p.set key v = .ok p') : Made p'

theorem Made.accepted [StandardsAccepted α] {p : Panel α} (h : p.Made) : p.Accepted := by
  induction h with
  | standard k => exact accepted_standard k
  | ofData h => exact (accepted_of_ofData h).2
  | set _ h ih => exact accepted_of_set ih h

end Panel

end Patchbay
