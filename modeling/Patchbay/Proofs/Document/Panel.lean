import Patchbay.Proofs.Number.Whole
import Patchbay.Proofs.Panel
/-!
# Panels written and read back

The record that a panel is saved as gives the panel back (`Panel.ofData_toData`): every word and
every profile as it was, and every number as an equal number. A number that is whole is written as
an integer, so the sign of a zero is lost; everything else is kept, and what is written from the
panel that was read is the same record (`Panel.Same`, `Control.Domain.read_toJson`).
-/

namespace Patchbay

/-! ## Fields of records -/

namespace Json

theorem findField?_cons (name other : String) (value : Json) (fields : List (String × Json)) :
    findField? name ((other, value) :: fields) =
      if other = name then some value else findField? name fields := by
  unfold findField?
  rw [List.find?_cons]
  by_cases h : other = name
  · simp [h]
  · rw [if_neg h, beq_eq_false_iff_ne.mpr h]

/-- Wherever a field is put, it is found there and the others are found where they were. -/
theorem findField?_putField (name other : String) (value : Json) (fields : List (String × Json)) :
    findField? name (putField other value fields) =
      if other = name then some value else findField? name fields := by
  induction fields with
  | nil => exact findField?_cons ..
  | cons field fields ih =>
    obtain ⟨first, kept⟩ := field
    unfold putField
    split
    next => exact findField?_cons ..
    next =>
      split
      next heq =>
        rw [findField?_cons, findField?_cons]
        by_cases h : other = name
        · rw [if_pos h, if_pos h]
        · rw [if_neg h, if_neg h, if_neg (heq ▸ h)]
      next hne =>
        rw [findField?_cons, findField?_cons, ih]
        by_cases h : first = name
        · rw [if_pos h, if_pos h, if_neg (fun heq => hne (heq.trans h.symm))]
        · rw [if_neg h, if_neg h]

/-- A field is found among ordered fields when no two have its name. -/
theorem findField?_orderFields {fields : List (String × Json)} (h : (fields.map (·.1)).Nodup)
    {name : String} {value : Json} (hmem : (name, value) ∈ fields) :
    findField? name (orderFields fields) = some value := by
  induction fields using List.reverseRecOn with
  | nil => cases hmem
  | append_singleton fields field ih =>
    obtain ⟨last, kept⟩ := field
    rw [List.map_append, List.nodup_append] at h
    rw [orderFields, List.foldl_concat, findField?_putField]
    rcases List.mem_append.mp hmem with hmem | hmem
    · have hne : last ≠ name := fun heq =>
        h.2.2 name (List.mem_map_of_mem hmem) last (List.mem_singleton_self _) heq.symm
      rw [if_neg hne]
      exact ih h.1 hmem
    · cases List.mem_singleton.mp hmem
      rw [if_pos rfl]

end Json

/-! ## Profiles -/

/-- A profile is read as it was written. -/
theorem Profile.ofJson_toJson (p : Profile Float) : Profile.ofJson p.toJson = .ok p := by
  obtain ⟨attack, attackLength, decay, decayLength, sustain, sustainLength, releaseLength⟩ := p
  rfl

/-! ## Values -/

namespace Control

/-- The same word or profile, or equal numbers. -/
inductive Value.Same : Value Float → Value Float → Prop
  | number {x y : Float} : (x == y) = true → Same (.number x) (.number y)
  | choice (name : String) : Same (.choice name) (.choice name)
  | profile (p : Profile Float) : Same (.profile p) (.profile p)

theorem numberToJson_of_whole {x : Float} {n : Int} (h : Number.wholeValue? x = some n)
    (hn : n.natAbs < 9 * Nat.pow 10 15) : Value.numberToJson x = .number (.int n) := by
  rw [Value.numberToJson, h]
  exact if_pos hn

/-- What a finite number is written as is read as an equal number, which is written in the same
way. -/
theorem exists_of_numberToJson {x : Float} (hx : x.isFinite = true) :
    ∃ n y, Value.numberToJson x = .number n ∧ n.toFloat = y ∧ (y == x) = true ∧
      Value.numberToJson y = .number n := by
  have hfloat : Value.numberToJson x = .number (.float x) →
      ∃ n y, Value.numberToJson x = .number n ∧ n.toFloat = y ∧ (y == x) = true ∧
        Value.numberToJson y = .number n :=
    fun h => ⟨.float x, x, h, rfl, Binary64.beq_self_of_isFinite hx, h⟩
  cases hwhole : Number.wholeValue? x with
  | none =>
    refine hfloat ?_
    rw [Value.numberToJson, hwhole]
    exact if_pos hx
  | some n =>
    by_cases hn : n.natAbs < 9 * Nat.pow 10 15
    · have hbits : n.natAbs < 2 ^ 53 := Nat.lt_trans hn (by decide)
      have hback := Binary64.wholeValue?_floatOfInt hbits
      exact ⟨.int n, Json.floatOfInt n, numberToJson_of_whole hwhole hn, rfl,
        Binary64.beq_of_wholeValue? hback hwhole, numberToJson_of_whole hback hn⟩
    · refine hfloat ?_
      rw [Value.numberToJson, hwhole]
      exact if_neg hn

/-- A domain accepts a number when it accepts an equal one. -/
theorem Domain.accepts_congr {standard : Float} {range : Range Float} {x y : Float}
    (h : (y == x) = true) (hx : (Domain.number standard range).Accepts (.number x)) :
    (Domain.number standard range).Accepts (.number y) := by
  obtain ⟨hfinite, hrange⟩ := accepts_number_iff.mp hx
  refine accepts_number_iff.mpr ⟨(Binary64.isFinite_congr h).trans hfinite, ?_⟩
  rwa [Binary64.lt_congr_left h, Binary64.lt_congr_right h]

/-- What a value is written as is read as a value that the domain accepts. -/
theorem Domain.read_of_readValue {d : Domain Float} {written : Json} {v : Value Float}
    (hread : d.readValue written = .ok v) (h : d.Accepts v) : d.read written = .ok v := by
  refine bind_eq_ok.mpr ⟨v, hread, ?_⟩
  rw [accepts_iff.mp h]

/-- What an accepted value is written as is read as the same value, and is written again from it. -/
theorem Domain.read_toJson {d : Domain Float} {v : Value Float} (h : d.Accepts v) :
    ∃ v', d.read v.toJson = .ok v' ∧ v.Same v' ∧ v'.toJson = v.toJson := by
  cases v with
  | number x =>
    cases d with
    | number standard range =>
      obtain ⟨n, y, hwritten, hread, heq, hagain⟩ :=
        exists_of_numberToJson (accepts_number_iff.mp h).1
      have hsame : (x == y) = true := Binary64.beq_symm heq
      refine ⟨.number y, read_of_readValue ?_ (accepts_congr heq h), .number hsame, ?_⟩
      · show (Domain.number standard range).readValue (Value.numberToJson x) = _
        rw [hwritten, ← hread]
        rfl
      · exact hagain.trans hwritten.symm
    | choice | key | profile => cases h
  | choice name =>
    cases d with
    | choice | key => exact ⟨.choice name, read_of_readValue rfl h, .choice name, rfl⟩
    | number | profile => cases h
  | profile p =>
    cases d with
    | profile =>
      refine ⟨.profile p, read_of_readValue ?_ h, .profile p, rfl⟩
      simp only [Value.toJson, Domain.readValue, Profile.ofJson_toJson]
      rfl
    | number | choice | key => cases h

end Control

/-! ## Panels -/

namespace Panel

/-- The same kind with the same values. -/
structure Same (p p' : Panel Float) : Prop where
  kind : p'.kind = p.kind
  values : List.Forall₂ Control.Value.Same p.values p'.values

/-- The fields of the record that a panel is saved as. -/
theorem toData_eq (p : Panel Float) : p.toData =
    .ofFields (((p.kind.controls (α := Float)).map (·.key)).zip
      (p.values.map Control.Value.toJson)) := by
  have hsame : ∀ v : Control.Value Float, (v.map Scalar.toFloat).toJson = v.toJson := by
    intro v
    cases v <;> rfl
  unfold toData entries
  rw [List.zip_map]
  refine congrArg Json.ofFields (List.map_congr_left fun entry _ => ?_)
  exact congrArg (Prod.mk entry.1.key) (hsame entry.2)

/-- Each control of a panel finds in the record of the panel what its value is written as. -/
theorem readField_toData {p : Panel Float}
    (h : p.values.length = (p.kind.controls (α := Float)).length)
    {control : Control Float} {v v' : Control.Value Float}
    (hentry : (control, v) ∈ p.kind.controls.zip p.values)
    (hread : control.domain.read v.toJson = .ok v') {fields : List (String × Json)}
    (hfields : p.toData = .record fields) : readField p.kind fields control = .ok v' := by
  rw [toData_eq] at hfields
  have hordered := Json.record.inj hfields
  have hkeys : ((((p.kind.controls (α := Float)).map (·.key)).zip
      (p.values.map Control.Value.toJson)).map Prod.fst).Nodup := by
    rw [List.map_fst_zip (by simp [h])]
    exact p.kind.controls_nodup
  have hmem : (control.key, v.toJson) ∈
      ((p.kind.controls (α := Float)).map (·.key)).zip (p.values.map Control.Value.toJson) := by
    rw [List.zip_map]
    exact List.mem_map_of_mem hentry
  have hfound := Json.findField?_orderFields hkeys hmem
  rw [hordered] at hfound
  rw [readField, hfound]
  show (control.domain.read v.toJson).mapError _ = .ok v'
  rw [hread]
  rfl

/-- Values that are written and read one by one. -/
theorem exists_values {controls : List (Control Float)} {values : List (Control.Value Float)}
    (h : List.Forall₂ (fun c v => c.domain.Accepts v) controls values)
    {ε : Type} {read : Control Float → Except ε (Control.Value Float)}
    (hread : ∀ c v v', (c, v) ∈ controls.zip values → c.domain.read v.toJson = .ok v' →
      read c = .ok v') :
    ∃ values', List.Forall₂ (fun c v' => read c = .ok v') controls values' ∧
      List.Forall₂ Control.Value.Same values values' ∧
      values'.map Control.Value.toJson = values.map Control.Value.toJson := by
  induction h with
  | nil => exact ⟨[], .nil, .nil, rfl⟩
  | cons haccepts _ ih =>
    obtain ⟨v', hv', hsame, hwritten⟩ := Control.Domain.read_toJson haccepts
    obtain ⟨values', hvalues', hsames, hwrittens⟩ := ih fun c v v' hmem =>
      hread c v v' (List.mem_cons_of_mem _ hmem)
    refine ⟨v' :: values', .cons (hread _ _ v' List.mem_cons_self hv') hvalues',
      .cons hsame hsames, ?_⟩
    rw [List.map_cons, List.map_cons, hwritten, hwrittens]

/-- The record that an accepted panel is saved as gives the panel back. -/
theorem ofData_toData {p : Panel Float} (h : p.Accepted) :
    ∃ p', ofData p.kind p.toData = .ok p' ∧ p.Same p' ∧ p'.toData = p.toData := by
  obtain ⟨fields, hfields⟩ : ∃ fields, p.toData = .record fields := ⟨_, rfl⟩
  obtain ⟨values, hvalues, hsame, hwritten⟩ := exists_values h fun c v v' hentry hread =>
    readField_toData h.length_eq.symm hentry hread hfields
  refine ⟨⟨p.kind, values⟩, ?_, ⟨rfl, hsame⟩, ?_⟩
  · rw [hfields, ofData, mapM_eq_ok_of_forall₂ hvalues]
    rfl
  · rw [toData_eq, toData_eq, hwritten]

end Panel

end Patchbay
