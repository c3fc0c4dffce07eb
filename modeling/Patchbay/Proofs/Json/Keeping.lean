import Mathlib.Data.String.Basic
import Patchbay.Document.Basic
import Patchbay.Proofs.Except
import Patchbay.Proofs.Json.Reading
/-!
# Values kept

A value that was read is kept as it is when its records are in order and it does not nest too deep
(`keep_ofJson`), and reading its numbers again changes neither. A record with known members is taken
apart member by member (`readEntriesInto_cons`), a list item by item (`asList_text`).
-/

namespace Patchbay.Json

/-! ## Ordered records -/

/-- Each name once, and in order. -/
def Ordered (fields : List (String × Json)) : Prop := fields.Pairwise (·.1 < ·.1)

theorem mem_putField {name : String} {value : Json} {fields : List (String × Json)}
    {field : String × Json} (h : field ∈ putField name value fields) :
    field = (name, value) ∨ field ∈ fields := by
  induction fields with
  | nil => exact Or.inl (List.mem_singleton.mp h)
  | cons first fields ih =>
    unfold putField at h
    split at h
    next => exact List.mem_cons.mp h
    next =>
      split at h
      next => exact (List.mem_cons.mp h).imp_right (List.mem_cons_of_mem _)
      next =>
        rcases List.mem_cons.mp h with rfl | h
        · exact Or.inr List.mem_cons_self
        · exact (ih h).imp_right (List.mem_cons_of_mem _)

theorem ordered_putField (name : String) (value : Json) {fields : List (String × Json)}
    (h : Ordered fields) : Ordered (putField name value fields) := by
  induction fields with
  | nil => exact List.pairwise_singleton _ _
  | cons first fields ih =>
    obtain ⟨hfirst, hrest⟩ := List.pairwise_cons.mp h
    unfold putField
    split
    next hlt =>
      refine List.pairwise_cons.mpr ⟨fun field hfield => ?_, h⟩
      rcases List.mem_cons.mp hfield with rfl | hfield
      · exact hlt
      · exact lt_trans hlt (hfirst field hfield)
    next hnot =>
      split
      next heq =>
        subst heq
        exact List.pairwise_cons.mpr ⟨hfirst, hrest⟩
      next hne =>
        refine List.pairwise_cons.mpr ⟨fun field hfield => ?_, ih hrest⟩
        rcases mem_putField hfield with rfl | hfield
        · exact lt_of_le_of_ne (not_lt.mp hnot) (Ne.symm hne)
        · exact hfirst field hfield

theorem ordered_orderFields (fields : List (String × Json)) : Ordered (orderFields fields) :=
  List.foldlRecOn _ _ List.Pairwise.nil fun _ h field _ => ordered_putField field.1 field.2 h

/-- A field that comes after all others is put at the end. -/
theorem putField_eq_append {name : String} {value : Json} {fields : List (String × Json)}
    (h : ∀ field ∈ fields, field.1 < name) :
    putField name value fields = fields ++ [(name, value)] := by
  induction fields with
  | nil => rfl
  | cons first fields ih =>
    have hfirst : first.1 < name := h first List.mem_cons_self
    rw [putField, if_neg (lt_asymm hfirst), if_neg hfirst.ne', List.cons_append,
      ih fun field hfield => h field (List.mem_cons_of_mem _ hfield)]

theorem orderFields_eq_self {fields : List (String × Json)} (h : Ordered fields) :
    orderFields fields = fields := by
  induction fields using List.reverseRecOn with
  | nil => rfl
  | append_singleton fields last ih =>
    obtain ⟨hfields, -, hlast⟩ := List.pairwise_append.mp h
    rw [orderFields, List.foldl_concat]
    show putField last.1 last.2 (orderFields fields) = _
    rw [ih hfields, putField_eq_append fun field hfield => hlast field hfield _ (by simp)]

/-! ## Values kept -/

mutual

/-- A value that is kept as it is when `depth` containers lie around it: its containers do not lie
too deep, and its records are ordered. -/
def Keepable (depth : Nat) : Json → Prop
  | list items => depth < deepest ∧ ItemsKeepable (depth + 1) items
  | record fields => depth < deepest ∧ Ordered fields ∧ FieldsKeepable (depth + 1) fields
  | null | bool _ | number _ | text _ => True

def ItemsKeepable (depth : Nat) : List Json → Prop
  | [] => True
  | item :: rest => item.Keepable depth ∧ ItemsKeepable depth rest

def FieldsKeepable (depth : Nat) : List (String × Json) → Prop
  | [] => True
  | (_, value) :: rest => value.Keepable depth ∧ FieldsKeepable depth rest

end

theorem enter_eq_ok {depth : Nat} (h : depth < deepest) : enter .text depth = .ok () := by
  rw [enter, if_neg fun hboth => Nat.not_le_of_lt h hboth.2]

mutual

theorem keep_ofJson : ∀ (value : Json) {depth : Nat}, value.Keepable depth →
    keep .text depth (.ofJson value) = .ok value
  | null, _, _ | bool _, _, _ | number _, _, _ | text _, _, _ => rfl
  | list items, depth, h => by
    rw [Outline.ofJson, keep, enter_eq_ok h.1, keepItems_ofItems items h.2]
    rfl
  | record fields, depth, h => by
    rw [Outline.ofJson, keep, enter_eq_ok h.1, keepEntries_ofFields fields h.2.2]
    show Except.ok (ofFields fields) = _
    rw [ofFields, orderFields_eq_self h.2.1]

theorem keepItems_ofItems : ∀ (items : List Json) {depth : Nat}, ItemsKeepable depth items →
    keepItems .text depth (Outline.ofItems items) = .ok items
  | [], _, _ => rfl
  | item :: items, depth, h => by
    rw [Outline.ofItems, keepItems, keep_ofJson item h.1, keepItems_ofItems items h.2]
    rfl

theorem keepEntries_ofFields : ∀ (fields : List (String × Json)) {depth : Nat},
    FieldsKeepable depth fields → keepEntries .text depth (Outline.ofFields fields) = .ok fields
  | [], _, _ => rfl
  | (name, value) :: fields, depth, h => by
    rw [Outline.ofFields, keepEntries, keep_ofJson value h.1, keepEntries_ofFields fields h.2]
    rfl

end

theorem rereadFields_eq_map (fields : List (String × Json)) :
    rereadFields fields = fields.map fun field => (field.1, field.2.reread) := by
  induction fields with
  | nil => rfl
  | cons field fields ih => rw [rereadFields, ih]; rfl

theorem rereadItems_eq_map (items : List Json) : rereadItems items = items.map reread := by
  induction items with
  | nil => rfl
  | cons item items ih => rw [rereadItems, ih]; rfl

mutual

/-- Reading numbers again changes no name and no nesting. -/
theorem Keepable.reread : ∀ (value : Json) {depth : Nat}, value.Keepable depth →
    value.reread.Keepable depth
  | null, _, _ | bool _, _, _ | number _, _, _ | text _, _, _ => trivial
  | list items, depth, h => ⟨h.1, ItemsKeepable.reread items h.2⟩
  | record fields, depth, h => by
    refine ⟨h.1, ?_, FieldsKeepable.reread fields h.2.2⟩
    rw [rereadFields_eq_map]
    exact List.pairwise_map.mpr h.2.1

theorem ItemsKeepable.reread : ∀ (items : List Json) {depth : Nat}, ItemsKeepable depth items →
    ItemsKeepable depth (rereadItems items)
  | [], _, _ => trivial
  | item :: items, _, h => ⟨Keepable.reread item h.1, ItemsKeepable.reread items h.2⟩

theorem FieldsKeepable.reread : ∀ (fields : List (String × Json)) {depth : Nat},
    FieldsKeepable depth fields → FieldsKeepable depth (rereadFields fields)
  | [], _, _ => trivial
  | (_, value) :: fields, _, h => ⟨Keepable.reread value h.1, FieldsKeepable.reread fields h.2⟩

end

theorem itemsReadable_iff {items : List Json} :
    ItemsReadable items ↔ ∀ item ∈ items, item.Readable := by
  induction items with
  | nil => simp [ItemsReadable]
  | cons item items ih => rw [ItemsReadable, ih, List.forall_mem_cons]

theorem fieldsReadable_iff {fields : List (String × Json)} :
    FieldsReadable fields ↔ ∀ field ∈ fields, field.2.Readable := by
  induction fields with
  | nil => simp [FieldsReadable]
  | cons field fields ih => rw [FieldsReadable, ih, List.forall_mem_cons]

theorem fieldsKeepable_iff {depth : Nat} {fields : List (String × Json)} :
    FieldsKeepable depth fields ↔ ∀ field ∈ fields, field.2.Keepable depth := by
  induction fields with
  | nil => simp [FieldsKeepable]
  | cons field fields ih => rw [FieldsKeepable, ih, List.forall_mem_cons]

theorem mem_orderFields {fields : List (String × Json)} {field : String × Json}
    (h : field ∈ orderFields fields) : field ∈ fields := by
  induction fields using List.reverseRecOn with
  | nil => exact h
  | append_singleton fields last ih =>
    rw [orderFields, List.foldl_concat] at h
    rcases mem_putField h with rfl | h
    · exact List.mem_append_right _ (List.mem_singleton_self _)
    · exact List.mem_append_left _ (ih h)

theorem readable_ofFields {fields : List (String × Json)}
    (h : ∀ field ∈ fields, field.2.Readable) : (ofFields fields).Readable :=
  fieldsReadable_iff.mpr fun field hfield => h field (mem_orderFields hfield)

theorem keepable_ofFields {fields : List (String × Json)} {depth : Nat} (hdepth : depth < deepest)
    (h : ∀ field ∈ fields, field.2.Keepable (depth + 1)) : (ofFields fields).Keepable depth :=
  ⟨hdepth, ordered_orderFields fields,
    fieldsKeepable_iff.mpr fun field hfield => h field (mem_orderFields hfield)⟩

/-! ## Taking records apart -/

section

variable {σ : Type} {members : List (Member σ)} {member : Member σ} {depth : Nat}

/-- An entry that is a member not yet there is read into the record. -/
theorem readEntriesInto_cons {name : String} {value : Outline} {partly partly' : σ}
    (hfind : members.find? (·.name == name) = some member) (habsent : member.present partly = false)
    (hread : member.read depth value partly = .ok partly')
    (rest : List (Option String × Outline)) :
    readEntriesInto members depth ((some name, value) :: rest) partly =
      readEntriesInto members depth rest partly' := by
  rw [readEntriesInto, hfind]
  simp only [habsent, hread]
  rfl

theorem asRecord_text {title : String} {entries : List (Option String × Outline)} {empty partly : σ}
    (hdepth : depth < deepest)
    (hentries : readEntriesInto members (depth + 1) entries empty = .ok partly)
    (hmissing : firstMissing? members partly = none) :
    asRecord .text title members empty depth (.record entries true) = .ok partly := by
  refine bind_eq_ok.mpr ⟨(), enter_eq_ok hdepth, bind_eq_ok.mpr ⟨partly, hentries, ?_⟩⟩
  simp only [hmissing]
  rfl

theorem asList_text {β : Type} {read : Nat → Outline → Except Fault β} {items : List Outline}
    {values : List β} (hdepth : depth < deepest)
    (hitems : List.Forall₂ (fun item value => read (depth + 1) item = .ok value) items values) :
    asList .text read depth (.list items true) = .ok values := by
  rw [asList, enter_eq_ok hdepth, mapM_eq_ok_of_forall₂ hitems]
  rfl

end

theorem Outline.ofItems_eq_map (items : List Json) : ofItems items = items.map ofJson := by
  induction items with
  | nil => rfl
  | cons item items ih => rw [ofItems, ih]; rfl

end Patchbay.Json
