import Mathlib.Algebra.Ring.Int.Defs
import Patchbay.Proofs.Toml.Readers
/-!
# Integers in TOML documents

Every integer in the table of a document fits in a signed word of 64 bits, however deep it lies
(`Toml.worded_of_read`). An integer is only read when it fits; lists and tables are made of what was
read before, and building the table of a document moves values without changing any.
-/

namespace Patchbay.Toml

/-- All integers of a value fit in a signed word. -/
inductive Value.Worded : Value → Prop
  | text (s : String) : Worded (.text s)
  | int {n : Int} (h : -2 ^ 63 ≤ n ∧ n < 2 ^ 63) : Worded (.int n)
  | float (x : Float) : Worded (.float x)
  | bool (b : Bool) : Worded (.bool b)
  | moment : Worded .moment
  | list {items : List Value} (h : ∀ v ∈ items, v.Worded) : Worded (.list items)
  | table {standing : Standing} {fields : List (String × Value)} (h : ∀ f ∈ fields, f.2.Worded) :
    Worded (.table standing fields)
  | tables {items : List (List (String × Value))} (h : ∀ fields ∈ items, ∀ f ∈ fields, f.2.Worded) :
    Worded (.tables items)

def Fields.Worded (fields : Fields) : Prop := ∀ f ∈ fields, f.2.Worded

/-! ## Tables -/

namespace Fields

variable {fields fields' : Fields} {name : String} {v : Value}

theorem Worded.nil : Worded [] := List.forall_mem_nil _

theorem Worded.get? (h : Worded fields) (hget : get? fields name = some v) : v.Worded := by
  obtain ⟨f, hf, rfl⟩ := Option.map_eq_some_iff.mp hget
  exact h f (List.mem_of_find?_eq_some hf)

theorem Worded.put (h : Worded fields) (hv : v.Worded) : Worded (put fields name v) := by
  unfold Fields.put
  split
  next =>
    intro f hf
    obtain ⟨f', hf', rfl⟩ := List.mem_map.mp hf
    split
    next => exact hv
    next => exact h f' hf'
  next =>
    intro f hf
    rcases List.mem_append.mp hf with hf | hf
    · exact h f hf
    · rw [List.mem_singleton.mp hf]
      exact hv

end Fields

/-- What a step that may fail keeps. -/
def Keeping (change : Fields → Option Fields) : Prop :=
  ∀ ⦃fields fields'⦄, Fields.Worded fields → change fields = some fields' → Fields.Worded fields'

theorem worded_of_changeLast {change : Fields → Option Fields} (hchange : Keeping change)
    {items items' : List Fields} (hitems : ∀ fields ∈ items, Fields.Worded fields)
    (h : changeLast change items = some items') : ∀ fields ∈ items', Fields.Worded fields := by
  fun_induction changeLast change items generalizing items' with
  | case1 => cases h
  | case2 last =>
    obtain ⟨last', hlast, rfl⟩ := Option.map_eq_some_iff.mp h
    rintro fields hfields
    rw [List.mem_singleton.mp hfields]
    exact hchange (hitems last (List.mem_singleton_self last)) hlast
  | case3 item rest hrest ih =>
    obtain ⟨rest', hlast, rfl⟩ := Option.map_eq_some_iff.mp h
    obtain ⟨hitem, hitems⟩ := List.forall_mem_cons.mp hitems
    exact List.forall_mem_cons.mpr ⟨hitem, ih hitems hlast⟩

/-- Changing a table within a table keeps what the change itself keeps. -/
theorem keeping_changeAt {made : Standing} {enter : Standing → Bool}
    {change : Standing → Fields → Option Fields} (hchange : ∀ standing, Keeping (change standing))
    (path : List String) (standing : Standing) :
    Keeping (changeAt made enter change path standing) := by
  intro fields fields' hfields h
  induction path generalizing standing fields fields' with
  | nil => exact hchange standing hfields h
  | cons name path ih =>
    rw [changeAt] at h
    -- a table is made, or entered, or it is the last of several that is entered
    split at h
    next =>
      obtain ⟨inner, hinner, rfl⟩ := Option.map_eq_some_iff.mp h
      exact hfields.put (.table (ih made .nil hinner))
    next standing' inner hget =>
      split at h
      next =>
        obtain ⟨inner', hinner, rfl⟩ := Option.map_eq_some_iff.mp h
        cases hfields.get? hget with
        | table hworded => exact hfields.put (.table (ih standing' hworded hinner))
      next => cases h
    next items hget =>
      obtain ⟨items', hitems, rfl⟩ := Option.map_eq_some_iff.mp h
      cases hfields.get? hget with
      | tables hworded =>
        have hlast :=
          worded_of_changeLast (fun _ _ hfields h => ih .header hfields h) hworded hitems
        exact hfields.put (.tables hlast)
    next => cases h

theorem keeping_addEntry {path : List String} {name : String} {v : Value} (hv : v.Worded)
    (standing : Standing) : Keeping (addEntry path name v standing) := by
  refine keeping_changeAt (fun standing fields fields' hfields h => ?_) path standing
  split at h
  next => cases h
  next =>
    split at h
    next => cases h
    next =>
      cases h
      exact hfields.put hv

theorem keeping_declare (name : String) : Keeping (declare name) := by
  intro fields fields' hfields h
  rw [declare] at h
  split at h
  next =>
    cases h
    exact hfields.put (.table (List.forall_mem_nil _))
  next inner hget =>
    cases h
    cases hfields.get? hget with
    | table hworded => exact hfields.put (.table hworded)
  next => cases h

theorem keeping_declareNext (name : String) : Keeping (declareNext name) := by
  have hempty : Fields.Worded [] := .nil
  intro fields fields' hfields h
  rw [declareNext] at h
  split at h
  next =>
    cases h
    exact hfields.put (.tables (List.forall_mem_singleton.mpr hempty))
  next items hget =>
    cases h
    cases hfields.get? hget with
    | tables hworded =>
      refine hfields.put (.tables fun fields hmem => ?_)
      rcases List.mem_append.mp hmem with hmem | hmem
      · exact hworded fields hmem
      · rw [List.mem_singleton.mp hmem]
        exact hempty
  next => cases h

/-- All integers that a line gives fit in a signed word. -/
def Statement.Worded : Statement → Prop
  | .entry _ _ v => v.Worded
  | _ => True

theorem Draft.worded_declareBy {d d' : Draft} {path : List String}
    {change : String → Fields → Option Fields} (hchange : ∀ name, Keeping (change name))
    (hd : d.fields.Worded) (h : d.declareBy path change = some d') : d'.fields.Worded := by
  obtain ⟨name, -, h⟩ := Option.bind_eq_some_iff.mp h
  obtain ⟨fields, hfields, heq⟩ := Option.bind_eq_some_iff.mp h
  cases heq
  exact keeping_changeAt (fun _ => hchange name) _ _ hd hfields

/-- One line keeps the integers of a document within words. -/
theorem Draft.worded_take {d d' : Draft} {s : Statement} (hs : s.Worded) (hd : d.fields.Worded)
    (h : d.take s = some d') : d'.fields.Worded := by
  cases s with
  | header path => exact worded_declareBy keeping_declare hd h
  | listHeader path => exact worded_declareBy keeping_declareNext hd h
  | entry path name v =>
    obtain ⟨fields, hfields, rfl⟩ := Option.map_eq_some_iff.mp h
    exact keeping_changeAt (fun standing => keeping_addEntry hs standing) _ _ hd hfields

/-- What every step of a fold keeps, the whole fold keeps. -/
theorem of_foldlM {σ β : Type} {P : σ → Prop} {step : σ → β → Option σ} {l : List β}
    (hstep : ∀ b ∈ l, ∀ s s', P s → step s b = some s' → P s') {s s' : σ} (hs : P s)
    (h : l.foldlM step s = some s') : P s' := by
  induction l generalizing s with
  | nil =>
    cases h
    exact hs
  | cons b l ih =>
    rw [List.foldlM_cons] at h
    obtain ⟨middle, hmiddle, h⟩ := Option.bind_eq_some_iff.mp h
    obtain ⟨hb, hl⟩ := List.forall_mem_cons.mp hstep
    exact ih hl (hb s middle hs hmiddle) h

theorem worded_ofStatements {statements : List Statement} {fields : Fields}
    (hstatements : ∀ s ∈ statements, s.Worded)
    (h : Fields.ofStatements statements = some fields) : fields.Worded := by
  obtain ⟨d, hd, rfl⟩ := Option.map_eq_some_iff.mp h
  exact of_foldlM (P := fun d : Draft => d.fields.Worded)
    (fun s hs _ _ hdraft htake => Draft.worded_take (hstatements s hs) hdraft htake) .nil hd

theorem worded_ofEntries {entries : List (List String × String × Value)} {fields : Fields}
    (hentries : ∀ e ∈ entries, e.2.2.Worded) (h : Fields.ofEntries entries = some fields) :
    fields.Worded :=
  of_foldlM (fun e he _ _ hfields hadd => keeping_addEntry (hentries e he) .braced hfields hadd)
    .nil h

/-! ## Readers -/

namespace Reader

variable {β γ : Type} {P : β → Prop} {Q : γ → Prop}

/-- What a reader takes has a property, wherever it takes something. -/
def Yields (r : Reader β) (P : β → Prop) : Prop := ∀ ⦃s b s'⦄, r s = some (b, s') → P b

theorem yields_any (r : Reader β) : r.Yields fun _ => True := fun _ _ _ _ => trivial

theorem yields_pure {b : β} (h : P b) : (pure b : Reader β).Yields P := by
  rintro s b' s' ⟨⟩
  exact h

theorem yields_failure : (failure : Reader β).Yields P := by
  rintro s b s' ⟨⟩

theorem Yields.bind {r : Reader β} {f : β → Reader γ} (h : r.Yields P)
    (hf : ∀ b, P b → (f b).Yields Q) : (r >>= f).Yields Q := by
  intro s c s' hrun
  obtain ⟨⟨b, s''⟩, hb, hc⟩ := Option.bind_eq_some_iff.mp hrun
  exact hf b (h hb) hc

/-- What comes after a reader whose result does not matter. -/
theorem yields_bind {r : Reader β} {f : β → Reader γ} (hf : ∀ b, (f b).Yields Q) :
    (r >>= f).Yields Q := (yields_any r).bind fun b _ => hf b

theorem Yields.map {r : Reader β} {f : β → γ} (h : r.Yields fun b => Q (f b)) :
    (f <$> r).Yields Q := by
  intro s c s' hrun
  rw [map_apply] at hrun
  obtain ⟨⟨b, s''⟩, hb, heq⟩ := Option.map_eq_some_iff.mp hrun
  cases heq
  exact h hb

theorem Yields.orElse {r r' : Reader β} (h : r.Yields P) (h' : r'.Yields P) :
    (r <|> r').Yields P := by
  intro s b s' hrun
  rw [orElse_apply] at hrun
  cases hr : r s with
  | none =>
    rw [hr] at hrun
    exact h' hrun
  | some result =>
    rw [hr] at hrun
    cases hrun
    exact h hr

theorem yields_lift {o : Option β} (h : ∀ b, o = some b → P b) : Yields (StateT.lift o) P := by
  intro s b s' hrun
  rw [lift_apply] at hrun
  obtain ⟨b', hb, heq⟩ := Option.map_eq_some_iff.mp hrun
  cases heq
  exact h _ hb

theorem yields_ite {p : Prop} [Decidable p] {r r' : Reader β} (h : r.Yields P)
    (h' : r'.Yields P) :
    Yields (if p then r else r') P := by
  split
  next => exact h
  next => exact h'

theorem yields_failure_bind {f : β → Reader γ} : (failure >>= f).Yields Q :=
  Yields.bind (P := fun _ => False) yields_failure nofun

theorem Yields.maybe {r : Reader β} (h : r.Yields P) : (maybe r).Yields fun o => ∀ b ∈ o, P b :=
  Yields.orElse (Yields.map fun _ _ _ hb _ heq => Option.some.inj heq ▸ h hb)
    (yields_pure nofun)

theorem Yields.many {r : Reader β} (h : r.Yields P) (times : Nat) :
    (many r times).Yields fun l => ∀ b ∈ l, P b := by
  induction times with
  | zero => exact yields_pure (List.forall_mem_nil _)
  | succ times ih =>
    have hnone : Yields (pure []) fun l : List β => ∀ b ∈ l, P b :=
      yields_pure (List.forall_mem_nil _)
    refine Yields.orElse (h.bind fun b hb => ih.bind fun l hl => ?_) hnone
    exact yields_pure (List.forall_mem_cons.mpr ⟨hb, hl⟩)

theorem Yields.separated {r : Reader β} (h : r.Yields P) (separator : Reader Unit) (times : Nat) :
    (separated r separator times).Yields fun l => ∀ b ∈ l, P b :=
  h.bind fun _ hb => ((yields_bind fun _ => h).many times).bind fun _ hl =>
    yields_pure (List.forall_mem_cons.mpr ⟨hb, hl⟩)

/-! ## Values -/

theorem forall_mem_getD {o : Option (List β)} (h : ∀ l ∈ o, ∀ b ∈ l, P b) :
    ∀ b ∈ o.getD [], P b := by
  cases o with
  | none => exact List.forall_mem_nil _
  | some l => exact h l rfl

theorem yields_inWord (n : Int) : (inWord n).Yields fun n => -2 ^ 63 ≤ n ∧ n < 2 ^ 63 := by
  unfold inWord
  split
  next h => exact yields_pure h
  next => exact yields_failure

theorem worded_based (mark : String) (base times : Nat) :
    (based mark base times).Yields fun n => (Value.int n).Worded :=
  yields_bind fun _ => yields_bind fun _ => fun _ _ _ h => .int (yields_inWord _ h)

theorem worded_decimal (times : Nat) : (decimal times).Yields fun n => (Value.int n).Worded :=
  yields_bind fun _ => yields_bind fun _ => fun _ _ _ h => .int (yields_inWord _ h)

/-- Of the values that hold no others, only integers are restricted. -/
theorem worded_scalar (times : Nat) : (scalar times).Yields Value.Worded := by
  have hmapped {δ : Type} {r : Reader δ} {f : δ → Value} (hf : ∀ d, (f d).Worded) :
      (f <$> r).Yields Value.Worded := Yields.map fun _ d _ _ => hf d
  have hafter {r : Reader Unit} {v : Value} (hv : v.Worded) :
      (do r; return v : Reader Value).Yields Value.Worded := yields_bind fun _ => yields_pure hv
  exact (hmapped .text).orElse <| (hafter (.bool true)).orElse <| (hafter (.bool false)).orElse <|
    (hafter .moment).orElse <| (hmapped .float).orElse <| (hmapped .float).orElse <|
    (Yields.map (worded_based "0x" 16 times)).orElse <|
    (Yields.map (worded_based "0o" 8 times)).orElse <|
    (Yields.map (worded_based "0b" 2 times)).orElse <| Yields.map (worded_decimal times)

/-- What a value holds is read before it, one level below. -/
theorem worded_value (times level : Nat) : (value times level).Yields Value.Worded := by
  induction level with
  | zero => exact yields_failure
  | succ level ih =>
    rw [value]
    refine yields_bind fun next => ?_
    -- a list and braces fail at the lowest level, where nothing can lie in them
    split
    next =>
      have hitem : Yields (do let item ← value times level; spacing times; return item)
          Value.Worded := ih.bind fun _ hv => yields_bind fun _ => yields_pure hv
      refine yields_ite yields_failure_bind <| yields_bind fun _ => yields_bind fun _ =>
        (hitem.separated _ times).maybe.bind fun items hitems => ?_
      have hend : Yields (do char ']'; return .list (items.getD [])) Value.Worded :=
        yields_bind fun _ => yields_pure (.list (forall_mem_getD hitems))
      exact yields_ite (yields_bind fun _ => hend) hend
    next =>
      refine yields_ite yields_failure_bind <| yields_bind fun _ =>
        (Yields.separated (P := fun e => e.2.2.Worded) ?entry _ times).maybe.bind
          fun entries hentries => yields_bind fun _ => yields_bind fun _ => ?_
      case entry =>
        exact yields_bind fun _ => ih.bind fun _ hv => yields_bind fun _ => yields_pure hv
      have hfields : Yields (StateT.lift (Fields.ofEntries (entries.getD []))) Fields.Worded :=
        yields_lift fun _ h => worded_ofEntries (forall_mem_getD hentries) h
      exact hfields.bind fun _ h => yields_pure (.table h)
    next => exact worded_scalar times

/-! ## Documents -/

theorem worded_entry (times : Nat) : (entry times).Yields Statement.Worded :=
  yields_bind fun _ => (worded_value times levels).bind fun _ hv => yields_pure hv

theorem worded_line (times : Nat) : (line times).Yields fun o => ∀ s ∈ o, s.Worded := by
  have hheader : Yields (listHeader times <|> header times) Statement.Worded :=
    (yields_bind fun _ => yields_bind fun _ => yields_bind fun _ => yields_pure trivial).orElse
      (yields_bind fun _ => yields_bind fun _ => yields_bind fun _ => yields_pure trivial)
  have hsome {r : Reader Statement} (h : r.Yields Statement.Worded) :
      Yields (do let s ← r; lineEnd; return some s) fun o => ∀ s ∈ o, s.Worded :=
    h.bind fun _ hs => yields_bind fun _ => yields_pure fun _ heq => Option.some.inj heq ▸ hs
  refine yields_bind fun _ => yields_bind fun next => ?_
  split
  next => exact yields_bind fun _ => yields_bind fun _ => yields_pure nofun
  next => exact yields_bind fun _ => yields_pure nofun
  next => exact yields_bind fun _ => yields_pure nofun
  next => exact hsome hheader
  next => exact hsome (worded_entry times)

theorem worded_document (times : Nat) : (document times).Yields fun l => ∀ s ∈ l, s.Worded := by
  refine yields_bind fun _ => ((worded_line times).many times).bind fun lines hlines =>
    yields_bind fun _ => yields_bind fun _ => yields_pure fun s hs => ?_
  obtain ⟨o, ho, rfl⟩ := List.mem_filterMap.mp hs
  exact hlines _ ho s rfl

end Reader

/-- The integers in the table of a document fit in signed words. -/
theorem worded_of_read {source : String} {fields : Fields} (h : read source = some fields) :
    fields.Worded := by
  obtain ⟨⟨statements, rest⟩, hstatements, hfields⟩ := Option.bind_eq_some_iff.mp h
  exact worded_ofStatements (Reader.worded_document _ hstatements) hfields

end Patchbay.Toml
