import Mathlib.Data.List.DropRight
import Patchbay.Proofs.Json.Quoting
import Patchbay.Proofs.Json.Reread
/-!
# Indented text read back

Reading the indented form of a value gives the value (`outline_pretty`), with every number as it is
read back on its own (`reread`). The reader and the printer recurse alike, so the proof follows the
value: whatever comes after its text is left over, as long as it does not go on with a number. Every
step of the reader takes a character, so a text's length is enough fuel for it.
-/

namespace Patchbay.Json

/-! ## What is read back -/

mutual

/-- A value with every number as it is read back. -/
def reread : Json → Json
  | null => null
  | bool b => bool b
  | number n => number n.reread
  | text s => text s
  | list items => list (rereadItems items)
  | record fields => record (rereadFields fields)

def rereadItems : List Json → List Json
  | [] => []
  | item :: rest => reread item :: rereadItems rest

def rereadFields : List (String × Json) → List (String × Json)
  | [] => []
  | (name, value) :: rest => (name, reread value) :: rereadFields rest

end

mutual

/-- Every number in a value can be read. -/
def Readable : Json → Prop
  | number n => n.Readable
  | list items => ItemsReadable items
  | record fields => FieldsReadable fields
  | null | bool _ | text _ => True

def ItemsReadable : List Json → Prop
  | [] => True
  | item :: rest => item.Readable ∧ ItemsReadable rest

def FieldsReadable : List (String × Json) → Prop
  | [] => True
  | (_, value) :: rest => value.Readable ∧ FieldsReadable rest

end

mutual

/-- The floats of a value. -/
def floats : Json → List Float
  | number (.float x) => [x]
  | list items => floatsOfItems items
  | record fields => floatsOfFields fields
  | null | bool _ | text _ | number (.int _) => []

def floatsOfItems : List Json → List Float
  | [] => []
  | item :: rest => item.floats ++ floatsOfItems rest

def floatsOfFields : List (String × Json) → List Float
  | [] => []
  | (_, value) :: rest => value.floats ++ floatsOfFields rest

end

mutual

/-- Only floats can be read as something else. -/
theorem reread_eq_self_iff : ∀ value : Json,
    value.reread = value ↔ ∀ x ∈ value.floats, rereadFloat x = x
  | null | bool _ | text _ | number (.int _) => by simp [reread, floats, Number.reread]
  | number (.float x) => by simp [reread, floats, Number.reread]
  | list items => by
    rw [reread, floats, list.injEq]
    exact rereadItems_eq_self_iff items
  | record fields => by
    rw [reread, floats, record.injEq]
    exact rereadFields_eq_self_iff fields

theorem rereadItems_eq_self_iff : ∀ items : List Json,
    rereadItems items = items ↔ ∀ x ∈ floatsOfItems items, rereadFloat x = x
  | [] => by simp [rereadItems, floatsOfItems]
  | item :: items => by
    rw [rereadItems, floatsOfItems, List.cons.injEq, reread_eq_self_iff item,
      rereadItems_eq_self_iff items, List.forall_mem_append]

theorem rereadFields_eq_self_iff : ∀ fields : List (String × Json),
    rereadFields fields = fields ↔ ∀ x ∈ floatsOfFields fields, rereadFloat x = x
  | [] => by simp [rereadFields, floatsOfFields]
  | (name, value) :: fields => by
    rw [rereadFields, floatsOfFields, List.cons.injEq, Prod.mk.injEq, reread_eq_self_iff value,
      rereadFields_eq_self_iff fields, List.forall_mem_append, and_iff_right rfl]

end

/-! ## White space -/

theorem afterSpace_append {space : List Char} (h : ∀ c ∈ space, isSpace c = true)
    (chars : List Char) : afterSpace (space ++ chars) = afterSpace chars :=
  List.dropWhile_append_of_pos h

theorem afterSpace_cons {c : Char} (h : isSpace c = false) (rest : List Char) :
    afterSpace (c :: rest) = c :: rest := by
  rw [afterSpace, List.dropWhile_cons, h]
  rfl

theorem isSpace_lineAt (level : Nat) : ∀ c ∈ (lineAt level).toList, isSpace c = true := by
  intro c hc
  simp only [lineAt, String.toList_append, String.toList_ofList, List.mem_append,
    List.mem_replicate] at hc
  rcases hc with hc | ⟨-, rfl⟩
  · obtain rfl : c = '\n' := by simpa using hc
    rfl
  · rfl

theorem lineAt_cons (level : Nat) : ∃ space, (lineAt level).toList = '\n' :: space :=
  ⟨List.replicate (2 * level) ' ', by simp [lineAt]⟩

theorem afterSpace_afterSpace (chars : List Char) :
    afterSpace (afterSpace chars) = afterSpace chars :=
  List.dropWhile_idempotent _ _

theorem readValue_afterSpace (fuel : Nat) (chars : List Char) :
    readValue fuel (afterSpace chars) = readValue fuel chars := by
  cases fuel with
  | zero => rfl
  | succ fuel => rw [readValue, readValue, afterSpace_afterSpace]

theorem readItems_afterSpace (fuel : Nat) (chars : List Char) :
    readItems fuel (afterSpace chars) = readItems fuel chars := by
  cases fuel with
  | zero => rfl
  | succ fuel => rw [readItems, readItems, readValue_afterSpace]

theorem readEntries_afterSpace (fuel : Nat) (chars : List Char) :
    readEntries fuel (afterSpace chars) = readEntries fuel chars := by
  cases fuel with
  | zero => rfl
  | succ fuel => rw [readEntries, readEntries, afterSpace_afterSpace]

theorem readValue_append {space : List Char} (h : ∀ c ∈ space, isSpace c = true) (fuel : Nat)
    (chars : List Char) : readValue fuel (space ++ chars) = readValue fuel chars := by
  rw [← readValue_afterSpace, afterSpace_append h, readValue_afterSpace]

theorem readItems_append {space : List Char} (h : ∀ c ∈ space, isSpace c = true) (fuel : Nat)
    (chars : List Char) : readItems fuel (space ++ chars) = readItems fuel chars := by
  rw [← readItems_afterSpace, afterSpace_append h, readItems_afterSpace]

theorem readEntries_append {space : List Char} (h : ∀ c ∈ space, isSpace c = true) (fuel : Nat)
    (chars : List Char) : readEntries fuel (space ++ chars) = readEntries fuel chars := by
  rw [← readEntries_afterSpace, afterSpace_append h, readEntries_afterSpace]

/-! ## One value -/

theorem isSpace_numberStart {c : Char} (h : c = '-' ∨ c.isDigit = true) : isSpace c = false := by
  by_contra hspace
  rw [Bool.not_eq_false] at hspace
  simp only [isSpace, Bool.or_eq_true, beq_iff_eq] at hspace
  rcases hspace with ((rfl | rfl) | rfl) | rfl <;> revert h <;> decide

theorem readValue_number {n : Number} (h : n.Readable) (fuel : Nat) {rest : List Char}
    (hrest : Stops rest) : readValue (fuel + 1) (n.render.toList ++ rest) =
      (.number (some n.reread), some rest) := by
  obtain ⟨⟨c, tail, htext, hc⟩, hread⟩ := readNumber_render h
  have hread := hread hrest
  rw [htext] at hread ⊢
  rw [List.cons_append, readValue, afterSpace_cons (isSpace_numberStart hc)]
  rw [List.cons_append] at hread
  have hhead : ∀ {d chars}, c :: (tail ++ rest) = d :: chars → d = '-' ∨ d.isDigit = true :=
    fun heq => (List.cons.inj heq).1 ▸ hc
  split
  case h_8 => rw [hread]
  case h_1 heq => cases heq
  all_goals
    next heq => exact absurd (hhead heq) (by decide)

theorem readValue_text (s : String) (fuel : Nat) (rest : List Char) :
    readValue (fuel + 1) ((quoted s).toList ++ rest) = (.text (some s), some rest) := by
  obtain ⟨chars, hquoted, hread⟩ := readText_quoted s
  rw [hquoted, List.cons_append, readValue, afterSpace_cons rfl]
  simp only [hread]

theorem readValue_list_empty (fuel : Nat) (rest : List Char) :
    readValue (fuel + 1) ('[' :: ']' :: rest) = (.list [] true, some rest) := rfl

theorem readValue_record_empty (fuel : Nat) (rest : List Char) :
    readValue (fuel + 1) ('{' :: '}' :: rest) = (.record [] true, some rest) := rfl

/-- A list is read item by item once it has one. -/
theorem readValue_list {fuel : Nat} {chars rest : List Char} {items : List Outline}
    (hfirst : ∀ rest, afterSpace chars ≠ ']' :: rest)
    (hitems : readItems fuel chars = (items, some rest)) :
    readValue (fuel + 1) ('[' :: chars) = (.list items true, some rest) := by
  rw [readValue, afterSpace_cons rfl]
  -- what comes first rules the closing bracket out
  simp only [readItems_afterSpace, hitems, Option.isSome_some]

/-- A record is read entry by entry once it has one. -/
theorem readValue_record {fuel : Nat} {chars rest : List Char}
    {entries : List (Option String × Outline)} (hfirst : ∀ rest, afterSpace chars ≠ '}' :: rest)
    (hentries : readEntries fuel chars = (entries, some rest)) :
    readValue (fuel + 1) ('{' :: chars) = (.record entries true, some rest) := by
  rw [readValue, afterSpace_cons rfl]
  -- what comes first rules the closing bracket out
  simp only [readEntries_afterSpace, hentries, Option.isSome_some]

/-! ## One item and one entry -/

theorem readItems_last {fuel : Nat} {chars after rest : List Char} {item : Outline}
    (hitem : readValue fuel chars = (item, some after)) (hafter : afterSpace after = ']' :: rest) :
    readItems (fuel + 1) chars = ([item], some rest) := by
  rw [readItems, hitem]
  simp only [hafter]

theorem readItems_more {fuel : Nat} {chars after others rest : List Char} {item : Outline}
    {items : List Outline} (hitem : readValue fuel chars = (item, some after))
    (hafter : afterSpace after = ',' :: others)
    (hitems : readItems fuel others = (items, some rest)) :
    readItems (fuel + 1) chars = (item :: items, some rest) := by
  rw [readItems, hitem]
  simp only [hafter, hitems]

theorem readValue_blank (fuel : Nat) (chars : List Char) :
    readValue fuel (' ' :: chars) = readValue fuel chars :=
  readValue_append (List.forall_mem_singleton.mpr rfl : ∀ c ∈ [' '], isSpace c = true) fuel chars

theorem readEntries_last {fuel : Nat} {name : String} {chars after rest : List Char}
    {value : Outline} (hvalue : readValue fuel chars = (value, some after))
    (hafter : afterSpace after = '}' :: rest) :
    readEntries (fuel + 1) ((quoted name).toList ++ ':' :: ' ' :: chars) =
      ([(some name, value)], some rest) := by
  obtain ⟨text, hquoted, hread⟩ := readText_quoted name
  rw [hquoted, List.cons_append, readEntries, afterSpace_cons rfl]
  simp only [hread, afterSpace_cons (c := ':') rfl, readValue_blank, hvalue, hafter]

theorem readEntries_more {fuel : Nat} {name : String} {chars after others rest : List Char}
    {value : Outline} {entries : List (Option String × Outline)}
    (hvalue : readValue fuel chars = (value, some after))
    (hafter : afterSpace after = ',' :: others)
    (hentries : readEntries fuel others = (entries, some rest)) :
    readEntries (fuel + 1) ((quoted name).toList ++ ':' :: ' ' :: chars) =
      ((some name, value) :: entries, some rest) := by
  obtain ⟨text, hquoted, hread⟩ := readText_quoted name
  rw [hquoted, List.cons_append, readEntries, afterSpace_cons rfl]
  simp only [hread, afterSpace_cons (c := ':') rfl, readValue_blank, hvalue, hafter, hentries]

/-! ## The text of a value -/

/-- A text that starts with neither white space nor a closing bracket. -/
def Opens (chars : List Char) : Prop :=
  ∃ c rest, chars = c :: rest ∧ isSpace c = false ∧ c ≠ ']' ∧ c ≠ '}'

/-- No bracket closes what such a text opens. -/
theorem Opens.afterSpace_ne {chars space : List Char} (h : Opens chars)
    (hspace : ∀ c ∈ space, isSpace c = true) (rest after : List Char) :
    afterSpace (space ++ (chars ++ rest)) ≠ ']' :: after ∧
      afterSpace (space ++ (chars ++ rest)) ≠ '}' :: after := by
  obtain ⟨c, tail, rfl, hc, hlist, hrecord⟩ := h
  rw [afterSpace_append hspace, List.cons_append, afterSpace_cons hc]
  exact ⟨fun heq => hlist (List.cons.inj heq).1, fun heq => hrecord (List.cons.inj heq).1⟩

theorem opens_quoted (s : String) : Opens (quoted s).toList := by
  obtain ⟨chars, hquoted, -⟩ := readText_quoted s
  exact ⟨'"', chars, hquoted, by decide⟩

theorem opens_indentedBlock {c : Char} {opening : String} (hopening : opening.toList = [c])
    (hc : isSpace c = false ∧ c ≠ ']' ∧ c ≠ '}') (level : Nat) (closing : String)
    (entries : List String) : Opens (indentedBlock level opening closing entries).toList := by
  have hstart : ∀ s : String, Opens (opening ++ s).toList := fun s =>
    ⟨c, s.toList, by rw [String.toList_append, hopening]; rfl, hc⟩
  rw [indentedBlock]
  split
  next => exact hstart _
  next =>
    rw [String.append_assoc, String.append_assoc, String.append_assoc]
    exact hstart _

theorem opens_prettyAt {value : Json} (h : value.Readable) (level : Nat) :
    Opens (prettyAt level value).toList := by
  cases value with
  | null => exact ⟨'n', ['u', 'l', 'l'], by simp [prettyAt], by decide⟩
  | bool b =>
    cases b
    · exact ⟨'f', ['a', 'l', 's', 'e'], by simp [prettyAt], by decide⟩
    · exact ⟨'t', ['r', 'u', 'e'], by simp [prettyAt], by decide⟩
  | number n =>
    obtain ⟨⟨c, tail, htext, hc⟩, -⟩ := readNumber_render (n := n) h
    refine ⟨c, tail, by rw [prettyAt, htext], isSpace_numberStart hc, ?_, ?_⟩ <;>
      rintro rfl <;> revert hc <;> decide
  | text s =>
    rw [prettyAt]
    exact opens_quoted s
  | list items =>
    rw [prettyAt]
    exact opens_indentedBlock (c := '[') (by simp) (by decide) level _ _
  | record fields =>
    rw [prettyAt]
    exact opens_indentedBlock (c := '{') (by simp) (by decide) level _ _

theorem stops_comma (rest : List Char) : Stops (',' :: rest) := by
  rintro c ⟨⟩
  decide

theorem stops_lineAt (level : Nat) (rest : List Char) : Stops ((lineAt level).toList ++ rest) := by
  obtain ⟨space, hspace⟩ := lineAt_cons level
  rw [hspace]
  rintro c ⟨⟩
  decide

theorem toList_indentedBlock {level : Nat} {opening closing entry : String}
    {entries : List String} :
    (indentedBlock level opening closing (entry :: entries)).toList =
      opening.toList ++ ((lineAt (level + 1)).toList ++
        ((String.intercalate ("," ++ lineAt (level + 1)) (entry :: entries)).toList ++
          ((lineAt level).toList ++ closing.toList))) := by
  simp [indentedBlock, List.append_assoc]

/-! ## Reading it back -/

/-- What stands between two entries of a level. -/
def between (level : Nat) : String := "," ++ lineAt level

theorem toList_between (level : Nat) : (between level).toList = ',' :: (lineAt level).toList := by
  simp [between]

theorem afterSpace_lineAt (level : Nat) {c : Char} (hc : isSpace c = false) (rest : List Char) :
    afterSpace ((lineAt level).toList ++ c :: rest) = c :: rest := by
  rw [afterSpace_append (isSpace_lineAt level), afterSpace_cons hc]

/-- The text of a list that has items. -/
theorem toList_prettyAt_list (level : Nat) (item : Json) (items : List Json) :
    (prettyAt level (list (item :: items))).toList = '[' :: ((lineAt (level + 1)).toList ++
      ((String.intercalate (between (level + 1))
        (prettyItems (level + 1) (item :: items))).toList ++
        ((lineAt level).toList ++ [']']))) := by
  rw [prettyAt, prettyItems, toList_indentedBlock]
  simp [between]

theorem toList_prettyAt_record (level : Nat) (field : String × Json)
    (fields : List (String × Json)) : (prettyAt level (record (field :: fields))).toList =
      '{' :: ((lineAt (level + 1)).toList ++ ((String.intercalate (between (level + 1))
        (prettyFields (level + 1) (field :: fields))).toList ++
          ((lineAt level).toList ++ ['}']))) := by
  rw [prettyAt, prettyFields, toList_indentedBlock]
  simp [between]

theorem opens_intercalate {text : String} (h : Opens text.toList) (separator : String)
    (texts : List String) : Opens (String.intercalate separator (text :: texts)).toList := by
  cases texts with
  | nil => rwa [String.intercalate_singleton]
  | cons next texts =>
    obtain ⟨c, tail, htext, hc⟩ := h
    refine ⟨c, tail ++ (separator ++ String.intercalate separator (next :: texts)).toList, ?_, hc⟩
    rw [String.intercalate_cons_cons, String.append_assoc, String.toList_append, htext]
    rfl

theorem toList_entry (name : String) (text : String) :
    (quoted name ++ ": " ++ text).toList = (quoted name).toList ++ ':' :: ' ' :: text.toList := by
  simp

/-- A list whose items are read is read. -/
theorem readValue_listText {items : String} {level fuel : Nat} {rest : List Char}
    {outlines : List Outline} (hopens : Opens items.toList)
    (hitems : readItems fuel (items.toList ++ ((lineAt level).toList ++ ']' :: rest)) =
      (outlines, some rest)) :
    readValue (fuel + 1) ('[' :: ((lineAt (level + 1)).toList ++
      (items.toList ++ ((lineAt level).toList ++ [']']))) ++ rest) =
        (.list outlines true, some rest) := by
  have hspace := isSpace_lineAt (level + 1)
  simp only [List.cons_append, List.append_assoc, List.nil_append]
  refine readValue_list (fun after => (hopens.afterSpace_ne hspace _ after).1) ?_
  rw [readItems_append hspace, hitems]

/-- A record whose entries are read is read. -/
theorem readValue_recordText {entries : String} {level fuel : Nat} {rest : List Char}
    {outlines : List (Option String × Outline)} (hopens : Opens entries.toList)
    (hentries : readEntries fuel (entries.toList ++ ((lineAt level).toList ++ '}' :: rest)) =
      (outlines, some rest)) :
    readValue (fuel + 1) ('{' :: ((lineAt (level + 1)).toList ++
      (entries.toList ++ ((lineAt level).toList ++ ['}']))) ++ rest) =
        (.record outlines true, some rest) := by
  have hspace := isSpace_lineAt (level + 1)
  simp only [List.cons_append, List.append_assoc, List.nil_append]
  refine readValue_record (fun after => (hopens.afterSpace_ne hspace _ after).2) ?_
  rw [readEntries_append hspace, hentries]

theorem opens_prettyItems {items : List Json} (hne : items ≠ []) (h : ItemsReadable items)
    (level : Nat) :
    Opens (String.intercalate (between level) (prettyItems level items)).toList := by
  obtain ⟨item, items, rfl⟩ := List.exists_cons_of_ne_nil hne
  exact opens_intercalate (opens_prettyAt h.1 level) _ _

theorem opens_prettyFields {fields : List (String × Json)} (hne : fields ≠ []) (level : Nat) :
    Opens (String.intercalate (between level) (prettyFields level fields)).toList := by
  obtain ⟨⟨name, value⟩, fields, rfl⟩ := List.exists_cons_of_ne_nil hne
  obtain ⟨c, tail, hname, hc⟩ := opens_quoted name
  refine opens_intercalate ⟨c, tail ++ (": " ++ prettyAt level value).toList, ?_, hc⟩ _ _
  rw [String.append_assoc, String.toList_append, hname]
  rfl

/-- The text of a value without parts is read as the value. -/
theorem readValue_leaf {value : Json} (h : value.Readable) (level fuel : Nat) {rest : List Char}
    (hrest : Stops rest) (hleaf : ∀ items, value ≠ list items)
    (hleaf' : ∀ fields, value ≠ record fields) :
    readValue (fuel + 1) ((prettyAt level value).toList ++ rest) =
      (Outline.ofJson value.reread, some rest) := by
  cases value with
  | null =>
    have htext : (prettyAt level null).toList = ['n', 'u', 'l', 'l'] := by simp [prettyAt]
    rw [htext]
    rfl
  | bool b =>
    cases b
    · have htext : (prettyAt level (bool false)).toList = ['f', 'a', 'l', 's', 'e'] := by
        simp [prettyAt]
      rw [htext]
      rfl
    · have htext : (prettyAt level (bool true)).toList = ['t', 'r', 'u', 'e'] := by
        simp [prettyAt]
      rw [htext]
      rfl
  | number n =>
    rw [prettyAt, readValue_number h fuel hrest]
    rfl
  | text s =>
    rw [prettyAt, readValue_text]
    rfl
  | list items => exact absurd rfl (hleaf items)
  | record fields => exact absurd rfl (hleaf' fields)

theorem toList_prettyAt_list_nil (level : Nat) :
    (prettyAt level (list [])).toList = ['[', ']'] := by
  simp [prettyAt, prettyItems, indentedBlock]

theorem toList_prettyAt_record_nil (level : Nat) :
    (prettyAt level (record [])).toList = ['{', '}'] := by
  simp [prettyAt, prettyFields, indentedBlock]

theorem Opens.exists_fuel {chars : List Char} (h : Opens chars) {fuel : Nat}
    (hfuel : chars.length ≤ fuel) : ∃ f, fuel = f + 1 := by
  obtain ⟨c, tail, rfl, -⟩ := h
  rw [List.length_cons] at hfuel
  exact ⟨fuel - 1, by omega⟩

mutual

/-- The text of a value is read as the value. -/
theorem readValue_prettyAt : ∀ (value : Json), value.Readable → ∀ {level fuel : Nat},
    (prettyAt level value).toList.length ≤ fuel → ∀ {rest : List Char}, Stops rest →
      readValue fuel ((prettyAt level value).toList ++ rest) =
        (Outline.ofJson value.reread, some rest)
  | list [] => by
    intro h level fuel hfuel rest _
    obtain ⟨fuel, rfl⟩ := (opens_prettyAt h level).exists_fuel hfuel
    rw [toList_prettyAt_list_nil]
    exact readValue_list_empty fuel rest
  | list (item :: items) => by
    intro h level fuel hfuel rest _
    obtain ⟨fuel, rfl⟩ := (opens_prettyAt h level).exists_fuel hfuel
    have hne : item :: items ≠ [] := List.cons_ne_nil _ _
    rw [toList_prettyAt_list] at hfuel ⊢
    simp only [List.length_append, List.length_cons] at hfuel
    exact readValue_listText (opens_prettyItems hne h _)
      (readItems_pretty (item :: items) hne h (by omega) rest)
  | record [] => by
    intro h level fuel hfuel rest _
    obtain ⟨fuel, rfl⟩ := (opens_prettyAt h level).exists_fuel hfuel
    rw [toList_prettyAt_record_nil]
    exact readValue_record_empty fuel rest
  | record (field :: fields) => by
    intro h level fuel hfuel rest _
    obtain ⟨fuel, rfl⟩ := (opens_prettyAt h level).exists_fuel hfuel
    have hne : field :: fields ≠ [] := List.cons_ne_nil _ _
    rw [toList_prettyAt_record] at hfuel ⊢
    simp only [List.length_append, List.length_cons] at hfuel
    exact readValue_recordText (opens_prettyFields hne _)
      (readEntries_pretty (field :: fields) hne h (by omega) rest)
  | null | bool _ | number _ | text _ => by
    intro h level fuel hfuel rest hrest
    obtain ⟨fuel, rfl⟩ := (opens_prettyAt h level).exists_fuel hfuel
    exact readValue_leaf h level fuel hrest nofun nofun

/-- The text of a list's items, up to the bracket after them, is read as the items. -/
theorem readItems_pretty : ∀ (items : List Json), items ≠ [] → ItemsReadable items →
    ∀ {level fuel : Nat}, (String.intercalate (between (level + 1))
      (prettyItems (level + 1) items)).toList.length < fuel → ∀ rest : List Char,
        readItems fuel ((String.intercalate (between (level + 1))
          (prettyItems (level + 1) items)).toList ++ ((lineAt level).toList ++ ']' :: rest)) =
            (Outline.ofItems (rereadItems items), some rest)
  | [] => fun hne => absurd rfl hne
  | [item] => by
    intro _ h level fuel hfuel rest
    obtain ⟨fuel, rfl⟩ : ∃ f, fuel = f + 1 := ⟨fuel - 1, by omega⟩
    rw [prettyItems, prettyItems, String.intercalate_singleton] at hfuel ⊢
    exact readItems_last (readValue_prettyAt item h.1 (by omega) (stops_lineAt level _))
      (afterSpace_lineAt level rfl rest)
  | item :: second :: others => by
    intro _ h level fuel hfuel rest
    obtain ⟨fuel, rfl⟩ : ∃ f, fuel = f + 1 := ⟨fuel - 1, by omega⟩
    have hrest : prettyItems (level + 1) (second :: others) ≠ [] := by
      rw [prettyItems]
      exact List.cons_ne_nil _ _
    rw [prettyItems, String.intercalate_cons_of_ne_nil hrest, String.toList_append,
      String.toList_append, toList_between] at hfuel ⊢
    simp only [List.append_assoc, List.cons_append, List.length_append, List.length_cons]
      at hfuel ⊢
    refine readItems_more (readValue_prettyAt item h.1 (by omega) (stops_comma _))
      (afterSpace_cons rfl _) ?_
    rw [readItems_append (isSpace_lineAt (level + 1))]
    exact readItems_pretty (second :: others) (List.cons_ne_nil _ _) h.2 (by omega) rest

/-- The text of a record's fields, up to the bracket after them, is read as the fields. -/
theorem readEntries_pretty : ∀ (fields : List (String × Json)), fields ≠ [] →
    FieldsReadable fields → ∀ {level fuel : Nat}, (String.intercalate (between (level + 1))
      (prettyFields (level + 1) fields)).toList.length < fuel → ∀ rest : List Char,
        readEntries fuel ((String.intercalate (between (level + 1))
          (prettyFields (level + 1) fields)).toList ++ ((lineAt level).toList ++ '}' :: rest)) =
            (Outline.ofFields (rereadFields fields), some rest)
  | [] => fun hne => absurd rfl hne
  | [(name, value)] => by
    intro _ h level fuel hfuel rest
    obtain ⟨fuel, rfl⟩ : ∃ f, fuel = f + 1 := ⟨fuel - 1, by omega⟩
    rw [prettyFields, prettyFields, String.intercalate_singleton, toList_entry] at hfuel ⊢
    simp only [List.append_assoc, List.cons_append, List.length_append, List.length_cons]
      at hfuel ⊢
    exact readEntries_last (readValue_prettyAt value h.1 (by omega) (stops_lineAt level _))
      (afterSpace_lineAt level rfl rest)
  | (name, value) :: second :: others => by
    intro _ h level fuel hfuel rest
    obtain ⟨fuel, rfl⟩ : ∃ f, fuel = f + 1 := ⟨fuel - 1, by omega⟩
    have hrest : prettyFields (level + 1) (second :: others) ≠ [] := by
      rw [prettyFields]
      exact List.cons_ne_nil _ _
    rw [prettyFields, String.intercalate_cons_of_ne_nil hrest, String.toList_append,
      String.toList_append, toList_entry, toList_between] at hfuel ⊢
    simp only [List.append_assoc, List.cons_append, List.length_append, List.length_cons]
      at hfuel ⊢
    refine readEntries_more (readValue_prettyAt value h.1 (by omega) (stops_comma _))
      (afterSpace_cons rfl _) ?_
    rw [readEntries_append (isSpace_lineAt (level + 1))]
    exact readEntries_pretty (second :: others) (List.cons_ne_nil _ _) h.2 (by omega) rest

end

/-- The indented text of a value is read as the value, and nothing is left over. -/
theorem outline_pretty {value : Json} (h : value.Readable) :
    outline value.pretty = (Outline.ofJson value.reread, true) := by
  have hfuel : (prettyAt 0 value).toList.length ≤ 2 * (prettyAt 0 value).toList.length + 2 := by
    omega
  have hread := readValue_prettyAt value h hfuel Stops.nil
  rw [List.append_nil] at hread
  rw [outline, pretty]
  simp only [hread]
  rfl

end Patchbay.Json
