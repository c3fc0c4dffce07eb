import Patchbay.Proofs.Toml.Readers
/-!
# TOML documents of sections

A document that is written in sections is read as the table of these sections
(`Toml.read_of_written`). It has one line for the header of a section and one for each entry, and
a blank line between two sections. Every line is read as what it says, whatever comes behind it, and
the table takes in one line after the other.
-/

namespace Patchbay.Toml

/-! ## Tables -/

namespace Fields

variable {fields inner : Fields} {name : String} {v w : Value}

theorem get?_eq_none (h : name ∉ fields.map (·.1)) : get? fields name = none := by
  rw [get?, Option.map_eq_none_iff, List.find?_eq_none]
  intro field hfield heq
  exact h (List.mem_map.mpr ⟨field, hfield, beq_iff_eq.mp heq⟩)

theorem get?_append_last (h : name ∉ fields.map (·.1)) :
    get? (fields ++ [(name, v)]) name = some v := by
  have hnone : fields.find? (·.1 == name) = none := Option.map_eq_none_iff.mp (get?_eq_none h)
  simp [get?, List.find?_append, hnone]

theorem put_new (h : name ∉ fields.map (·.1)) : put fields name v = fields ++ [(name, v)] := by
  have hnone : ¬fields.any (·.1 == name) = true := by
    rw [List.any_eq_true]
    rintro ⟨field, hfield, heq⟩
    exact h (List.mem_map.mpr ⟨field, hfield, beq_iff_eq.mp heq⟩)
  rw [put, if_neg hnone]

theorem put_append_last (h : name ∉ fields.map (·.1)) :
    put (fields ++ [(name, v)]) name w = fields ++ [(name, w)] := by
  have hkept : fields.map (fun f => if f.1 == name then (name, w) else f) = fields := by
    refine (List.map_congr_left fun field hfield => ?_).trans fields.map_id
    rw [if_neg]
    · rfl
    · intro heq
      exact h (List.mem_map.mpr ⟨field, hfield, beq_iff_eq.mp heq⟩)
  rw [put, if_pos (by simp), List.map_append, hkept]
  simp

end Fields

/-- A header of one name begins a new table. -/
theorem Draft.take_header {d : Draft} {title : String} (h : title ∉ d.fields.map (·.1)) :
    d.take (.header [title]) = some ⟨[title], d.fields ++ [(title, .table .header [])]⟩ := by
  have hdeclare : declare title d.fields = some (d.fields ++ [(title, .table .header [])]) := by
    rw [declare, Fields.get?_eq_none h, Fields.put_new h]
  show (declare title d.fields).bind _ = _
  rw [hdeclare]
  rfl

/-- An entry of a plain name goes to the end of the table of the header. -/
theorem Draft.take_entry {title name : String} {fields inner : Fields} (v : Value)
    (htitle : title ∉ fields.map (·.1)) (hname : name ∉ inner.map (·.1)) :
    Draft.take ⟨[title], fields ++ [(title, .table .header inner)]⟩ (.entry [] name v) =
      some ⟨[title], fields ++ [(title, .table .header (inner ++ [(name, v)]))]⟩ := by
  have hadd : addEntry [] name v .header inner = some (inner ++ [(name, v)]) := by
    show (if (Fields.get? inner name).isSome then none else some (Fields.put inner name v)) = _
    rw [Fields.get?_eq_none hname, Fields.put_new hname]
    rfl
  have hunder :
      changeUnder [title] (addEntry [] name v) (fields ++ [(title, .table .header inner)]) =
        some (fields ++ [(title, .table .header (inner ++ [(name, v)]))]) := by
    rw [changeUnder, changeAt, Fields.get?_append_last htitle]
    show (addEntry [] name v .header inner).map _ = _
    rw [hadd, Option.map_some, Fields.put_append_last htitle]
  show (changeUnder _ _ _).map _ = _
  rw [hunder]
  rfl

theorem foldlM_entries {title : String} {fields inner : Fields} {entries : List (String × Value)}
    (htitle : title ∉ fields.map (·.1)) (hnames : ((inner ++ entries).map (·.1)).Nodup) :
    (entries.map fun e => Statement.entry [] e.1 e.2).foldlM Draft.take
        ⟨[title], fields ++ [(title, .table .header inner)]⟩ =
      some ⟨[title], fields ++ [(title, .table .header (inner ++ entries))]⟩ := by
  induction entries generalizing inner with
  | nil => rw [List.append_nil]; rfl
  | cons e entries ih =>
    have hname : e.1 ∉ inner.map (·.1) := by
      rw [List.map_append, List.map_cons] at hnames
      intro hmem
      exact (List.nodup_append.mp hnames).2.2 _ hmem _ List.mem_cons_self rfl
    rw [List.map_cons, List.foldlM_cons, Draft.take_entry e.2 htitle hname]
    have hagain : ((inner ++ [(e.1, e.2)] ++ entries).map (·.1)).Nodup := by simpa using hnames
    have hrest := ih hagain
    rw [List.append_assoc] at hrest
    exact hrest

/-- What the lines of a section say. -/
def sectionStatements (title : String) (entries : List (String × Value)) : List Statement :=
  .header [title] :: entries.map fun e => .entry [] e.1 e.2

/-- Sections of different titles, with different names in each, become a table of tables. -/
theorem ofStatements_sections {sections : List (String × List (String × Value))}
    (htitles : (sections.map (·.1)).Nodup) (hnames : ∀ s ∈ sections, (s.2.map (·.1)).Nodup) :
    Fields.ofStatements (sections.flatMap fun s => sectionStatements s.1 s.2) =
      some (sections.map fun s => (s.1, .table .header s.2)) := by
  -- a section begins with its own header, so it does not matter which one was before
  have hfold : ∀ header (fields : Fields), (fields.map (·.1) ++ sections.map (·.1)).Nodup →
      ((sections.flatMap fun s => sectionStatements s.1 s.2).foldlM Draft.take ⟨header, fields⟩).map
        (·.fields) = some (fields ++ sections.map fun s => (s.1, .table .header s.2)) := by
    clear htitles
    induction sections with
    | nil => intro header fields _; simp
    | cons s sections ih =>
      intro header fields hnodup
      obtain ⟨hs, hsections⟩ := List.forall_mem_cons.mp hnames
      have htitle : s.1 ∉ fields.map (·.1) := fun hmem =>
        (List.nodup_append.mp hnodup).2.2 _ hmem _ List.mem_cons_self rfl
      rw [List.flatMap_cons, sectionStatements, List.cons_append, List.foldlM_cons,
        Draft.take_header htitle]
      rw [Option.bind_eq_bind, Option.bind_some, List.foldlM_append,
        foldlM_entries htitle (by simpa using hs), Option.bind_eq_bind, Option.bind_some]
      have hrest := ih hsections [s.1] (fields ++ [(s.1, .table .header s.2)])
        (by simpa using hnodup)
      simpa using hrest
  exact hfold [] [] (by simpa using htitles)

/-! ## Lines -/

namespace Reader

variable {times : Nat} {rest : List Char}

theorem line_nil (times : Nat) : line times [] = none := rfl

theorem line_blank (times : Nat) (rest : List Char) :
    line times ('\n' :: rest) = some (none, rest) := by
  rw [line, bind_apply, gap_none (by simp [isGap])]
  simp

theorem line_header {title : String} (h : IsName title.toList) (times : Nat) (rest : List Char) :
    line times ('[' :: (title.toList ++ ']' :: '\n' :: rest)) =
      some (some (.header [title]), rest) := by
  have hkey : keyParts times (title.toList ++ ([] ++ ']' :: '\n' :: rest)) =
      some ([String.ofList title.toList], ']' :: '\n' :: rest) :=
    keyParts_name h (List.forall_mem_nil _) (by rintro c ⟨⟩; decide) times
  rw [String.ofList_toList, List.nil_append] at hkey
  obtain ⟨c, tail, hhead, hc⟩ := h.head
  have hsecond : (title.toList ++ ']' :: '\n' :: rest).head? ≠ some '[' := by
    rw [hhead]
    rintro ⟨⟩
    exact hc (by decide)
  have hlist : listHeader times ('[' :: (title.toList ++ ']' :: '\n' :: rest)) = none := by
    rw [listHeader, bind_apply, word_second_none rfl hsecond]
    rfl
  have hgap : gap ('[' :: (title.toList ++ ']' :: '\n' :: rest)) =
      some ((), '[' :: (title.toList ++ ']' :: '\n' :: rest)) := gap_none (by simp [isGap])
  simp [line, hgap, hlist, header, hkey]

theorem line_entry {name : String} (h : IsName name.toList) {text : List Char} {v : Value}
    (hvalue : Writes text v) (htimes : text.length ≤ times) (rest : List Char) :
    line times (name.toList ++ ' ' :: '=' :: ' ' :: (text ++ '\n' :: rest)) =
      some (some (.entry [] name v), rest) := by
  obtain ⟨c, tail, hhead, hc⟩ := h.head
  simp only [List.mem_cons, List.not_mem_nil, or_false, not_or] at hc
  have hgap : gap (name.toList ++ ' ' :: '=' :: ' ' :: (text ++ '\n' :: rest)) =
      some ((), name.toList ++ ' ' :: '=' :: ' ' :: (text ++ '\n' :: rest)) :=
    gap_none fun d hd => by
      rw [hhead] at hd
      obtain rfl : c = d := Option.some.inj hd
      simp [isGap, hc.1, hc.2.1]
  have hkey : keyParts times (name.toList ++ ([' '] ++ '=' :: ' ' :: (text ++ '\n' :: rest))) =
      some ([String.ofList name.toList], '=' :: ' ' :: (text ++ '\n' :: rest)) :=
    keyParts_name h (List.forall_mem_singleton.mpr rfl) (by rintro c ⟨⟩; decide) times
  rw [String.ofList_toList, List.singleton_append] at hkey
  have hbefore : gap ([' '] ++ (text ++ '\n' :: rest)) = some ((), text ++ '\n' :: rest) := by
    refine gap_append (List.forall_mem_singleton.mpr rfl) fun d hd => ?_
    obtain ⟨first, others, rfl, hfirst⟩ := hvalue.head
    obtain rfl : first = d := Option.some.inj hd
    exact hfirst
  rw [List.singleton_append] at hbefore
  have hentry : entry times (name.toList ++ ' ' :: '=' :: ' ' :: (text ++ '\n' :: rest)) =
      some (.entry [] name v, '\n' :: rest) := by
    simp [entry, key, hkey, hbefore, hvalue.value times rest htimes]
  rw [line, bind_apply, hgap, Option.bind_some, bind_apply, peek_apply, Option.bind_some]
  dsimp only
  -- a name begins with nothing that other lines begin with
  rw [hhead] at hentry ⊢
  rw [List.cons_append] at hentry ⊢
  generalize ho : (c :: (tail ++ ' ' :: '=' :: ' ' :: (text ++ '\n' :: rest))).head? = o
  split
  next => simp [hc] at ho
  next => simp [hc] at ho
  next => simp [hc] at ho
  next => simp [hc] at ho
  next => simp [hentry]

end Reader

/-! ## Documents -/

/-- An entry as it is written, with the value that its text is read as. -/
structure WrittenEntry where
  name : String
  text : String
  value : Value

structure WrittenSection where
  title : String
  entries : List WrittenEntry

def WrittenEntry.line (e : WrittenEntry) : List Char × Option Statement :=
  (e.name.toList ++ ' ' :: '=' :: ' ' :: (e.text.toList ++ ['\n']), some (.entry [] e.name e.value))

def WrittenSection.fields (s : WrittenSection) : Fields := s.entries.map fun e => (e.name, e.value)

/-- The lines of a section with what they say. -/
def WrittenSection.lines (s : WrittenSection) : List (List Char × Option Statement) :=
  ('[' :: (s.title.toList ++ [']', '\n']), some (.header [s.title])) :: s.entries.map (·.line)

/-- The lines of a document, with a blank one between two sections. -/
def documentLines : List WrittenSection → List (List Char × Option Statement)
  | [] => []
  | [s] => s.lines
  | s :: rest => s.lines ++ (['\n'], none) :: documentLines rest

/-- The names can be written as keys, each only once, and the texts are read as the values. -/
structure WrittenSection.WellFormed (s : WrittenSection) : Prop where
  title : Reader.IsName s.title.toList
  names : ∀ e ∈ s.entries, Reader.IsName e.name.toList
  values : ∀ e ∈ s.entries, Reader.Writes e.text.toList e.value
  nodup : (s.entries.map (·.name)).Nodup

section

variable {sections : List WrittenSection} {l : List Char × Option Statement}

theorem mem_documentLines (h : l ∈ documentLines sections) :
    l = (['\n'], none) ∨ ∃ s ∈ sections, l ∈ s.lines := by
  fun_induction documentLines sections with
  | case1 => cases h
  | case2 s => exact Or.inr ⟨s, List.mem_singleton_self s, h⟩
  | case3 s rest hrest ih =>
    rcases List.mem_append.mp h with h | h
    · exact Or.inr ⟨s, List.mem_cons_self, h⟩
    · rcases List.mem_cons.mp h with h | h
      · exact Or.inl h
      · exact (ih h).imp_right fun ⟨s, hs, hl⟩ => ⟨s, List.mem_cons_of_mem _ hs, hl⟩

theorem statements_documentLines (sections : List WrittenSection) :
    ((documentLines sections).map (·.2)).filterMap id =
      sections.flatMap fun s => sectionStatements s.title s.fields := by
  have hsection : ∀ s : WrittenSection,
      (s.lines.map (·.2)).filterMap id = sectionStatements s.title s.fields := by
    intro s
    simp [WrittenSection.lines, WrittenSection.fields, WrittenEntry.line, sectionStatements,
      List.filterMap_map, Function.comp_def]
  fun_induction documentLines sections with
  | case1 => rfl
  | case2 s => rw [hsection, List.flatMap_singleton]
  | case3 s rest hrest ih =>
    rw [List.map_append, List.filterMap_append, hsection, List.map_cons, List.filterMap_cons]
    exact congrArg (_ ++ ·) ih

/-- Every line is read as what it says, whatever comes behind it. -/
theorem line_of_mem (hsections : ∀ s ∈ sections, s.WellFormed) (hl : l ∈ documentLines sections)
    {times : Nat} (htimes : l.1.length ≤ times) (rest : List Char) :
    Reader.line times (l.1 ++ rest) = some (l.2, rest) := by
  obtain rfl | ⟨s, hs, hl⟩ := mem_documentLines hl
  · exact Reader.line_blank times rest
  · have hwell := hsections s hs
    rcases List.mem_cons.mp hl with rfl | hl
    · have hheader := Reader.line_header hwell.title times rest
      simpa using hheader
    · obtain ⟨e, he, rfl⟩ := List.mem_map.mp hl
      have hlength : e.text.toList.length ≤ times := by
        simp only [WrittenEntry.line, List.length_append, List.length_cons] at htimes
        omega
      have hentry := Reader.line_entry (hwell.names e he) (hwell.values e he) hlength rest
      simpa [WrittenEntry.line] using hentry

theorem ne_nil_of_mem (hl : l ∈ documentLines sections) : l.1 ≠ [] := by
  obtain rfl | ⟨s, -, hl⟩ := mem_documentLines hl
  · exact List.cons_ne_nil _ _
  · rcases List.mem_cons.mp hl with rfl | hl
    · exact List.cons_ne_nil _ _
    · obtain ⟨e, -, rfl⟩ := List.mem_map.mp hl
      simp [WrittenEntry.line]

/-- A document begins with the header of its first section. -/
theorem head_documentLines {c : Char}
    (hc : ((documentLines sections).flatMap (·.1)).head? = some c) : c = '[' := by
  rcases sections with _ | ⟨s, _ | ⟨s', rest⟩⟩
  · cases hc
  · exact (Option.some.inj hc).symm
  · exact (Option.some.inj hc).symm

/-- Where no line is empty, there are no more lines than characters. -/
theorem length_le_length_flatMap {lines : List (List Char × Option Statement)}
    (h : ∀ l ∈ lines, l.1 ≠ []) : lines.length ≤ (lines.flatMap (·.1)).length := by
  induction lines with
  | nil => exact Nat.le_refl 0
  | cons l lines ih =>
    obtain ⟨hl, hlines⟩ := List.forall_mem_cons.mp h
    have hpos := List.length_pos_iff.mpr hl
    have hrest := ih hlines
    rw [List.flatMap_cons, List.length_append, List.length_cons]
    omega

end

namespace Reader

/-- A document takes line after line. -/
theorem document_of_lines {sections : List WrittenSection}
    (hsections : ∀ s ∈ sections, s.WellFormed) {source : List Char}
    (hsource : source = (documentLines sections).flatMap (·.1)) {times : Nat}
    (htimes : source.length ≤ times) :
    document times source =
      some (sections.flatMap fun s => sectionStatements s.title s.fields, []) := by
  have hlines : ∀ l ∈ documentLines sections, ∀ rest,
      line times (l.1 ++ rest) = some (l.2, rest) := by
    refine fun l hl rest => line_of_mem hsections hl (Nat.le_trans ?_ htimes) rest
    rw [hsource]
    exact (List.sublist_flatten_of_mem (List.mem_map_of_mem hl)).length_le
  -- no line is empty, so a document is read as often as it has lines
  have hfew : (documentLines sections).length ≤ times := by
    refine Nat.le_trans ?_ htimes
    rw [hsource]
    exact length_le_length_flatMap fun l hl => ne_nil_of_mem hl
  have hmany := many_flatMap hlines (line_nil times) hfew
  rw [List.append_nil, ← hsource] at hmany
  have hmark : char '\ufeff' source = none := by
    refine char_none fun heq => ?_
    rw [hsource] at heq
    exact absurd (head_documentLines heq) (by decide)
  rw [document, bind_apply, maybe_of_none hmark, Option.bind_some, bind_apply, hmany,
    Option.bind_some, bind_apply, gap_none (by simp)]
  simp only [statements_documentLines]
  rfl

end Reader

/-- A document that is written in sections is read as the table of these. -/
theorem read_of_written {sections : List WrittenSection} (hsections : ∀ s ∈ sections, s.WellFormed)
    (htitles : (sections.map (·.title)).Nodup) {source : String}
    (hsource : source.toList = (documentLines sections).flatMap (·.1)) :
    read source = some (sections.map fun s => (s.title, .table .header s.fields)) := by
  have htimes : source.toList.length ≤ source.length + 1 := by
    rw [String.length_toList]
    exact Nat.le_succ _
  have hdocument := Reader.document_of_lines hsections hsource htimes
  have htitles : ((sections.map fun s => (s.title, s.fields)).map (·.1)).Nodup := by
    simpa [Function.comp_def] using htitles
  have htable := ofStatements_sections htitles (by
    intro fields hfields
    obtain ⟨s, hs, rfl⟩ := List.mem_map.mp hfields
    simpa [WrittenSection.fields, Function.comp_def] using (hsections s hs).nodup)
  rw [List.flatMap_map, List.map_map] at htable
  rw [read, hdocument]
  exact htable

end Patchbay.Toml
