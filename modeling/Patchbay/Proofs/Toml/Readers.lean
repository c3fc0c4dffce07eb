import Mathlib.Data.List.TakeDrop
import Patchbay.Toml.Reader
/-!
# Readers at work

What the readers of TOML texts do on a text whose beginning is known. A reader that is run again and
again takes one part of a text after another, as long as it takes each of them whatever comes behind
(`many_flatMap`). A name is read as a key of one part, whatever gap is left behind it
(`keyParts_name`).
-/

namespace Patchbay.Toml.Reader

variable {β γ : Type} {s s' rest : List Char}

/-! ## Putting readers together -/

@[simp]
theorem bind_apply (r : Reader β) (f : β → Reader γ) (s : List Char) :
    (r >>= f) s = (r s).bind fun x => f x.1 x.2 := rfl

@[simp]
theorem pure_apply (b : β) (s : List Char) : (pure b : Reader β) s = some (b, s) := rfl

@[simp]
theorem orElse_apply (r r' : Reader β) (s : List Char) : (r <|> r') s = (r s <|> r' s) := rfl

@[simp]
theorem failure_apply (s : List Char) : (failure : Reader β) s = none := rfl

@[simp]
theorem map_apply (f : β → γ) (r : Reader β) (s : List Char) :
    (f <$> r) s = (r s).map fun x => (f x.1, x.2) := by
  show (r s).bind _ = _
  cases r s <;> rfl

@[simp]
theorem lift_apply (o : Option β) (s : List Char) :
    (StateT.lift o : Reader β) s = o.map (·, s) := by
  cases o <;> rfl

@[simp]
theorem peek_apply (s : List Char) : peek s = some (s.head?, s) := rfl

theorem maybe_of_some {r : Reader β} {b : β} (h : r s = some (b, s')) :
    maybe r s = some (some b, s') := by
  simp [maybe, h]

theorem maybe_of_none {r : Reader β} (h : r s = none) : maybe r s = some (none, s) := by
  simp [maybe, h]

/-! ## Characters -/

theorem one_cons {p : Char → Bool} {c : Char} (h : p c = true) :
    one p (c :: rest) = some (c, rest) :=
  if_pos h

theorem one_none {p : Char → Bool} (h : ∀ c ∈ s.head?, p c = false) : one p s = none := by
  cases s with
  | nil => rfl
  | cons c rest => exact if_neg (Bool.eq_false_iff.mp (h c rfl))

@[simp]
theorem char_cons (c : Char) (rest : List Char) : char c (c :: rest) = some ((), rest) := by
  simp [char, one]

theorem char_none {c : Char} (h : s.head? ≠ some c) : char c s = none := by
  have hfails : one (· == c) s = none := one_none fun d hd => by
    refine beq_eq_false_iff_ne.mpr ?_
    rintro rfl
    exact h hd
  rw [char, bind_apply, hfails]
  rfl

/-- A word fails on a text that begins otherwise. -/
theorem word_none {w : String} {c : Char} {tail : List Char} (hw : w.toList = c :: tail)
    (h : s.head? ≠ some c) : word w s = none := by
  rw [word, hw]
  show (char c s).bind _ = none
  rw [char_none h]
  rfl

/-- A word of two characters fails behind the first. -/
theorem word_second_none {w : String} {c d : Char} (hw : w.toList = [c, d])
    (h : rest.head? ≠ some d) :
    word w (c :: rest) = none := by
  rw [word, hw]
  show (char c (c :: rest)).bind (fun x => (char d x.2).bind _) = none
  rw [char_cons, Option.bind_some, char_none h]
  rfl

theorem span_append {p : Char → Bool} {taken : List Char} (htaken : ∀ c ∈ taken, p c = true)
    (hrest : ∀ c ∈ rest.head?, p c = false) : span p (taken ++ rest) = some (taken, rest) := by
  show some (List.span p (taken ++ rest)) = _
  rw [List.span_eq_takeWhile_dropWhile, List.takeWhile_append_of_pos htaken,
    List.dropWhile_append_of_pos htaken]
  cases rest with
  | nil => simp
  | cons c rest =>
    have hc : p c = false := hrest c rfl
    simp [hc]

theorem span1_append {p : Char → Bool} {taken : List Char} (hne : taken ≠ [])
    (htaken : ∀ c ∈ taken, p c = true) (hrest : ∀ c ∈ rest.head?, p c = false) :
    span1 p (taken ++ rest) = some (taken, rest) := by
  obtain ⟨c, tail, rfl⟩ := List.exists_cons_of_ne_nil hne
  obtain ⟨hc, htail⟩ := List.forall_mem_cons.mp htaken
  rw [span1, List.cons_append, bind_apply, one_cons hc, Option.bind_some, bind_apply,
    span_append htail hrest]
  rfl

theorem gap_append {taken : List Char} (htaken : ∀ c ∈ taken, isGap c = true)
    (hrest : ∀ c ∈ rest.head?, isGap c = false) : gap (taken ++ rest) = some ((), rest) := by
  rw [gap, bind_apply, span_append htaken hrest]
  rfl

theorem gap_none (hrest : ∀ c ∈ rest.head?, isGap c = false) : gap rest = some ((), rest) :=
  gap_append (List.forall_mem_nil _) hrest

@[simp]
theorem newline_cons (rest : List Char) : newline ('\n' :: rest) = some ((), rest) := by
  rw [newline, bind_apply, maybe_of_none (char_none (by simp))]
  exact char_cons _ _

@[simp]
theorem lineEnd_cons (rest : List Char) : lineEnd ('\n' :: rest) = some ((), rest) := by
  have hgap : gap ('\n' :: rest) = some ((), '\n' :: rest) := gap_none (by simp [isGap])
  have hcomment : comment ('\n' :: rest) = none := by
    rw [comment, bind_apply, char_none (by simp)]
    rfl
  simp [lineEnd, hgap, maybe_of_none hcomment]

/-! ## Repetition -/

theorem many_of_none {r : Reader β} (h : r s = none) (times : Nat) :
    many r times s = some ([], s) := by
  cases times with
  | zero => rfl
  | succ times => simp [many, h]

/-- A reader that takes every part takes all of them, and stops where it fails. -/
theorem many_flatMap {r : Reader β} {parts : List (List Char × β)}
    (hparts : ∀ part ∈ parts, ∀ rest, r (part.1 ++ rest) = some (part.2, rest))
    (hrest : r rest = none) {times : Nat} (htimes : parts.length ≤ times) :
    many r times (parts.flatMap (·.1) ++ rest) = some (parts.map (·.2), rest) := by
  induction parts generalizing times with
  | nil => exact many_of_none hrest times
  | cons part parts ih =>
    obtain ⟨times, rfl⟩ := Nat.exists_eq_add_one_of_ne_zero
      (Nat.ne_of_gt (Nat.lt_of_lt_of_le (Nat.succ_pos _) htimes))
    obtain ⟨hpart, hparts⟩ := List.forall_mem_cons.mp hparts
    -- the first part is taken with all others still behind it
    have hagain := ih hparts (Nat.le_of_succ_le_succ htimes)
    rw [many, orElse_apply, bind_apply, List.flatMap_cons, List.append_assoc, hpart,
      Option.bind_some, bind_apply, hagain]
    rfl

/-! ## Keys -/

/-- A name that can be written as a key without quotes. -/
structure IsName (name : List Char) : Prop where
  nonempty : name ≠ []
  keyChar : ∀ c ∈ name, isKeyChar c = true

instance (name : List Char) : Decidable (IsName name) :=
  decidable_of_iff (name ≠ [] ∧ name.all isKeyChar = true)
    ⟨fun h => ⟨h.1, List.all_eq_true.mp h.2⟩, fun h => ⟨h.1, List.all_eq_true.mpr h.2⟩⟩

/-- Gaps, quotes, brackets and the marks of comments and line ends are not part of names. -/
theorem IsName.head {name : List Char} (h : IsName name) : ∃ c tail, name = c :: tail ∧
    c ∉ [' ', '\t', '"', '\'', '[', '#', '\n', '\r', '\ufeff'] := by
  obtain ⟨c, tail, rfl⟩ := List.exists_cons_of_ne_nil h.nonempty
  refine ⟨c, tail, rfl, fun hmem => ?_⟩
  have hall : [' ', '\t', '"', '\'', '[', '#', '\n', '\r', '\ufeff'].all (!isKeyChar ·) = true :=
    rfl
  have hnone : (!isKeyChar c) = true := List.all_eq_true.mp hall c hmem
  rw [h.keyChar c List.mem_cons_self] at hnone
  cases hnone

/-- A name with a gap behind it, before something that is neither a gap nor a part of a key. -/
theorem keyParts_name {name blank : List Char} (hname : IsName name)
    (hblank : ∀ c ∈ blank, isGap c = true)
    (hrest : ∀ c ∈ rest.head?, isGap c = false ∧ isKeyChar c = false ∧ c ≠ '.') (times : Nat) :
    keyParts times (name ++ (blank ++ rest)) = some ([String.ofList name], rest) := by
  obtain ⟨c, tail, hhead, hc⟩ := hname.head
  simp only [List.mem_cons, List.not_mem_nil, or_false, not_or] at hc
  have hgap : gap (name ++ (blank ++ rest)) = some ((), name ++ (blank ++ rest)) :=
    gap_none fun d hd => by
      rw [hhead] at hd
      obtain rfl : c = d := Option.some.inj hd
      simp [isGap, hc.1, hc.2.1]
  -- no key character is a quote, so the two quoted forms that are tried first fail
  have hquoted : quoted times (name ++ (blank ++ rest)) = none := by
    rw [quoted, bind_apply, char_none (by simp [hhead, hc.2.2.1])]
    rfl
  have hliteral : literal (name ++ (blank ++ rest)) = none := by
    rw [literal, bind_apply, char_none (by simp [hhead, hc.2.2.2.1])]
    rfl
  have hspan : span1 isKeyChar (name ++ (blank ++ rest)) = some (name, blank ++ rest) := by
    refine span1_append hname.nonempty hname.keyChar fun d hd => ?_
    cases blank with
    | nil => exact (hrest d hd).2.1
    | cons b blank =>
      obtain rfl : b = d := Option.some.inj hd
      have hblank := hblank b List.mem_cons_self
      simp only [isGap, Bool.or_eq_true, beq_iff_eq] at hblank
      rcases hblank with rfl | rfl <;> rfl
  have hpart : keyPart times (name ++ (blank ++ rest)) = some (String.ofList name, rest) := by
    simp [keyPart, hgap, hquoted, hliteral, hspan, gap_append hblank fun d hd => (hrest d hd).1]
  have hmore : (do char '.'; keyPart times : Reader String) rest = none := by
    rw [bind_apply, char_none fun h => (hrest '.' h).2.2 rfl]
    rfl
  simp [keyParts, separated, hpart, many_of_none hmore, levels]

/-! ## Values -/

/-- A text that is read as a value up to the end of its line. -/
structure Writes (text : List Char) (v : Value) : Prop where
  head : ∃ c tail, text = c :: tail ∧ isGap c = false
  value : ∀ times rest, text.length ≤ times →
    value times levels (text ++ '\n' :: rest) = some (v, '\n' :: rest)

end Patchbay.Toml.Reader
