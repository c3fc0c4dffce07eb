import Mathlib.Data.List.Find
import Patchbay.Proofs.Except
import Patchbay.Store.Disk
import Patchbay.Store.Library
/-!
# Files at their paths

All names of a path but the last lead through folders (`Disk.Follows`). So a path leads to one place
for as long as these are there, whatever becomes of files (`Disk.locate_of_folders`). Making folders
changes nothing that is there (`Disk.Grown`), and a text that is written lies where its path leads,
with nothing else changed but folders that were missing (`Disk.Saved`). It is read there as it was
written, and can be removed from there.
-/

namespace Patchbay

/-! ## Paths -/

namespace Path

variable {name : String}

theorem pieces_of_plain (h : '/' ∉ name.toList) : pieces name = [name] := by
  rw [pieces, List.splitOn_eq_singleton h, List.map_singleton, String.ofList_toList]

theorem pieces_in_folder (folder : String) (h : '/' ∉ name.toList) :
    pieces (folder ++ "/" ++ name) = pieces folder ++ [name] := by
  have hchars : (folder ++ "/" ++ name).toList = folder.toList ++ '/' :: name.toList := by simp
  rw [pieces, hchars, List.splitOn_append_cons_self, List.splitOn_eq_singleton h, List.map_append,
    List.map_singleton, String.ofList_toList]
  rfl

theorem join_of_plain {folder : String} (hfolder : folder.isEmpty = false)
    (hend : folder.endsWith "/" = false) (h : '/' ∉ name.toList) :
    join folder name = folder ++ "/" ++ name := by
  have hstart : name.startsWith "/" = false := by
    rw [String.startsWith_string_eq_false_iff]
    rintro ⟨rest, hrest⟩
    exact h (hrest ▸ List.mem_cons_self)
  rw [join, hstart, hfolder, hend]
  rfl

end Path

namespace Library.Home

variable {name : String}

/-- The folder of the documents is a folder with a name. -/
theorem documents_spec (home : Home) :
    home.documents.isEmpty = false ∧ home.documents.endsWith "/" = false := by
  obtain ⟨front, hfront⟩ : ∃ front, home.documents = front ++ "documents" := by
    have hstart : "documents".startsWith "/" = false := by decide +kernel
    unfold documents Path.join
    rw [hstart]
    split
    next => exact ⟨home.folder, rfl⟩
    next => exact ⟨home.folder ++ "/", rfl⟩
  rw [hfront]
  constructor
  · simp
  · rw [← String.endsWith_toSlice, String.Slice.endsWith_string_eq_false_iff]
    rintro ⟨rest, hrest⟩
    simpa using congrArg List.getLast? hrest

theorem pieces_document (home : Home) (h : '/' ∉ name.toList) :
    Path.pieces (home.document name) = Path.pieces home.documents ++ [name ++ ".json"] := by
  obtain ⟨hfolder, hend⟩ := home.documents_spec
  have hplain : '/' ∉ (name ++ ".json").toList := by simpa using h
  rw [document, Path.join_of_plain hfolder hend hplain, Path.pieces_in_folder _ hplain]

end Library.Home

namespace Disk

variable {d d' : Disk} {place p q : Place} {path text : String}

/-! ## Entries -/

theorem entry?_of_ne (d : Disk) (hplace : place ≠ []) :
    d.entry? place = (d.entries.find? (·.1 == place)).map (·.2) :=
  if_neg (by simpa using hplace)

theorem entry?_put (d : Disk) (hplace : place ≠ []) (content : Option String) (p : Place) :
    Disk.entry? (d.put place content) p = if p = place then some content else d.entry? p := by
  by_cases hp : p = []
  · subst hp
    exact (if_neg hplace.symm).symm
  rw [entry?_of_ne _ hp, entry?_of_ne _ hp]
  unfold put
  split
  next hthere =>
    -- the places stay, so the same entries are found
    have hkeys : ((·.1 == p) ∘ fun e : Place × Option String =>
        if e.1 == place then (place, content) else e) = (·.1 == p) := by
      funext e
      by_cases he : e.1 = place <;> simp [he]
    dsimp only
    rw [List.find?_map, hkeys]
    cases hfound : d.entries.find? (·.1 == p) with
    | none =>
      rw [if_neg]
      · rfl
      · rintro rfl
        obtain ⟨e, he, hplace⟩ := List.any_eq_true.mp hthere
        exact List.find?_eq_none.mp hfound e he hplace
    | some e =>
      have he : e.1 = p := by simpa using List.find?_some hfound
      by_cases hsame : p = place <;> simp [he, hsame]
  next hmissing =>
    rw [List.find?_append, List.find?_singleton]
    by_cases hsame : p = place
    · subst hsame
      have hnone : d.entries.find? (·.1 == p) = none := List.find?_eq_none.mpr
        fun e he hplace => hmissing (List.any_eq_true.mpr ⟨e, he, hplace⟩)
      simp [hnone]
    · simp [hsame, Ne.symm hsame]

theorem entry?_erase (d : Disk) (hplace : place ≠ []) (p : Place) :
    Disk.entry? (d.erase place) p = if p = place then none else d.entry? p := by
  by_cases hp : p = []
  · subst hp
    exact (if_neg hplace.symm).symm
  rw [entry?_of_ne _ hp, entry?_of_ne _ hp, erase, List.find?_filter]
  by_cases hsame : p = place
  · simp [hsame]
  · rw [if_neg hsame]
    refine congrArg _ (List.find?_congr fun e _ => ?_)
    by_cases he : e.1 = p <;> simp [he, hsame]

theorem ne_nil_of_file {text : String} (h : d.entry? place = some (some text)) : place ≠ [] := by
  rintro rfl
  cases h

/-! ## Places -/

/-- A name that says nothing. -/
def Silent (name : String) : Prop := (name.isEmpty || name == ".") = true

/-- A name that stands for what lies under it in a folder. -/
structure Proper (name : String) : Prop where
  said : ¬Silent name
  inward : ¬(name == "..") = true
  short : ¬longestName < name.utf8ByteSize

/-- Names that lead from a folder to a place, all but the last through folders. -/
inductive Follows (d : Disk) : Place → List String → Place → Prop where
  | here {place : Place} : Follows d place [] place
  | silent {place q : Place} {name : String} {rest : List String} (hname : Silent name)
    (hrest : Follows d place rest q) : Follows d place (name :: rest) q
  | back {place q : Place} {name : String} {rest : List String} (hsaid : ¬Silent name)
    (hback : (name == "..") = true) (hrest : Follows d place.dropLast rest q) :
    Follows d place (name :: rest) q
  | last {place : Place} {name : String} (hname : Proper name) :
    Follows d place [name] (place ++ [name])
  | through {place q : Place} {name : String} {rest : List String} (hname : Proper name)
    (hmore : ¬rest.isEmpty = true) (hfolder : d.entry? (place ++ [name]) = some none)
    (hrest : Follows d (place ++ [name]) rest q) : Follows d place (name :: rest) q

theorem follow_eq_ok {names : List String} :
    d.follow place names = .ok q ↔ d.Follows place names q := by
  constructor
  · intro h
    induction names generalizing place with
    | nil =>
      cases h
      exact .here
    | cons name rest ih =>
      unfold follow at h
      split at h
      next hsilent => exact .silent hsilent (ih h)
      next hsaid =>
        split at h
        next hback => exact .back hsaid hback (ih h)
        next hinward =>
          split at h
          next => cases h
          next hshort =>
            dsimp only at h
            split at h
            next hlast =>
              cases h
              obtain rfl := List.isEmpty_iff.mp hlast
              exact .last ⟨hsaid, hinward, hshort⟩
            next hmore =>
              split at h
              next hfolder => exact .through ⟨hsaid, hinward, hshort⟩ hmore hfolder (ih h)
              next => cases h
              next => cases h
  · intro h
    induction h with
    | here => rfl
    | silent hname _ ih => exact (if_pos hname).trans ih
    | back hsaid hback _ ih => exact (if_neg hsaid).trans ((if_pos hback).trans ih)
    | last hname =>
      exact (if_neg hname.said).trans ((if_neg hname.inward).trans (if_neg hname.short))
    | through hname hmore hfolder _ ih =>
      refine (if_neg hname.said).trans ((if_neg hname.inward).trans ((if_neg hname.short).trans ?_))
      dsimp only
      rw [if_neg hmore, hfolder]
      exact ih

theorem Follows.of_folders (h : ∀ p, d.entry? p = some none → d'.entry? p = some none)
    {names : List String} (hfollows : d.Follows place names q) : d'.Follows place names q := by
  induction hfollows with
  | here => exact .here
  | silent hname _ ih => exact .silent hname ih
  | back hsaid hback _ ih => exact .back hsaid hback ih
  | last hname => exact .last hname
  | through hname hmore hfolder _ ih => exact .through hname hmore (h _ hfolder) ih

/-- Names lead to what the last of them stands for. -/
theorem Follows.getLast? {names : List String} {leaf : String} (hsaid : ¬Silent leaf)
    (hinward : ¬(leaf == "..") = true) (h : d.Follows place (names ++ [leaf]) q) :
    q.getLast? = some leaf := by
  induction names generalizing place with
  | nil =>
    cases h with
    | silent hname _ => exact absurd hname hsaid
    | back _ hback _ => exact absurd hback hinward
    | last _ => exact List.getLast?_concat
    | through _ hmore _ _ => exact absurd rfl hmore
  | cons name rest ih =>
    rw [List.cons_append] at h
    generalize hnames : rest ++ [leaf] = names at h ih
    cases h with
    | silent _ hrest => exact ih hrest
    | back _ _ hrest => exact ih hrest
    | last _ => exact absurd hnames (by simp)
    | through _ _ _ hrest => exact ih hrest

theorem locate_eq_ok : d.locate path = .ok q ↔
    path.isEmpty = false ∧ '\x00' ∉ path.toList ∧ d.Follows [] (Path.pieces path) q := by
  rw [← follow_eq_ok]
  unfold locate
  split
  next hempty => simp [hempty]
  next hempty =>
    split
    next hnul => simp [hnul]
    next hnul => simp [hempty, hnul]

/-- A path leads to the same place as long as the folders are there. -/
theorem locate_of_folders (h : ∀ p, d.entry? p = some none → d'.entry? p = some none)
    (hlocate : d.locate path = .ok q) : d'.locate path = .ok q := by
  obtain ⟨hempty, hnul, hfollow⟩ := locate_eq_ok.mp hlocate
  exact locate_eq_ok.mpr ⟨hempty, hnul, hfollow.of_folders h⟩

/-- A plain name leads to what lies under it right here, or nowhere else, on any disk. -/
theorem locate_of_plain (h : '/' ∉ path.toList) (hlocate : d.locate path = .ok q) :
    (q = [] ∨ q = [path]) ∧ ∀ d' : Disk, d'.locate path = .ok q := by
  obtain ⟨hempty, hnul, hfollows⟩ := locate_eq_ok.mp hlocate
  rw [Path.pieces_of_plain h] at hfollows
  have hsingle : (q = [] ∨ q = [path]) ∧ ∀ d' : Disk, d'.Follows [] [path] q := by
    cases hfollows with
    | silent hname hrest =>
      cases hrest
      exact ⟨.inl rfl, fun _ => .silent hname .here⟩
    | back hsaid hback hrest =>
      cases hrest
      exact ⟨.inl rfl, fun _ => .back hsaid hback .here⟩
    | last hname => exact ⟨.inr rfl, fun _ => .last hname⟩
    | through _ hmore _ _ => exact absurd rfl hmore
  refine ⟨hsingle.1, fun d' => locate_eq_ok.mpr ⟨hempty, hnul, ?_⟩⟩
  rw [Path.pieces_of_plain h]
  exact hsingle.2 d'

theorem kindOf?_eq_file : d.kindOf? path = some .file ↔
    ∃ place text, d.locate path = .ok place ∧ d.entry? place = some (some text) := by
  unfold kindOf?
  cases d.locate path with
  | error => simp
  | ok place => rcases hentry : d.entry? place with _ | _ | _ <;> simp [hentry]

/-! ## Making folders -/

/-- A place holds what it held, or a folder where nothing was. -/
def GrownAt (d d' : Disk) (p : Place) : Prop :=
  d'.entry? p = d.entry? p ∨ d.entry? p = none ∧ d'.entry? p = some none

theorem GrownAt.trans {d'' : Disk} (h : d.GrownAt d' p) (h' : d'.GrownAt d'' p) :
    d.GrownAt d'' p := by
  rcases h' with hsame | ⟨hnone, hfolder⟩
  · unfold GrownAt
    rwa [hsame]
  · rcases h with hbefore | ⟨-, hbefore⟩
    · exact .inr ⟨hbefore ▸ hnone, hfolder⟩
    · rw [hnone] at hbefore
      cases hbefore

/-- A disk with further folders. -/
def Grown (d d' : Disk) : Prop := ∀ p, d.GrownAt d' p

theorem Grown.refl (d : Disk) : d.Grown d := fun _ => .inl rfl

theorem Grown.trans {d'' : Disk} (h : d.Grown d') (h' : d'.Grown d'') : d.Grown d'' :=
  fun p => (h p).trans (h' p)

theorem grown_of_makeFolder (h : d.makeFolder path = .ok d') : d.Grown d' := by
  obtain ⟨place, -, h⟩ := bind_eq_ok.mp h
  split at h
  next => cases h
  next hfree =>
    cases h
    have hnone : d.entry? place = none := by simpa using hfree
    have hplace : place ≠ [] := by
      rintro rfl
      cases hnone
    intro p
    have hput := entry?_put d hplace none p
    by_cases hp : p = place
    · exact .inr ⟨hp ▸ hnone, hput.trans (if_pos hp)⟩
    · exact .inl (hput.trans (if_neg hp))

/-- Operations that at most make folders. -/
def Grows {β : Type} (x : StateM Disk β) : Prop := ∀ d : Disk, d.Grown (x.run d).2

theorem Grows.pure {β : Type} (b : β) : Grows (Pure.pure b : StateM Disk β) := Grown.refl

theorem Grows.bind {β γ : Type} {x : StateM Disk β} {f : β → StateM Disk γ} (h : Grows x)
    (h' : ∀ b, Grows (f b)) : Grows (x >>= f) := fun d => (h d).trans (h' _ _)

theorem grows_isFolder (path : String) : Grows (Store.isFolder path : StateM Disk Bool) :=
  Grown.refl

theorem grows_makeFolder (path : String) :
    Grows (Store.makeFolder path : StateM Disk (Except Store.Fault Unit)) := by
  intro d
  have hrun : (Store.makeFolder path : StateM Disk (Except Store.Fault Unit)).run d =
      change (·.makeFolder path) d := rfl
  rw [hrun]
  unfold change
  split
  next d' hmade => exact grown_of_makeFolder hmade
  next => exact .refl d

theorem grows_makeFolders (depth : Nat) (path : String) :
    Grows (Store.makeFolders depth path : StateM Disk (Except Store.Fault Unit)) := by
  induction depth generalizing path with
  | zero => exact .pure _
  | succ depth ih =>
    unfold Store.makeFolders
    split
    next => exact .pure _
    next =>
      -- one that fails can still turn out to be there
      have hsettled (failed : Bool) (made : Except Store.Fault Unit) : Grows
          (if failed then Store.isFolder path >>= fun there =>
              if there then Pure.pure (.ok ()) else Pure.pure made
            else Pure.pure made : StateM Disk (Except Store.Fault Unit)) := by
        split
        next =>
          refine .bind (grows_isFolder path) fun there => ?_
          split <;> exact .pure _
        next => exact .pure _
      refine .bind (grows_makeFolder path) fun made => ?_
      dsimp only
      split
      next parent _ =>
        refine .bind (ih parent) fun above => ?_
        cases above with
        | error fault => exact .pure _
        | ok _ => exact .bind (grows_makeFolder path) fun made => hsettled _ made
      next => exact .pure _
      next => exact hsettled _ _

/-! ## Writing files -/

/-- A text was written into the file that a path leads to, and nothing else is changed but that
folders were made. -/
structure Saved (d d' : Disk) (path text : String) (place : Place) : Prop where
  located : d'.locate path = .ok place
  entry : d'.entry? place = some (some text)
  others : ∀ p, p ≠ place → d.GrownAt d' p

theorem exists_saved_of_write (h : d.write path text = .ok d') :
    ∃ place, d.Saved d' path text place := by
  unfold write at h
  split at h
  next place hlocate =>
    split at h
    next => cases h
    next hfile =>
      cases h
      have hplace : place ≠ [] := by
        rintro rfl
        exact hfile rfl
      refine ⟨place, locate_of_folders (fun p hfolder => ?_) hlocate, ?_, fun p hp => .inl ?_⟩
      · rw [entry?_put d hplace, if_neg, hfolder]
        rintro rfl
        exact hfile (beq_iff_eq.mpr hfolder)
      · rw [entry?_put d hplace, if_pos rfl]
      · rw [entry?_put d hplace, if_neg hp]
  next => split at h <;> cases h
  next => cases h

theorem Saved.of_grown {d₀ : Disk} (h : d.Saved d' path text place) (hgrown : d₀.Grown d) :
    d₀.Saved d' path text place :=
  ⟨h.located, h.entry, fun p hp => (hgrown p).trans (h.others p hp)⟩

theorem Saved.kindOf? (h : d.Saved d' path text place) : d'.kindOf? path = some .file :=
  kindOf?_eq_file.mpr ⟨place, text, h.located, h.entry⟩

theorem Saved.read (h : d.Saved d' path text place) : d'.read path = .ok text := by
  refine bind_eq_ok.mpr ⟨place, h.located, ?_⟩
  rw [h.entry]

theorem Saved.removeFile (h : d.Saved d' path text place) :
    d'.removeFile path = .ok (d'.erase place) := by
  refine bind_eq_ok.mpr ⟨place, h.located, ?_⟩
  rw [h.entry]

/-- A file that is removed is gone from its path. -/
theorem Saved.kindOf?_erase (h : d.Saved d' path text place) :
    (d'.erase place).kindOf? path = none := by
  have hplace := ne_nil_of_file h.entry
  have hlocated : (d'.erase place).locate path = .ok place := by
    refine locate_of_folders (fun p hfolder => ?_) h.located
    rw [entry?_erase d' hplace, if_neg, hfolder]
    rintro rfl
    rw [h.entry] at hfolder
    cases hfolder
  rw [Disk.kindOf?, hlocated]
  dsimp only
  rw [entry?_erase d' hplace, if_pos rfl]
  rfl

end Disk

end Patchbay
