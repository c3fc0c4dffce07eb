import Patchbay.Command.Documents
import Patchbay.Proofs.Document.Saved
import Patchbay.Proofs.Store.Files
/-!
# Copies of presets

The command that copies a preset writes it into the folder of the user's documents, under a name. So
does the command that deletes a document look there, and so do names of documents when they stand
for nothing else (`Command.saved_of_copyDocument`, `Command.deleteDocument_of_saved`,
`Library.resolve_of_file`). A copy can be used and deleted by its name, unless this is a preset's:
presets are found before documents of the user, and are not deleted (`Library.resolve_of_preset`,
`Command.deleteDocument_of_preset`).

The commands are run on a disk that is a value (`Command.Action.onDisk`), and what one step of a
command leaves is where the next begins (`Command.Action.onDisk_bind`).
-/

namespace Patchbay

/-! ## Texts of presets -/

namespace Preset

theorem readable_node {id : NodeId} {name : String} {data : List (String × Json)}
    (h : ∀ field ∈ data, field.2.Readable ∧ field.2.Keepable 4) :
    (node id name data).data.Readable ∧ (node id name data).data.Keepable 3 :=
  ⟨Json.readable_ofFields fun field hfield => (h field hfield).1,
    Json.keepable_ofFields (by decide) fun field hfield => (h field hfield).2⟩

theorem readable_text {s : String} : (Json.text s).Readable ∧ (Json.text s).Keepable 4 :=
  ⟨trivial, trivial⟩

theorem readable_int {n : Int} (hlow : -2 ^ 63 ≤ n) (hhigh : n < 2 ^ 64) :
    (int n).Readable ∧ (int n).Keepable 4 :=
  ⟨⟨hlow, hhigh⟩, trivial⟩

theorem readable_float {x : Float} (h : x.isFinite = true) :
    (float x).Readable ∧ (float x).Keepable 4 :=
  ⟨h, trivial⟩

theorem readable_document (p : Preset) :
    ∀ n ∈ p.document.nodes, n.data.Readable ∧ n.data.Keepable 3 := by
  have hfinite : [0.5, 0.4, 0.003, 0.25, 0.8, 0.01, 0.6].all Float.isFinite = true := by
    decide +kernel
  have hprofile : Profile.fault? (⟨0.8, 0.02, 0.5, 0.2, 0.3, 4.0, 0.6⟩ : Profile Float) = none := by
    decide +kernel
  simp only [List.all_cons, List.all_nil, Bool.and_eq_true] at hfinite
  cases p <;> simp [document, universalOutput, readable_node, readable_text, readable_int,
    readable_float, hfinite, Profile.readable_toJson hprofile]

/-- The text of a preset is read as the preset. -/
theorem ofText_document (p : Preset) : Document.ofText p.document.toText = .ok p.document := by
  have hfloats : ∀ n ∈ p.document.nodes, ∀ x ∈ n.data.floats, Json.isBrief x = true := by
    cases p <;> decide +kernel
  rw [Document.ofText_toText (fun n hn => (p.readable_document n hn).1)
    fun n hn => (p.readable_document n hn).2]
  exact congrArg _ ((Document.reread_eq_self_iff _).mpr fun n hn x hx =>
    Json.rereadFloat_of_isBrief (hfloats n hn x hx))

end Preset

/-! ## Files of documents -/

variable {d d' : Disk} {path text : String}

namespace Library

theorem run_bind {β γ : Type} (x : StateM Disk β) (f : β → StateM Disk γ) (d : Disk) :
    (x >>= f).run d = (f (x.run d).1).run (x.run d).2 := rfl

theorem run_isFile (path : String) (d : Disk) :
    (Store.isFile path : StateM Disk Bool).run d = (d.kindOf? path == some .file, d) := rfl

theorem run_isThere (path : String) (d : Disk) :
    (Store.isThere path : StateM Disk Bool).run d = ((d.kindOf? path).isSome, d) := rfl

theorem run_readFile (path : String) (d : Disk) :
    (readFile path : StateM Disk (Except Fault String)).run d =
      ((d.read path).mapError (.unreadable path), d) := rfl

/-- A file that was written has its text. -/
theorem exists_saved_of_writeFile
    (h : (writeFile path text : StateM Disk (Except Fault Unit)).run d = (.ok (), d')) :
    ∃ place, d.Saved d' path text place := by
  have hwritten {d₀ : Disk} (hgrown : d.Grown d₀)
      (h : (do return (← Store.write path text).mapError (Fault.unwritable path) :
        StateM Disk (Except Fault Unit)).run d₀ = (.ok (), d')) :
      ∃ place, d.Saved d' path text place := by
    rw [run_bind] at h
    have hrun : (Store.write path text : StateM Disk (Except Store.Fault Unit)).run d₀ =
        Disk.change (·.write path text) d₀ := rfl
    rw [hrun] at h
    unfold Disk.change at h
    split at h
    next d₁ hwrite =>
      cases h
      exact (Disk.exists_saved_of_write hwrite).imp fun _ hsaved => hsaved.of_grown hgrown
    next => cases h
  unfold writeFile at h
  dsimp only at h
  rw [run_bind] at h
  split at h
  next =>
    rw [run_bind] at h
    split at h
    next => cases h
    next => exact hwritten (Disk.grows_makeFolders _ _ _) h
  next => exact hwritten (.refl d) h

theorem grown_of_documentsFolder {home : Home} {folder : String}
    (h : (documentsFolder home : StateM Disk (Except Fault String)).run d = (.ok folder, d')) :
    folder = home.documents ∧ d.Grown d' := by
  unfold documentsFolder at h
  rw [run_bind] at h
  split at h
  next =>
    cases h
    exact ⟨rfl, .refl d⟩
  next =>
    rw [run_bind] at h
    obtain ⟨hmade, rfl⟩ := Prod.mk.inj h
    obtain ⟨-, -, rfl⟩ := map_eq_ok.mp (mapError_eq_ok.mp hmade)
    exact ⟨rfl, Disk.grows_makeFolders _ _ d⟩

/-! ## Names of documents -/

variable {home : Home} {name : String} {place : Disk.Place}

/-- A file with the text of a preset is loaded as the preset. -/
theorem loadDocument_of_saved {p : Preset} (h : d.Saved d' path p.document.toText place) :
    (loadDocument path : StateM Disk (Except Fault Document)).run d' = (.ok p.document, d') := by
  unfold loadDocument
  rw [run_bind, run_readFile, h.read]
  dsimp only [Except.mapError]
  rw [p.ofText_document]
  rfl

/-- A document that is saved puts no file under its name here. -/
theorem kindOf?_ne_file_of_saved {text : String} (hplain : '/' ∉ name.toList)
    (h : d.Saved d' (home.document name) text place) (hfree : d.kindOf? name ≠ some .file) :
    d'.kindOf? name ≠ some .file := by
  intro hfile
  obtain ⟨q, found, hq, hentry⟩ := Disk.kindOf?_eq_file.mp hfile
  obtain ⟨hplace, hq⟩ := Disk.locate_of_plain hplain hq
  have hlength : (name ++ ".json").length = name.length + 5 := String.length_append _ _
  have hlong {s : String} (hs : s.length < 5) (heq : name ++ ".json" = s) : False := by
    rw [← heq, hlength] at hs
    omega
  have hlast : place.getLast? = some (name ++ ".json") := by
    obtain ⟨-, -, hfollows⟩ := Disk.locate_eq_ok.mp h.located
    rw [home.pieces_document hplain] at hfollows
    refine hfollows.getLast? (fun hsilent => ?_)
      fun hback => hlong (by decide) (beq_iff_eq.mp hback)
    rcases Bool.or_eq_true_iff.mp hsilent with hempty | hdot
    · exact hlong (by decide) (String.isEmpty_iff.mp hempty)
    · exact hlong (by decide) (beq_iff_eq.mp hdot)
  have hother : q ≠ place := by
    rintro rfl
    rcases hplace with rfl | rfl
    · cases hentry
    · have hsame : name = name ++ ".json" := Option.some.inj hlast
      have := congrArg String.length hsame
      omega
  rcases h.others q hother with hsame | ⟨-, hfolder⟩
  · exact hfree (Disk.kindOf?_eq_file.mpr ⟨q, found, hq d, hsame ▸ hentry⟩)
  · rw [hentry] at hfolder
    cases hfolder

theorem find_of_file (hext : name.endsWith ".json" = false) (hfree : d.kindOf? name ≠ some .file)
    (hfile : d.kindOf? (home.document name) = some .file) :
    (find home name : StateM Disk (Option String)).run d = (some (home.document name), d) := by
  have hpath : Path.join home.documents (if name.endsWith ".json" then name else name ++ ".json") =
      home.document name := by
    rw [hext]
    rfl
  unfold find findIn
  dsimp only
  rw [hpath, run_bind, run_isFile]
  dsimp only
  rw [if_neg (by simpa using hfree), run_bind, run_isFile, hfile]
  rfl

/-- A name that is no preset's stands for a document of the user, unless it leads to a file. -/
theorem resolve_of_file (hpreset : Preset.find? name = none)
    (hext : name.endsWith ".json" = false) (hfree : d.kindOf? name ≠ some .file)
    (hfile : d.kindOf? (home.document name) = some .file) :
    (resolve home name : StateM Disk (Except Fault Document)).run d =
      (loadDocument (home.document name) : StateM Disk (Except Fault Document)).run d := by
  unfold resolve
  rw [hpreset]
  dsimp only
  rw [run_bind, find_of_file hext hfree hfile]

theorem resolve_of_preset {p : Preset} (hpreset : Preset.find? name = some p) (d : Disk) :
    (resolve home name : StateM Disk (Except Fault Document)).run d = (.ok p.document, d) := by
  unfold resolve
  rw [hpreset]
  rfl

end Library

/-! ## Commands -/

namespace Command

variable {β γ : Type} {output output' : String}

/-- What a command leaves that runs on a disk, and what it has written. -/
def Action.onDisk (action : Action (StateM Disk) β) (output : String) (d : Disk) :
    (Except Failure β × String) × Disk := (action.run.run output).run d

namespace Action

theorem onDisk_bind (x : Action (StateM Disk) β) (f : β → Action (StateM Disk) γ) (output : String)
    (d : Disk) : (x >>= f).onDisk output d = match x.onDisk output d with
      | ((.ok b, output₁), d₁) => (f b).onDisk output₁ d₁
      | ((.error e, output₁), d₁) => ((.error e, output₁), d₁) := by
  change ((ExceptT.bindCont f (x.onDisk output d).1.1).run (x.onDisk output d).1.2).run
    (x.onDisk output d).2 = _
  rcases x.onDisk output d with ⟨⟨_ | _, _⟩, _⟩ <;> rfl

theorem onDisk_bind_eq_ok {x : Action (StateM Disk) β} {f : β → Action (StateM Disk) γ} {c : γ} :
    (x >>= f).onDisk output d = ((.ok c, output'), d') ↔ ∃ b output₁ d₁,
      x.onDisk output d = ((.ok b, output₁), d₁) ∧
        (f b).onDisk output₁ d₁ = ((.ok c, output'), d') := by
  rw [onDisk_bind]
  rcases x.onDisk output d with ⟨⟨_ | _, _⟩, _⟩ <;> simp

theorem onDisk_lift (x : StateM Disk β) (output : String) (d : Disk) :
    (liftM x : Action (StateM Disk) β).onDisk output d =
      ((.ok (x.run d).1, output), (x.run d).2) := rfl

theorem onDisk_say (line : String) (output : String) (d : Disk) :
    (say line : Action (StateM Disk) Unit).onDisk output d =
      ((.ok (), output ++ (line ++ "\n")), d) := rfl

theorem onDisk_fail (message : String) (output : String) (d : Disk) :
    (fail message : Action (StateM Disk) β).onDisk output d =
      ((.error ⟨message, []⟩, output), d) := rfl

theorem onDisk_orFail {ε : Type} (failure : ε → Failure) (x : StateM Disk (Except ε β))
    (output : String) (d : Disk) : (orFail failure x : Action (StateM Disk) β).onDisk output d =
      (((x.run d).1.mapError failure, output), (x.run d).2) := by
  unfold orFail
  rw [onDisk_bind, onDisk_lift]
  dsimp only
  cases (x.run d).1 <;> rfl

theorem onDisk_orFail_eq_ok {ε : Type} {failure : ε → Failure} {x : StateM Disk (Except ε β)}
    {b : β} (h : (orFail failure x : Action (StateM Disk) β).onDisk output d =
      ((.ok b, output'), d')) : x.run d = (.ok b, d') := by
  rw [onDisk_orFail] at h
  obtain ⟨hresult, hdisk⟩ := Prod.mk.inj h
  exact Prod.ext (mapError_eq_ok.mp (Prod.mk.inj hresult).1) hdisk

/-- What a command has done on a disk, and what it leaves there. -/
def endsOn (action : Action (StateM Disk) Unit) (d : Disk) : Outcome × Disk := action.outcome.run d

theorem endsOn_eq (action : Action (StateM Disk) Unit) (d : Disk) :
    action.endsOn d = match action.onDisk "" d with
      | ((.ok (), output), d') => (⟨0, output, none⟩, d')
      | ((.error failure, output), d') => (⟨1, output, some failure.text⟩, d') := by
  rcases hdone : action.onDisk "" d with ⟨⟨result, output⟩, d'⟩
  have hran : (action.run.run "").run d = ((result, output), d') := hdone
  unfold endsOn outcome
  rw [StateT.run_bind, hran]
  cases result <;> rfl

end Action

variable {home : Library.Home} {source : String} {name : Option String} {force : Bool}

theorem path_of_copyPath
    (h : (copyPath home source name none).onDisk output d = ((.ok path, output'), d')) :
    path = home.document (name.getD source) ∧ d.Grown d' ∧
      ((Preset.find? (name.getD source)).isSome → name.getD source = source) := by
  unfold copyPath at h
  dsimp only at h
  split at h
  next =>
    obtain ⟨_, _, _, hfail, -⟩ := Action.onDisk_bind_eq_ok.mp h
    cases hfail
  next hshadows =>
    obtain ⟨folder, _, _, hfolder, h⟩ := Action.onDisk_bind_eq_ok.mp h
    cases h
    obtain ⟨rfl, hgrown⟩ :=
      Library.grown_of_documentsFolder (Action.onDisk_orFail_eq_ok hfolder)
    exact ⟨rfl, hgrown, by simpa using hshadows⟩

/-- A copy lies in the folder of the user's documents under its name, which is that of a preset only
when it is the name that the preset was called by. -/
theorem saved_of_copyDocument
    (h : (copyDocument home source name none force).onDisk output d = ((.ok (), output'), d')) :
    ∃ preset place, Preset.find? source = some preset ∧
      ((Preset.find? (name.getD source)).isSome → name.getD source = source) ∧
      d.Saved d' (home.document (name.getD source)) preset.document.toText place := by
  unfold copyDocument at h
  split at h
  next => cases h
  next preset hpreset =>
    obtain ⟨path, output₁, d₁, hpath, h⟩ := Action.onDisk_bind_eq_ok.mp h
    obtain ⟨rfl, hgrown, hname⟩ := path_of_copyPath hpath
    obtain ⟨there, _, _, hthere, h⟩ := Action.onDisk_bind_eq_ok.mp h
    cases hthere
    dsimp only at h
    split at h
    next =>
      obtain ⟨_, _, _, hfail, -⟩ := Action.onDisk_bind_eq_ok.mp h
      cases hfail
    next =>
      obtain ⟨_, _, d₂, hsave, h⟩ := Action.onDisk_bind_eq_ok.mp h
      cases h
      obtain ⟨place, hsaved⟩ :=
        Library.exists_saved_of_writeFile (Action.onDisk_orFail_eq_ok hsave)
      exact ⟨preset, place, hpreset, hname, hsaved.of_grown hgrown⟩

/-- A document of the user is deleted by its name. -/
theorem deleteDocument_of_saved {n text : String} {place : Disk.Place}
    (hpreset : Preset.find? n = none) (h : d.Saved d' (home.document n) text place) :
    (deleteDocument home n).endsOn d' =
      (⟨0, "Deleted " ++ home.document n ++ "\n", none⟩, d'.erase place) := by
  have hthere : (Store.isThere (home.document n) : StateM Disk Bool).run d' = (true, d') := by
    rw [Library.run_isThere, h.kindOf?]
    rfl
  have hremoved : (Store.removeFile (home.document n) : StateM Disk (Except Store.Fault Unit)).run
      d' = (.ok (), d'.erase place) := by
    have hrun : (Store.removeFile (home.document n) :
        StateM Disk (Except Store.Fault Unit)).run d' =
          Disk.change (·.removeFile (home.document n)) d' := rfl
    rw [hrun, Disk.change, h.removeFile]
  have hdone : (deleteDocument home n).onDisk "" d' =
      ((.ok (), "Deleted " ++ home.document n ++ "\n"), d'.erase place) := by
    unfold deleteDocument
    rw [hpreset]
    dsimp only
    rw [if_neg (by decide), Action.onDisk_bind, Action.onDisk_lift, hthere]
    dsimp only
    rw [if_neg (by decide), Action.onDisk_bind, Action.onDisk_orFail, hremoved]
    dsimp only [Except.mapError]
    rw [Action.onDisk_say, String.empty_append]
  rw [Action.endsOn_eq, hdone]

/-- A preset is not deleted. -/
theorem deleteDocument_of_preset {n : String} {p : Preset} (hpreset : Preset.find? n = some p)
    (d : Disk) : (deleteDocument home n).endsOn d =
      (⟨1, "", some (Failure.text ⟨"cannot delete factory document '" ++ n ++ "'", []⟩)⟩, d) := by
  unfold deleteDocument
  rw [hpreset]
  dsimp only
  rw [if_pos Option.isSome_some, Action.endsOn_eq, Action.onDisk_bind, Action.onDisk_fail]

/-- A preset is copied to a file under a plain name that leads to no file here. When it is no
preset's name, it can be deleted by it, with nothing else changed, and unless it has the extension
of a document, it stands for what the file holds as long as there is one. A preset's name is only
taken for a copy when it is the one that the preset was called by. It keeps standing for the preset,
whatever the file holds, and is not deleted. -/
theorem copied_by_name (hplain : '/' ∉ (name.getD source).toList)
    (hfree : d.kindOf? (name.getD source) ≠ some .file)
    (hcopied : ((copyDocument home source name none force).endsOn d).1.exit = 0) :
    let n := name.getD source
    let copied := ((copyDocument home source name none force).endsOn d).2
    ∃ preset place, Preset.find? source = some preset ∧
      d.Saved copied (home.document n) preset.document.toText place ∧
      (Preset.find? n = none →
        (n.endsWith ".json" = false →
          (Library.resolve home n : StateM Disk _).run copied = (.ok preset.document, copied) ∧
          ∀ later : Disk, later.kindOf? n ≠ some .file →
            later.kindOf? (home.document n) = some .file →
            (Library.resolve home n : StateM Disk _).run later =
              (Library.loadDocument (home.document n) : StateM Disk _).run later) ∧
        ∃ deleted, (deleteDocument home n).endsOn copied =
            (⟨0, "Deleted " ++ home.document n ++ "\n", none⟩, deleted) ∧
          deleted.kindOf? (home.document n) = none ∧
          ∀ p, deleted.entry? p = if p = place then none else copied.entry? p) ∧
      ((Preset.find? n).isSome → n = source ∧ ∀ later : Disk,
        (Library.resolve home n : StateM Disk _).run later = (.ok preset.document, later) ∧
        (deleteDocument home n).endsOn later =
          (⟨1, "", some (Failure.text ⟨"cannot delete factory document '" ++ n ++ "'", []⟩)⟩,
            later)) := by
  intro n copied
  obtain ⟨output, hdone⟩ : ∃ output, (copyDocument home source name none force).onDisk "" d =
      ((.ok (), output), copied) := by
    have hends := (copyDocument home source name none force).endsOn_eq d
    rcases hdone : (copyDocument home source name none force).onDisk "" d with
      ⟨⟨failure | _, output⟩, d'⟩
    · rw [hends, hdone] at hcopied
      cases hcopied
    · rw [hdone] at hends
      exact ⟨output, congrArg (Prod.mk _) (congrArg Prod.snd hends).symm⟩
  obtain ⟨preset, place, hpreset, hname, hsaved⟩ := saved_of_copyDocument hdone
  have hfree' : copied.kindOf? n ≠ some .file :=
    Library.kindOf?_ne_file_of_saved hplain hsaved hfree
  refine ⟨preset, place, hpreset, hsaved, fun hnew => ⟨fun hext => ⟨?_, fun later hlater hfile =>
    Library.resolve_of_file hnew hext hlater hfile⟩, ?_⟩, fun hsome => ?_⟩
  · rw [Library.resolve_of_file hnew hext hfree' hsaved.kindOf?]
    exact Library.loadDocument_of_saved hsaved
  · exact ⟨_, deleteDocument_of_saved hnew hsaved, hsaved.kindOf?_erase,
      Disk.entry?_erase copied (Disk.ne_nil_of_file hsaved.entry)⟩
  · have hsame : n = source := hname hsome
    have hfound : Preset.find? n = some preset := hsame ▸ hpreset
    exact ⟨hsame, fun later =>
      ⟨Library.resolve_of_preset hfound later, deleteDocument_of_preset hfound later⟩⟩

/-- The folder of settings under a user's home. -/
def userHome : Library.Home := .within "home/.config"

theorem copied_by_name_mine :
    let copied := ((copyDocument userHome "basic_tone" (some "mine") none false).endsOn .empty).2
    (Library.resolve userHome "mine" : StateM Disk _).run copied =
        (.ok Preset.basicTone.document, copied) ∧
      ∃ deleted, (deleteDocument userHome "mine").endsOn copied =
          (⟨0, "Deleted home/.config/resonode/documents/mine.json\n", none⟩, deleted) ∧
        deleted.kindOf? "home/.config/resonode/documents/mine.json" = none := by
  have hcopied : ((copyDocument userHome "basic_tone" (some "mine") none false).endsOn
      .empty).1.exit = 0 := by decide +kernel
  obtain ⟨preset, place, hpreset, -, hnew, -⟩ :=
    copied_by_name (by decide +kernel) (by decide +kernel) hcopied
  obtain ⟨hresolved, deleted, hdeleted, hgone, -⟩ := hnew (by decide +kernel)
  have hbasic : Preset.find? "basic_tone" = some .basicTone := by decide +kernel
  obtain rfl := Option.some.inj (hpreset.symm.trans hbasic)
  have hpath : userHome.document "mine" = "home/.config/resonode/documents/mine.json" := by
    decide +kernel
  rw [Option.getD_some, hpath] at hdeleted hgone
  exact ⟨(hresolved (by decide +kernel)).1, deleted, hdeleted, hgone⟩

/-- What a copy of a preset leaves on an empty disk. -/
def copiedTone (name : Option String) : Outcome × Disk :=
  (copyDocument userHome "basic_tone" name none false).endsOn .empty

theorem copied_not_by_name :
    (Disk.empty.kindOf? "basic_tone" ≠ some .file ∧ (copiedTone none).1.exit = 0 ∧
      (copiedTone none).2.kindOf? (userHome.document "basic_tone") = some .file ∧
      (deleteDocument userHome "basic_tone").endsOn (copiedTone none).2 =
        (⟨1, "", some "Error: cannot delete factory document 'basic_tone'"⟩,
          (copiedTone none).2)) ∧
    (Disk.empty.kindOf? "mine.json" ≠ some .file ∧ (copiedTone (some "mine.json")).1.exit = 0 ∧
      (copiedTone (some "mine.json")).2.kindOf? (userHome.document "mine.json") = some .file ∧
      ((Library.resolve userHome "mine.json" : StateM Disk _).run
        (copiedTone (some "mine.json")).2).1.isOk = false) := by
  have hcopied : (copiedTone none).1.exit = 0 ∧
      (copiedTone none).2.kindOf? (userHome.document "basic_tone") = some .file := by
    decide +kernel
  exact ⟨⟨by decide +kernel, hcopied.1, hcopied.2,
    deleteDocument_of_preset (p := .basicTone) (by decide +kernel) _⟩, by decide +kernel⟩

end Command

end Patchbay
