import Patchbay.Proofs.Settings.Bounds
import Patchbay.Proofs.Toml.Documents
import Patchbay.Proofs.Toml.Numerals
import Patchbay.Proofs.Toml.Words
/-!
# Settings survive their text

Settings that were read from a text can be written, and what is written is read as the same
settings (`Settings.ofText_toToml?`). All times fit in the integers of TOML because they were read
from such integers. Of the text, every section is read as the table of its entries, whole numbers as
integers and the two others as floats; a float is written with a point, so it is read as a float,
and its digits are those of no other float.
-/

namespace Patchbay

open Number Toml

namespace Settings

variable {s s' : Settings} {v : Value}

/-! ## Times are integers of TOML -/

/-- Every time is an integer of TOML. -/
def Timed (s : Settings) : Prop := ∀ t ∈ s.times, t < 2 ^ 63

theorem timed_iff : s.Timed ↔ s.fade < 2 ^ 63 ∧ s.settle < 2 ^ 63 ∧ s.startDelay < 2 ^ 63 ∧
    s.finishDelay < 2 ^ 63 ∧ s.ramp < 2 ^ 63 := by
  simp [Timed, times]

theorem toToml?_of_timed (h : s.Timed) : s.toToml? = some s.toText :=
  if_pos (List.all_eq_true.mpr fun t ht => decide_eq_true (h t ht))

theorem lt_of_count? {largest n : Nat} (hv : v.Worded) (h : count? largest v = some n) :
    n < 2 ^ 63 := by
  cases hv with
  | int hword =>
    rw [count?] at h
    split at h
    next =>
      cases h
      omega
    next => cases h
  | _ => cases h

/-- Putting what was read from a document leaves the times integers of TOML. -/
def Entry.Keeps (e : Entry) : Prop :=
  ∀ ⦃v s s'⦄, v.Worded → s.Timed → e.put v s = some s' → s'.Timed

theorem keeps_timeEntry (name : String) {put : Nat → Settings → Settings}
    (hput : ∀ n s, n < 2 ^ 63 → s.Timed → (put n s).Timed) : (timeEntry name put).Keeps := by
  intro v s s' hv hs h
  obtain ⟨n, hn, rfl⟩ := Option.map_eq_some_iff.mp h
  exact hput n s (lt_of_count? hv hn) hs

theorem keeps_of_times {β : Type} (name : String) (read : Value → Option β)
    (put : β → Settings → Settings) (hput : ∀ b s, (put b s).times = s.times) :
    Entry.Keeps ⟨name, fun v s => (read v).map (put · s)⟩ := by
  intro v s s' _ hs h
  obtain ⟨b, -, rfl⟩ := Option.map_eq_some_iff.mp h
  rwa [Timed, hput]

theorem keeps_of_mem : ∀ p ∈ sections, ∀ e ∈ p.2, e.Keeps := by
  have htime (name : String) {put : Nat → Settings → Settings}
      (hput : ∀ n s, n < 2 ^ 63 → s.Timed → (put n s).Timed) := keeps_timeEntry name hput
  simp only [timed_iff] at htime
  simp only [sections, List.forall_mem_cons, List.not_mem_nil, IsEmpty.forall_iff, implies_true,
    and_true]
  refine ⟨⟨?fade, ?settle, ?start, ?finish⟩, ?ramp, ?gain, ⟨?seconds, ?seed⟩, ?rate⟩
  case gain => exact keeps_of_times _ number? (fun x s => { s with masterGain := x }) fun _ _ => rfl
  case seconds =>
    exact keeps_of_times _ number? (fun x s => { s with noiseSeconds := x }) fun _ _ => rfl
  case seed =>
    exact keeps_of_times _ (count? _) (fun n s => { s with noiseSeed := n.toUInt32 }) fun _ _ => rfl
  case rate =>
    exact keeps_of_times _ (count? _) (fun n s => { s with sampleRate := n }) fun _ _ => rfl
  all_goals
    refine htime _ fun n s hn hs => ?_
    simp only [hn, hs, and_self]

theorem timed_of_putFields {entries : List Entry} (hentries : ∀ e ∈ entries, e.Keeps)
    {fields : Fields} (hfields : fields.Worded) (hs : s.Timed)
    (h : putFields entries fields s = some s') : s'.Timed := by
  refine of_foldlM (fun field hfield s s' hs h => ?_) hs h
  dsimp only at h
  split at h
  next e he => exact hentries e (List.mem_of_find?_eq_some he) (hfields field hfield) hs h
  next =>
    cases h
    exact hs

theorem timed_of_putItems {entries : List Entry} (hentries : ∀ e ∈ entries, e.Keeps)
    {items : List Value} (hitems : ∀ v ∈ items, v.Worded) (hs : s.Timed)
    (h : putItems entries items s = some s') : s'.Timed := by
  refine of_foldlM (fun pair hpair s s' hs h => ?_) hs h
  obtain ⟨he, hv⟩ := List.of_mem_zip hpair
  exact hentries pair.1 he (hitems pair.2 hv) hs h

theorem timed_of_putSection {entries : List Entry} (hentries : ∀ e ∈ entries, e.Keeps)
    (hv : v.Worded) (hs : s.Timed) (h : putSection entries s v = some s') : s'.Timed := by
  cases hv with
  | table hfields => exact timed_of_putFields hentries hfields hs h
  | list hitems => exact timed_of_putItems hentries hitems hs h
  | tables hitems =>
    refine timed_of_putItems hentries (fun v hv => ?_) hs h
    obtain ⟨fields, hmem, rfl⟩ := List.mem_map.mp hv
    exact .table (hitems fields hmem)
  | moment =>
    cases h
    exact hs
  | _ => cases h

/-- Whatever is put, the times remain integers of TOML: the standard ones are small. -/
theorem timed_of_ofFields {fields : Fields} (hfields : fields.Worded)
    (h : ofFields fields = some s) : s.Timed := by
  have hstandard : ({} : Settings).Timed := timed_iff.mpr (by decide)
  refine of_foldlM (fun field hfield s s' hs h => ?_) hstandard h
  dsimp only at h
  split at h
  next title entries hsection =>
    have hentries := keeps_of_mem _ (List.mem_of_find?_eq_some hsection)
    exact timed_of_putSection hentries (hfields field hfield) hs h
  next =>
    cases h
    exact hs

/-! ## The text of settings -/

def wholeEntry (name : String) (n : Nat) : WrittenEntry := ⟨name, toString n, .int n⟩

def realEntry (name : String) (x : Float) : WrittenEntry := ⟨name, floatText x, .float x⟩

/-- The sections as they are written, with the values that the texts stand for. -/
def writtenSections (s : Settings) : List WrittenSection :=
  [⟨"reconcile", [wholeEntry "fade_ms" s.fade, wholeEntry "settle_ms" s.settle,
      wholeEntry "start_delay_ms" s.startDelay, wholeEntry "finish_delay_ms" s.finishDelay]⟩,
    ⟨"live", [wholeEntry "ramp_ms" s.ramp]⟩,
    ⟨"output", [realEntry "master_gain" s.masterGain]⟩,
    ⟨"noise", [realEntry "buffer_seconds" s.noiseSeconds, wholeEntry "seed" s.noiseSeed.toNat]⟩,
    ⟨"backend", [wholeEntry "sample_rate" s.sampleRate]⟩]

theorem written_eq (s : Settings) : s.written =
    s.writtenSections.map fun p => (p.title, p.entries.map fun e => (e.name, e.text)) := rfl

theorem toList_section (p : WrittenSection) :
    ("[" ++ p.title ++ "]\n" ++
      String.join (p.entries.map fun e => e.name ++ " = " ++ e.text ++ "\n")).toList =
        p.lines.flatMap (·.1) := by
  simp [WrittenSection.lines, WrittenEntry.line, String.toList_join, List.flatMap_map]

theorem toList_toText (s : Settings) :
    s.toText.toList = (documentLines s.writtenSections).flatMap (·.1) := by
  have hsections : ∀ sections : List WrittenSection,
      ['\n'].intercalate (sections.map fun p => p.lines.flatMap (·.1)) =
        (documentLines sections).flatMap (·.1) := by
    intro sections
    fun_induction documentLines sections with
    | case1 => rfl
    | case2 p => exact List.intercalate_singleton
    | case3 p rest hrest ih =>
      obtain ⟨p', rest, rfl⟩ := List.exists_cons_of_ne_nil hrest
      rw [List.flatMap_append, List.flatMap_cons, ← ih, List.map_cons, List.map_cons,
        List.intercalate_cons_cons, List.append_assoc]
  rw [toText, written_eq, String.toList_intercalate, List.map_map, List.map_map, ← hsections]
  refine congrArg _ (List.map_congr_left fun p _ => ?_)
  rw [← toList_section]
  simp [Function.comp_def]

theorem writes_wholeEntry (name : String) {n : Nat} (hn : n < 2 ^ 63) :
    Reader.Writes (wholeEntry name n).text.toList (wholeEntry name n).value := by
  have htext : (wholeEntry name n).text.toList = Nat.toDigits 10 n := by simp [wholeEntry]
  rw [htext]
  exact Reader.writes_toDigits hn

theorem writes_realEntry (name : String) {x : Float} (hx : x.isFinite = true) :
    Reader.Writes (realEntry name x).text.toList (realEntry name x).value := by
  obtain ⟨l, htext, hparts, rfl⟩ := Reader.exists_literal_pointed hx
  show Reader.Writes (floatText l.value).toList (.float l.value)
  rw [floatText, ← htext]
  exact Reader.writes_literal hparts hx

/-- Every number of settings is written as a text that is read as the number. -/
theorem wellFormed_writtenSections (hs : s.Timed) (h : s.Accepted) :
    ∀ p ∈ s.writtenSections, p.WellFormed := by
  have hnames : ∀ p ∈ s.writtenSections, Reader.IsName p.title.toList ∧
      (∀ e ∈ p.entries, Reader.IsName e.name.toList) ∧ (p.entries.map (·.name)).Nodup := by
    simp only [writtenSections, wholeEntry, realEntry, List.forall_mem_cons, List.not_mem_nil,
      IsEmpty.forall_iff, implies_true, and_true, List.map_cons, List.map_nil]
    decide
  have hvalues : ∀ p ∈ s.writtenSections, ∀ e ∈ p.entries, Reader.Writes e.text.toList e.value := by
    obtain ⟨hfade, hsettle, hstart, hfinish, hramp⟩ := timed_iff.mp hs
    have hseed : s.noiseSeed.toNat < 2 ^ 63 := Nat.lt_trans s.noiseSeed.toNat_lt (by decide)
    have hrate : s.sampleRate < 2 ^ 63 := Nat.lt_of_le_of_lt h.sampleRate.2 (by decide)
    simp only [writtenSections, List.forall_mem_cons, List.not_mem_nil, IsEmpty.forall_iff,
      implies_true, and_true]
    exact ⟨⟨writes_wholeEntry _ hfade, writes_wholeEntry _ hsettle, writes_wholeEntry _ hstart,
      writes_wholeEntry _ hfinish⟩, writes_wholeEntry _ hramp,
      writes_realEntry _ h.isFinite_masterGain,
      ⟨writes_realEntry _ h.noiseSeconds.1, writes_wholeEntry _ hseed⟩, writes_wholeEntry _ hrate⟩
  intro p hp
  obtain ⟨htitle, hentries, hnodup⟩ := hnames p hp
  exact ⟨htitle, hentries, hvalues p hp, hnodup⟩

theorem count?_natCast {largest n : Nat} (h : n ≤ largest) : count? largest (.int n) = some n :=
  if_pos ⟨Int.natCast_nonneg n, Int.ofNat_le.mpr h⟩

/-- The table of the sections is read as the settings. -/
theorem ofFields_writtenSections (hs : s.Timed) (h : s.Accepted) :
    ofFields (s.writtenSections.map fun p => (p.title, .table .header p.fields)) = some s := by
  obtain ⟨hfade, hsettle, hstart, hfinish, hramp⟩ := timed_iff.mp hs
  have htime : ∀ n : Nat, n < 2 ^ 63 → count? (Nat.pow 2 64 - 1) (.int n) = some n := fun n hn =>
    count?_natCast (Nat.le_of_lt (Nat.lt_trans hn (by decide)))
  have hseed : count? (Nat.pow 2 32 - 1) (.int s.noiseSeed.toNat) = some s.noiseSeed.toNat :=
    count?_natCast (Nat.le_of_lt_succ s.noiseSeed.toNat_lt)
  have hrate : count? (Nat.pow 2 32 - 1) (.int s.sampleRate) = some s.sampleRate :=
    count?_natCast (Nat.le_trans h.sampleRate.2 (by decide))
  -- every section and every entry is found under its name, and each puts the value back
  simp [writtenSections, ofFields, WrittenSection.fields, wholeEntry, realEntry, sections,
    putSection, putFields, timeEntry, number?, htime _ hfade, htime _ hsettle, htime _ hstart,
    htime _ hfinish, htime _ hramp, hseed, hrate]

/-- Settings that were read from a text can be written, and are read as the same settings from what
is written. -/
theorem ofText_toToml? {source : String} (h : ofText source = .ok s) :
    ∃ text, s.toToml? = some text ∧ ofText text = .ok s := by
  rw [ofText] at h
  split at h
  next => cases h
  next read hread =>
    split at h
    next => cases h
    next hfault =>
      cases h
      obtain ⟨fields, hfields, hread⟩ := Option.bind_eq_some_iff.mp hread
      have htimed := timed_of_ofFields (worded_of_read hfields) hread
      have haccepted := fault?_eq_none_iff.mp hfault
      have htitles : (s.writtenSections.map (·.title)).Nodup := by
        show ["reconcile", "live", "output", "noise", "backend"].Nodup
        decide
      have hagain := read_of_written (wellFormed_writtenSections htimed haccepted) htitles
        (toList_toText s)
      refine ⟨s.toText, toToml?_of_timed htimed, ?_⟩
      rw [ofText, hagain, Option.bind_some, ofFields_writtenSections htimed haccepted]
      dsimp only
      rw [hfault]

/-- The longest time that a document can give, and a gain that is given as an integer. -/
def longestFade : String := "[reconcile]\nfade_ms = 9223372036854775807\n[output]\nmaster_gain = 1"

theorem ofText_longestFade : ∃ s, ofText longestFade = .ok s ∧ s.fade = 2 ^ 63 - 1 ∧
    ∃ text, s.toToml? = some text ∧ ofText text = .ok s := by
  have hfade : (ofText longestFade).toOption.map (·.fade) = some (2 ^ 63 - 1) := by decide +kernel
  cases hread : ofText longestFade with
  | error fault =>
    rw [hread] at hfade
    cases hfade
  | ok s =>
    rw [hread] at hfade
    exact ⟨s, rfl, Option.some.inj hfade, ofText_toToml? hread⟩

end Settings

end Patchbay
