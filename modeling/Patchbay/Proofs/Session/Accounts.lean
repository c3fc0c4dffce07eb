import Patchbay.Proofs.Session.Current
import Patchbay.Proofs.Session.Playing
/-!
# Accounts of rebuilds

A request for a rebuild either starts a task, which runs one rebuild after another until none is
due, or is left to the task that is running. What the requests and the ends of rebuilds lead to is
put down beside the session (`Observed.ledger`): how many requests there were, how many tasks were
begun and have ended, and for every rebuild its number, whether it was due because another ended,
and how many requests there were from when it was due until it ended.

Whatever happens in whatever order, the books agree with the session (`Balanced`): one step for a
request, one for the end of a rebuild, and nothing else touches them. The main statement is
`Observed.accounts_of_run`.
-/

namespace Patchbay

theorem Scheduler.request_ne (s : Scheduler) : s.request.2 ≠ s := by
  obtain ⟨state, passes, coalesced⟩ := s
  cases state <;> simp [request]

namespace Session

/-! ## Books -/

/-- A rebuild from when it is due until it ends. -/
structure Turn where
  number : Nat
  /-- It is due because the one before it ended. -/
  follows : Bool
  /-- The requests since it was due. -/
  requests : Nat
deriving DecidableEq

/-- What is on record of requests and rebuilds. -/
structure Ledger where
  requests : Nat
  tasksBegun : Nat
  tasksEnded : Nat
  /-- The rebuilds that have ended. -/
  past : List Turn
  /-- The rebuild that is due or running. -/
  turn : Option Turn

namespace Ledger

def empty : Ledger := ⟨0, 0, 0, [], none⟩

/-- All rebuilds that have ever been due, in order. -/
def turns (l : Ledger) : List Turn := l.past ++ l.turn.toList

/-- A request is made; if it starts a task, a rebuild of the given number is due. -/
def request (l : Ledger) (number : Nat) : Scheduler.Requested → Ledger
  | .started =>
    { l with
      requests := l.requests + 1
      tasksBegun := l.tasksBegun + 1
      turn := some ⟨number, false, 0⟩ }
  | .coalesced =>
    { l with
      requests := l.requests + 1
      turn := l.turn.map fun t => { t with requests := t.requests + 1 } }

/-- A rebuild ends; the task goes on with one of the given number, or ends too. -/
def complete (l : Ledger) (number : Nat) : Scheduler.Completed → Ledger
  | .again => { l with past := l.turns, turn := some ⟨number, true, 0⟩ }
  | .settled => { l with past := l.turns, turn := none, tasksEnded := l.tasksEnded + 1 }

/-- What goes into the books at an event: a call has made a request when the scheduler is not as
before, and at a checkpoint a rebuild has ended when there is a new report. -/
def after {α : Type} (l : Ledger) (s s' : Session α) : Event α → Ledger
  | .call _ =>
    if s'.scheduler = s.scheduler then l
    else l.request s'.scheduler.passes s.scheduler.request.1
  | .checkpoint =>
    if s'.reports.length = s.reports.length then l
    else l.complete s'.scheduler.passes s.scheduler.complete.1

end Ledger

variable {α : Type}

/-- The books after a history. -/
def Observed.ledger [Scalar α] (o : Observed α) : List (Event α) → Ledger → Ledger
  | [], l => l
  | e :: events, l => ledger (o.step e) events (l.after o.session (o.step e).session e)

/-! ## The rebuilds on record -/

/-- One rebuild follows another exactly when there were requests in the meantime. -/
def Turn.Leads (t t' : Turn) : Prop := t'.follows = true ↔ 0 < t.requests

/-- What holds of all rebuilds so far, when there were so many requests of which so many were left
to a rebuild that was already due. -/
structure Turn.Recorded (turns : List Turn) (passes coalesced requests : Nat) : Prop where
  /-- The rebuilds are numbered from one on. -/
  numbers : turns.map (·.number) = List.range' 1 passes
  /-- A request is for a rebuild that does not follow another, or it is left to one. -/
  requests : requests = turns.countP (!·.follows) + coalesced
  linked : turns.IsChain Turn.Leads
  opening : ∀ t ∈ turns.head?, t.follows = false

namespace Turn.Recorded

variable {turns : List Turn} {passes coalesced requests : Nat}

theorem length_eq (h : Recorded turns passes coalesced requests) : turns.length = passes := by
  simpa using congrArg List.length h.numbers

/-- One more rebuild is due. -/
theorem due (h : Recorded turns passes coalesced requests) (follows : Bool)
    (hlast : ∀ t ∈ turns.getLast?, t.Leads ⟨passes + 1, follows, 0⟩)
    (hfirst : turns = [] → follows = false) :
    Recorded (turns ++ [⟨passes + 1, follows, 0⟩]) (passes + 1) coalesced
      (requests + if follows then 0 else 1) := by
  refine ⟨?_, ?_, ?_, fun t ht => ?_⟩
  · rw [List.map_append, h.numbers, List.range'_concat, List.map_singleton, Nat.one_mul,
      Nat.add_comm]
  · rw [h.requests, List.countP_append, Nat.add_right_comm]
    cases follows <;> rfl
  · refine List.isChain_append.mpr ⟨h.linked, List.isChain_singleton _, fun t ht t' ht' => ?_⟩
    cases ht'
    exact hlast t ht
  · cases hturns : turns with
    | nil =>
      rw [hturns] at ht
      cases ht
      exact hfirst hturns
    | cons first turns =>
      refine h.opening t ?_
      rw [hturns] at ht ⊢
      exact ht

/-- One more request is left to the last rebuild. -/
theorem asked {past : List Turn} {t : Turn} (h : Recorded (past ++ [t]) passes coalesced requests) :
    Recorded (past ++ [{ t with requests := t.requests + 1 }]) passes (coalesced + 1)
      (requests + 1) := by
  refine ⟨?_, ?_, ?_, fun t' ht' => ?_⟩
  · rw [← h.numbers, List.map_append, List.map_append]
    rfl
  · rw [h.requests, List.countP_append, List.countP_append]
    rfl
  · obtain ⟨hpast, -, hlast⟩ := List.isChain_append.mp h.linked
    refine List.isChain_append.mpr ⟨hpast, List.isChain_singleton _, fun t' ht' t'' ht'' => ?_⟩
    cases ht''
    exact hlast t' ht' t rfl
  · have hopening := h.opening
    cases past with
    | nil =>
      cases ht'
      exact hopening t rfl
    | cons first past => exact hopening t' ht'

/-- The last of the rebuilds has the last number. -/
theorem number_eq {past : List Turn} {t : Turn}
    (h : Recorded (past ++ [t]) passes coalesced requests) : t.number = passes := by
  have hnumbers := h.numbers
  have hlength := h.length_eq
  rw [List.length_append, List.length_singleton] at hlength
  rw [← hlength, List.range'_concat, List.map_append, List.map_singleton] at hnumbers
  have hlast := List.singleton_injective (List.append_inj_right' hnumbers rfl)
  omega

/-- A rebuild that follows comes right after one during which there were requests. -/
theorem asked_before (h : Recorded turns passes coalesced requests) {i : Nat} {t : Turn}
    (ht : turns[i]? = some t) (hfollows : t.follows = true) :
    ∃ j t', i = j + 1 ∧ turns[j]? = some t' ∧ 0 < t'.requests := by
  cases i with
  | zero =>
    rw [h.opening t (List.head?_eq_getElem? ▸ ht)] at hfollows
    cases hfollows
  | succ j =>
    obtain ⟨hj, rfl⟩ := List.getElem?_eq_some_iff.mp ht
    exact ⟨j, turns[j], rfl, List.getElem?_eq_getElem _,
      (List.isChain_iff_getElem.mp h.linked j hj).mp hfollows⟩

/-- After a rebuild comes one that follows it exactly when there were requests during it. -/
theorem follows_iff (h : Recorded turns passes coalesced requests) {i : Nat} {t t' : Turn}
    (ht : turns[i]? = some t) (ht' : turns[i + 1]? = some t') :
    t'.follows = true ↔ 0 < t.requests := by
  obtain ⟨hi, rfl⟩ := List.getElem?_eq_some_iff.mp ht'
  obtain ⟨_, rfl⟩ := List.getElem?_eq_some_iff.mp ht
  exact List.isChain_iff_getElem.mp h.linked i hi

end Turn.Recorded

/-! ## The books agree with the session -/

/-- The state of the scheduler says whether a rebuild is due or running, and whether there were
requests since. -/
def Ledger.Stands (l : Ledger) : Scheduler.State → Prop
  | .idle => l.turn = none ∧ ∀ t ∈ l.past.getLast?, t.requests = 0
  | .rebuilding => ∃ t, l.turn = some t ∧ t.requests = 0
  | .pending => ∃ t, l.turn = some t ∧ 0 < t.requests

theorem Ledger.turns_of_turn {l : Ledger} {t : Turn} (h : l.turn = some t) :
    l.turns = l.past ++ [t] := by
  unfold turns
  rw [h, Option.toList_some]

/-- What holds between a session and its books. -/
structure Balanced (s : Session α) (l : Ledger) : Prop where
  stands : l.Stands s.scheduler.state
  recorded : Turn.Recorded l.turns s.scheduler.passes s.scheduler.coalesced l.requests
  reports : s.reports.map (·.pass) = l.past.map (·.number)
  tasks : l.tasksBegun = l.tasksEnded + l.turn.toList.length

namespace Balanced

variable {s s' : Session α} {l : Ledger}

theorem new {rack : Rack α} [Scalar α] {settings : Settings}
    (h : Session.new rack settings = .ok s) : Balanced s .empty := by
  obtain ⟨mixer, -, h⟩ := bind_eq_ok.mp h
  cases h
  refine ⟨⟨rfl, fun t ht => ?_⟩, ⟨rfl, rfl, List.isChain_nil, fun t ht => ?_⟩, rfl, rfl⟩
  · cases ht
  · cases ht

/-- The books are about the scheduler and the reports alone. -/
theorem of_same (h : Balanced s l) (hscheduler : s'.scheduler = s.scheduler)
    (hreports : s'.reports = s.reports) : Balanced s' l := by
  obtain ⟨stands, recorded, reports, tasks⟩ := h
  rw [← hscheduler] at stands recorded
  rw [← hreports] at reports
  exact ⟨stands, recorded, reports, tasks⟩

/-- While the scheduler is busy, a rebuild is due or running. -/
theorem exists_turn (h : Balanced s l) (hbusy : s.scheduler.state ≠ .idle) :
    ∃ t, l.turn = some t := by
  have hstands := h.stands
  cases hstate : s.scheduler.state with
  | idle => exact absurd hstate hbusy
  | rebuilding | pending =>
    rw [hstate] at hstands
    obtain ⟨t, ht, -⟩ := hstands
    exact ⟨t, ht⟩

/-- One rebuild is due or running while the scheduler is busy, and none while it is idle. -/
theorem length_turn (h : Balanced s l) :
    l.turn.toList.length = if s.scheduler.state = .idle then 0 else 1 := by
  have hstands := h.stands
  split
  · next hidle =>
    rw [hidle] at hstands
    rw [hstands.1]
    rfl
  · next hbusy =>
    obtain ⟨t, ht⟩ := h.exists_turn hbusy
    rw [ht]
    rfl

/-- A rebuild during which there were requests has another that follows it. -/
theorem exists_next (h : Balanced s l) {i : Nat} {t : Turn} (ht : l.past[i]? = some t)
    (hrequests : 0 < t.requests) : ∃ t', l.turns[i + 1]? = some t' ∧ t'.follows = true := by
  obtain ⟨hi, -⟩ := List.getElem?_eq_some_iff.mp ht
  have hturn : l.turns[i]? = some t := by
    unfold Ledger.turns
    rw [List.getElem?_append_left hi, ht]
  have hnext : i + 1 < l.turns.length := by
    unfold Ledger.turns
    rw [List.length_append, h.length_turn]
    split
    · next hidle =>
      -- had it been the last, nothing would be due only if there were no requests
      by_contra hlast
      have hstands := h.stands
      rw [hidle] at hstands
      obtain rfl : i = l.past.length - 1 := by omega
      have hnone := hstands.2 t (List.getLast?_eq_getElem?.trans ht)
      omega
    · omega
  obtain ⟨t', ht'⟩ : ∃ t', l.turns[i + 1]? = some t' := ⟨_, List.getElem?_eq_getElem hnext⟩
  exact ⟨t', ht', (h.recorded.follows_iff hturn ht').mpr hrequests⟩

/-- A request while nothing is due starts a task, and a rebuild is due; any other is left to the
task that there is. -/
theorem request (h : Balanced s l) (hscheduler : s'.scheduler = s.scheduler.request.2)
    (hreports : s'.reports = s.reports) :
    Balanced s' (l.request s'.scheduler.passes s.scheduler.request.1) := by
  refine of_same (s := { s with scheduler := s.scheduler.request.2 }) ?_ hscheduler hreports
  rw [hscheduler]
  obtain ⟨stands, recorded, reports, tasks⟩ := h
  unfold Scheduler.request
  cases hstate : s.scheduler.state with
  | idle =>
    rw [hstate] at stands
    obtain ⟨hnone, hlast⟩ := stands
    have hturns : l.turns = l.past := by
      unfold Ledger.turns
      rw [hnone, Option.toList_none, List.append_nil]
    rw [hturns] at recorded
    rw [hnone] at tasks
    refine ⟨⟨_, rfl, rfl⟩, recorded.due false (fun t ht => ?_) fun _ => rfl, reports,
      congrArg (· + 1) tasks⟩
    simp [Turn.Leads, hlast t ht]
  | rebuilding | pending =>
    rw [hstate] at stands
    obtain ⟨t, ht, -⟩ := stands
    rw [Ledger.turns_of_turn ht] at recorded
    dsimp only [Ledger.request]
    rw [ht] at tasks ⊢
    exact ⟨⟨_, rfl, Nat.succ_pos _⟩, recorded.asked, reports, tasks⟩

/-- When a rebuild ends its number is reported, and another follows exactly when there were
requests. -/
theorem conclude (h : Balanced s l) (hbusy : s.scheduler.state ≠ .idle)
    (outcome : Except Patch.Fault Summary) :
    Balanced (s.conclude s.scheduler.passes outcome)
      (l.complete s.scheduler.complete.2.passes s.scheduler.complete.1) := by
  obtain ⟨t, ht⟩ := h.exists_turn hbusy
  obtain ⟨stands, recorded, reports, tasks⟩ := h
  have hturns := Ledger.turns_of_turn ht
  have hreported : (s.conclude s.scheduler.passes outcome).reports.map (·.pass) =
      l.turns.map (·.number) := by
    unfold Session.conclude
    rw [hturns] at recorded ⊢
    rw [List.map_append, reports, List.map_append, List.map_singleton, List.map_singleton,
      recorded.number_eq]
  have hlast : l.turns.getLast? = some t := by
    rw [hturns]
    exact List.getLast?_concat
  rw [ht] at tasks
  unfold Session.conclude Scheduler.complete at *
  cases hstate : s.scheduler.state with
  | idle => exact absurd hstate hbusy
  | rebuilding =>
    rw [hstate] at stands
    obtain ⟨t', ht', hnone⟩ := stands
    obtain rfl : t = t' := Option.some.inj (ht.symm.trans ht')
    have hall : (Ledger.complete l s.scheduler.passes .settled).turns = l.turns :=
      List.append_nil _
    refine ⟨⟨rfl, fun t' ht' => ?_⟩, hall ▸ recorded, hreported, tasks⟩
    obtain rfl : t = t' := Option.some.inj (hlast.symm.trans ht')
    exact hnone
  | pending =>
    rw [hstate] at stands
    obtain ⟨t', ht', hsome⟩ := stands
    obtain rfl : t = t' := Option.some.inj (ht.symm.trans ht')
    refine ⟨⟨_, rfl, rfl⟩, recorded.due true (fun t' ht' => ?_) fun hnil => ?_,
      hreported, tasks⟩
    · obtain rfl : t = t' := Option.some.inj (hlast.symm.trans ht')
      simp [Turn.Leads, hsome]
    · rw [hnil] at hlast
      cases hlast

/-- Nothing goes into the books when there is no new report. -/
theorem checkpoint_of_same (h : Balanced s l) (hscheduler : s'.scheduler = s.scheduler)
    (hreports : s'.reports = s.reports) : Balanced s' (l.after s s' .checkpoint) := by
  unfold Ledger.after
  rw [if_pos (congrArg List.length hreports)]
  exact h.of_same hscheduler hreports

/-- A checkpoint at which a rebuild ends. -/
theorem checkpoint_of_conclude (h : Balanced s l) (hbusy : s.scheduler.state ≠ .idle)
    {outcome : Except Patch.Fault Summary} {s₀ : Session α}
    (hscheduler : s₀.scheduler = s.scheduler) (hreports : s₀.reports = s.reports) :
    Balanced (s₀.conclude s.scheduler.passes outcome)
      (l.after s (s₀.conclude s.scheduler.passes outcome) .checkpoint) := by
  have hended := (h.of_same hscheduler hreports).conclude (hscheduler ▸ hbusy) outcome
  rw [hscheduler] at hended
  have hlength : (s₀.conclude s.scheduler.passes outcome).reports.length ≠ s.reports.length := by
    show (s₀.reports ++ [_]).length ≠ _
    rw [hreports, List.length_append]
    exact Nat.succ_ne_self _
  have hpasses : (s₀.conclude s.scheduler.passes outcome).scheduler.passes =
      s.scheduler.complete.2.passes := by
    show s₀.scheduler.complete.2.passes = _
    rw [hscheduler]
  unfold Ledger.after
  rw [if_neg hlength, hpasses]
  exact hended

variable [Scalar α]

/-- Whatever is due keeps the books right. -/
theorem checkpoint {o : Observed α} (h : Balanced o.session l) (hcurrent : Current o) :
    Balanced (o.step .checkpoint).session
      (l.after o.session (o.step .checkpoint).session .checkpoint) := by
  rcases o.checkpoint_cases with hsame | ⟨pass, hpass, hnext⟩ | ⟨hpass, hbusy, hnext⟩
  · rw [hsame]
    exact h.checkpoint_of_same rfl rfl
  · have hbusy : o.session.scheduler.state ≠ .idle := by
      intro hidle
      rw [hcurrent.idle hidle] at hpass
      cases hpass
    obtain ⟨hnumber, -⟩ := hcurrent.follows pass hpass
    rw [hnext]
    unfold proceed
    split
    · refine h.checkpoint_of_same ?_ ?_ <;> · unfold discardLive; split <;> rfl
    · exact h.checkpoint_of_same rfl rfl
    · exact h.checkpoint_of_same rfl rfl
    · rw [hnumber]
      exact h.checkpoint_of_conclude hbusy rfl rfl
  · have hbusy : o.session.scheduler.state ≠ .idle := by simpa [Scheduler.isBusy] using hbusy
    rw [hnext]
    rcases o.session.begin_cases with ⟨fault, -, hbegin⟩ | ⟨patch, -, hbegin⟩
    · rw [hbegin]
      exact h.checkpoint_of_conclude hbusy rfl rfl
    · rw [hbegin]
      exact h.checkpoint_of_same rfl rfl

/-- Every event keeps the books right. -/
theorem step {o : Observed α} (h : Balanced o.session l) (hcurrent : Current o) (e : Event α) :
    Balanced (o.step e).session (l.after o.session (o.step e).session e) := by
  cases e with
  | checkpoint => exact h.checkpoint hcurrent
  | call c =>
    show Balanced (o.session.call c) (l.after o.session (o.session.call c) (.call c))
    unfold Ledger.after
    rcases quiet_or_asks o.session c with hquiet | hasks
    · rw [if_pos hquiet.scheduler]
      exact h.of_same hquiet.scheduler hquiet.course.reports
    · rw [if_neg (hasks.scheduler ▸ o.session.scheduler.request_ne)]
      exact h.request hasks.scheduler hasks.course.reports

theorem run {o : Observed α} (h : Balanced o.session l) (hcurrent : Current o)
    (events : List (Event α)) : Balanced (o.run events).session (o.ledger events l) := by
  induction events generalizing o l with
  | nil => exact h
  | cons e events ih => exact ih (h.step hcurrent e) (hcurrent.step e)

end Balanced

/-- A rebuild is running or begins at once exactly while the scheduler is busy. -/
theorem Current.upcoming?_isSome [Scalar α] {o : Observed α} (h : Current o) :
    o.session.upcoming?.isSome = true ↔ o.session.scheduler.state ≠ .idle := by
  unfold upcoming? Scheduler.isBusy
  cases hpass : o.session.pass with
  | some pass =>
    refine ⟨fun _ hidle => ?_, fun _ => rfl⟩
    rw [h.idle hidle] at hpass
    cases hpass
  | none => cases o.session.scheduler.state <;> simp

/-- In any history of a session, however requests and the ends of rebuilds follow each other: of the
tasks begun all but one have ended while the scheduler is not idle, and all when it is, and exactly
in the first case a rebuild is due or running. The rebuilds are numbered from one on without gaps,
each that has ended is reported once, with its number, and one that is running has the number of the
rebuild on record. Every request either made a rebuild due that follows no other, or was left to
the task that there was. A rebuild that follows another had requests made during the one before it;
and however many there were during one that has ended, one rebuild follows it, and none does if
there were none. -/
theorem Observed.accounts_of_run [Scalar α] {rack : Rack α} {settings : Settings} {s : Session α}
    (hnew : Session.new rack settings = .ok s) (events : List (Event α)) :
    let o := Observed.run ⟨s, none, false⟩ events
    let l := Observed.ledger ⟨s, none, false⟩ events .empty
    let scheduler := o.session.scheduler
    (l.tasksBegun = l.tasksEnded + if scheduler.state = .idle then 0 else 1) ∧
    (o.session.upcoming?.isSome ↔ scheduler.state ≠ .idle) ∧
    l.turns.map (·.number) = List.range' 1 scheduler.passes ∧
    o.session.reports.map (·.pass) = l.past.map (·.number) ∧
    (∀ pass, o.session.pass = some pass → ∃ t, l.turn = some t ∧ t.number = pass.number) ∧
    l.requests = l.turns.countP (!·.follows) + scheduler.coalesced ∧
    (∀ i t, l.turns[i]? = some t → t.follows = true →
      ∃ j t', i = j + 1 ∧ l.turns[j]? = some t' ∧ 0 < t'.requests) ∧
    (∀ i t, l.past[i]? = some t → 0 < t.requests →
      ∃ t', l.turns[i + 1]? = some t' ∧ t'.follows = true) ∧
    ∀ i t t', l.turns[i]? = some t → t.requests = 0 → l.turns[i + 1]? = some t' →
      t'.follows = false := by
  intro o l scheduler
  have hcurrent : Current o := (Current.new hnew).run events
  have hbalanced : Balanced o.session l := (Balanced.new hnew).run (Current.new hnew) events
  have hrecorded := hbalanced.recorded
  refine ⟨?_, ?_, hrecorded.numbers, hbalanced.reports, fun pass hpass => ?_, hrecorded.requests,
    fun i t => hrecorded.asked_before, fun i t ht hrequests => ?_,
    fun i t t' ht hnone ht' => ?_⟩
  · rw [hbalanced.tasks, hbalanced.length_turn]
  · exact hcurrent.upcoming?_isSome
  · have hbusy : scheduler.state ≠ .idle := fun hidle => by
      rw [hcurrent.idle hidle] at hpass
      cases hpass
    obtain ⟨t, ht⟩ := hbalanced.exists_turn hbusy
    rw [Ledger.turns_of_turn ht] at hrecorded
    exact ⟨t, ht, hrecorded.number_eq.trans (hcurrent.follows pass hpass).1.symm⟩
  · exact hbalanced.exists_next ht hrequests
  · have hfollows := hrecorded.follows_iff ht ht'
    rw [hnone] at hfollows
    simpa using hfollows

/-- The rebuild for an output is due when a tone is added, and running when it is connected and more
rebuilds are asked for. -/
def askedOften : List (Event Float) :=
  [.call (.addNode .universalOutput), .call (.addNode .oscillator), .checkpoint,
    .call (.connect ⟨"n2", "signal", "n1", "signal"⟩), .checkpoint, .call .requestRebuild,
    .call (.setTime 5), .call (.setPlaying true)] ++ List.replicate 8 .checkpoint

/-- Four requests that come before the first rebuild has ended lead to one more. -/
theorem accounts_of_askedOften : ∃ s, Session.new (Rack.new 48000.0) {} = .ok s ∧
    (Observed.ledger ⟨s, none, false⟩ askedOften .empty).past[0]? = some ⟨1, false, 4⟩ ∧
    (Observed.run ⟨s, none, false⟩ askedOften).session.scheduler = ⟨.idle, 2, 4⟩ ∧
    ∃ t, (Observed.ledger ⟨s, none, false⟩ askedOften .empty).turns[1]? = some t ∧
      t.follows = true := by
  obtain ⟨s, hs⟩ : ∃ s, Session.new (Rack.new 48000.0) {} = .ok s := ⟨_, rfl⟩
  have hpast : (Observed.ledger ⟨s, none, false⟩ askedOften .empty).past[0]? =
      some ⟨1, false, 4⟩ := by
    cases hs; decide +kernel
  have hscheduler : (Observed.run ⟨s, none, false⟩ askedOften).session.scheduler =
      ⟨.idle, 2, 4⟩ := by
    cases hs; decide +kernel
  obtain ⟨-, -, -, -, -, -, -, hfollowed, -⟩ := Observed.accounts_of_run hs askedOften
  exact ⟨s, hs, hpast, hscheduler, hfollowed 0 _ hpast (Nat.succ_pos 3)⟩

end Session

end Patchbay
