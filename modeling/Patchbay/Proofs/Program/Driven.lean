import Patchbay.Proofs.Program.Acceptance
import Patchbay.Proofs.Program.Assignments
/-!
# Which parameters a program drives

How the wiring of a program treats a connection depends on where it leads (`Program.Wired`): nothing
is said of a connection into a monitor, and one statement patches any other; before the first
connection into a socket with an inline value the parameter of the socket is set to zero.

So the parameter of every socket with an inline value is assigned to once in the whole program: in
the block of its node, or where the first connection into it is wired (`Document.driven_of_clean`).
The wiring is also stated as a loop that remembers the parameters that are zero by the texts of
their paths and stops where a handle is missing (`Program.attempt`); it never stops.
-/

namespace Patchbay

open Script

/-- Whether a connection leads into a socket of a node. -/
def Connection.Enters (c : Connection) (id : NodeId) (input : String) : Prop :=
  c.target = id ∧ c.input = input

instance (c : Connection) (id : NodeId) (input : String) : Decidable (c.Enters id input) :=
  inferInstanceAs (Decidable (_ ∧ _))

namespace Graph

variable {α : Type}

/-- Whether a connection leads into a monitor. -/
def shows (g : Graph α) (c : Connection) : Bool :=
  (g.node? c.target).any (·.kind.isMonitor)

/-- Whether a connection leads into an additional socket. -/
def modulates (g : Graph α) (c : Connection) : Bool :=
  ((g.node? c.target).bind (·.kind.input? c.input)).any (·.combine = .modulate)

/-- The place of a node is found by its name. -/
theorem WellFormed.position?_of_mem {g : Graph α} (hg : g.WellFormed) {n : Node α} {place : Nat}
    (hn : (n, place) ∈ g.nodes.zipIdx) : g.position? n.id = some place := by
  rw [hg.places, List.mem_zipIdx_iff_getElem?.mp hn]
  rfl

/-- Where a connection leads: a node at its place, and a socket of it. -/
structure Into (g : Graph α) (c : Connection) (n : Node α) (place : Nat) (socket : Socket) :
    Prop where
  placed : (n, place) ∈ g.nodes.zipIdx
  target : n.id = c.target
  socket : n.kind.input? c.input = some socket

namespace Into

variable {g : Graph α} {c : Connection} {n n' : Node α} {place place' : Nat}
    {socket socket' : Socket}

theorem mem (h : g.Into c n place socket) : n ∈ g.nodes := List.fst_mem_of_mem_zipIdx h.placed

theorem mem_inputs (h : g.Into c n place socket) : socket ∈ n.kind.inputs :=
  (Kind.input?_eq_some_iff.mp h.socket).1

theorem name (h : g.Into c n place socket) : socket.name = c.input :=
  (Kind.input?_eq_some_iff.mp h.socket).2

theorem node?_eq (h : g.Into c n place socket) (hg : g.WellFormed) : g.node? c.target = some n :=
  hg.node?_eq_some_iff.mpr ⟨h.mem, h.target⟩

theorem shows_eq (h : g.Into c n place socket) (hg : g.WellFormed) :
    g.shows c = n.kind.isMonitor := by
  rw [shows, h.node?_eq hg]
  rfl

theorem modulates_eq (h : g.Into c n place socket) (hg : g.WellFormed) :
    g.modulates c = decide (socket.combine = .modulate) := by
  rw [modulates, h.node?_eq hg, Option.bind_some, h.socket]
  rfl

/-- A connection that enters a socket leads to it. -/
theorem eq_of_enters (h : g.Into c n place socket) (hg : g.WellFormed)
    (hn : (n', place') ∈ g.nodes.zipIdx) (hsocket : socket' ∈ n'.kind.inputs)
    (henters : c.Enters n'.id socket'.name) : n' = n ∧ place' = place ∧ socket' = socket := by
  obtain rfl : n' = n := hg.eq_of_id_eq (List.fst_mem_of_mem_zipIdx hn) h.mem
    (henters.1.symm.trans h.target.symm)
  refine ⟨rfl, ?_, Option.some.inj ?_⟩
  · have hplace := hg.position?_of_mem hn
    exact Option.some.inj (hplace.symm.trans (hg.position?_of_mem h.placed))
  · exact (Kind.input?_eq_some_iff.mpr ⟨hsocket, henters.2.symm⟩).symm.trans h.socket

end Into

end Graph

namespace Program

variable {α : Type} [Scalar α]

/-! ## Statements of the wiring -/

/-- Sets a parameter of an object to zero. -/
def zero (object : String) (p : Param) : Stmt α :=
  .setValue (.member (.name object) p.name) (.number 0.0)

/-- Whether an expression patches an object into another. -/
def patches : Expr α → Bool
  | .call (.member _ method) _ => method == "connect"
  | _ => false

/-- Whether a statement patches an object into another, or into each of a list. -/
def isConnect : Stmt α → Bool
  | .run e => patches e
  | .forItems _ _ _ [.run e] => patches e
  | _ => false

/-- The handles of a connection: the variable of its output, and the wire of the socket that it
leads to. -/
structure Ends (g : Graph α) (options : Options α) (c : Connection) (x : String) (n : Node α)
    (place : Nat) (socket : Socket) (wire : Wire α) : Prop where
  source : ∃ m pm, (m, pm) ∈ g.nodes.zipIdx ∧ m.id = c.source ∧
    (blockOf g options.noiseSeconds m pm).output? c.output = some (.name x)
  into : g.Into c n place socket
  wire : (blockOf g options.noiseSeconds n place).wire? socket.name = some wire

/-- A statement patches what is behind the output of a connection into what its input leads to. -/
def Patches (g : Graph α) (options : Options α) (c : Connection) (s : Stmt α) : Prop :=
  ∃ x n place socket wire, Ends g options c x n place socket wire ∧ link (.name x) wire = [s]

omit [Scalar α] in
theorem isConnect_of_link {source : Expr α} {wire : Wire α} {s : Stmt α}
    (h : link source wire = [s]) : isConnect s = true := by
  cases wire with
  | dropped => cases h
  | object | param | each =>
    obtain rfl := (List.singleton_inj.mp h).symm
    rfl

omit [Scalar α] in
theorem assignmentsIn_link (source : Expr α) (wire : Wire α) :
    assignmentsIn (link source wire) = [] := by
  cases wire <;> rfl

theorem Patches.isConnect {g : Graph α} {options : Options α} {c : Connection} {s : Stmt α}
    (h : Patches g options c s) : isConnect s = true := by
  obtain ⟨x, n, place, socket, wire, -, hlink⟩ := h
  exact isConnect_of_link hlink

theorem Patches.assignmentsIn {g : Graph α} {options : Options α} {c : Connection} {s : Stmt α}
    (h : Patches g options c s) : assignmentsIn [s] = [] := by
  obtain ⟨x, n, place, socket, wire, -, hlink⟩ := h
  exact hlink ▸ assignmentsIn_link _ _

/-! ## Connections by where they lead -/

/-- How a connection is wired behind any others. -/
inductive Wired (g : Graph α) (options : Options α) (c : Connection) : Prop
  /-- Of a connection into a monitor nothing is said. -/
  | shown {n : Node α} {place : Nat} {socket : Socket} (into : g.Into c n place socket)
      (monitor : n.kind.isMonitor = true)
      (laid : ∀ done, wiring (blocks g options) done c = [])
  /-- Any other is patched. -/
  | patched {n : Node α} {place : Nat} {socket : Socket} {s : Stmt α}
      (into : g.Into c n place socket) (heard : n.kind.isMonitor = false)
      (plain : socket.inline = none) (patches : Patches g options c s)
      (laid : ∀ done, wiring (blocks g options) done c = [s])
  /-- The first one into a socket with an inline value finds its parameter set to zero. -/
  | driven {n : Node α} {place : Nat} {socket : Socket} {s : Stmt α} {role : String} {p : Param}
      (into : g.Into c n place socket) (heard : n.kind.isMonitor = false)
      (dial : n.kind.dial? socket.name = some (role, p)) (patches : Patches g options c s)
      (laid : ∀ done, wiring (blocks g options) done c =
        (if alreadyReplaced done c then [] else [zero (blockName place ++ "_" ++ role) p]) ++ [s])

/-- The wires of a block into parameters combine as the sockets do. -/
theorem combine_of_wire? {name : String} {seconds : α} {panel : Panel α} {socket : Socket}
    (hsocket : socket ∈ panel.kind.inputs) {path : Expr α} {combine : Combine}
    (h : (nodeBlock name seconds panel).wire? socket.name = some (.param path combine)) :
    combine = socket.combine := by
  obtain ⟨kind, values⟩ := panel
  cases kind <;> simp only [Kind.inputs, List.mem_cons, List.not_mem_nil, or_false] at hsocket
  case oscillator | gain | delay | biquadFilter =>
    rcases hsocket with rfl | rfl | rfl | rfl <;> cases h <;> rfl
  all_goals
    subst hsocket
    cases h

/-- Only monitors drop what is patched into them. -/
theorem ne_dropped {name : String} {seconds : α} {panel : Panel α} {socket : Socket}
    (hsocket : socket ∈ panel.kind.inputs) (hheard : panel.kind.isMonitor = false) {wire : Wire α}
    (h : (nodeBlock name seconds panel).wire? socket.name = some wire) : wire ≠ .dropped := by
  rintro rfl
  obtain ⟨kind, values⟩ := panel
  cases kind <;> simp only [Kind.inputs, List.mem_cons, List.not_mem_nil, or_false] at hsocket
  case oscillator | gain | delay | biquadFilter =>
    rcases hsocket with rfl | rfl | rfl | rfl <;> cases h
  case timeVisualizer | frequencyVisualizer | consoleDebugger => cases hheard
  all_goals
    subst hsocket
    cases h

section

variable {g : Graph α} {options : Options α} {c : Connection} {l l' done rest : List Connection}

/-- Both ends of a connection have handles. -/
theorem exists_ends (hg : g.WellFormed) (options : Options α) (hc : c ∈ g.connections) :
    ∃ x n place socket wire, Ends g options c x n place socket wire := by
  obtain ⟨⟨m, pm, hm, hsource, o, ho, houtput⟩, n, pn, hn, htarget, socket, hsocket⟩ :=
    Script.exists_ends hg hc
  have hinto : g.Into c n pn socket := ⟨hn, htarget, hsocket⟩
  obtain ⟨x, hx⟩ :=
    exists_output? (blockName pm) options.noiseSeconds (show o ∈ m.panel.kind.outputs from ho)
  obtain ⟨wire, hwire⟩ := exists_wire? (blockName pn) options.noiseSeconds hinto.mem_inputs
  exact ⟨x, n, pn, socket, wire, ⟨m, pm, hm, hsource, houtput ▸ hx⟩, hinto, hwire⟩

omit [Scalar α] in
theorem exists_into (hg : g.WellFormed) (hc : c ∈ g.connections) :
    ∃ n place socket, g.Into c n place socket :=
  let ⟨_, n, place, hn, htarget, socket, hsocket⟩ := Script.exists_ends hg hc
  ⟨n, place, socket, hn, htarget, hsocket⟩

theorem Ends.wiring_eq {x : String} {n : Node α} {place : Nat} {socket : Socket} {wire : Wire α}
    (h : Ends g options c x n place socket wire) (hg : g.WellFormed) (done : List Connection) :
    wiring (blocks g options) done c = zeroing done c wire ++ link (.name x) wire := by
  obtain ⟨m, pm, hm, hsource, hx⟩ := h.source
  exact Script.wiring_eq hg options hm hsource h.into.placed h.into.target hx (h.into.name ▸ h.wire)

theorem wired_of_mem (hg : g.WellFormed) (options : Options α) (hc : c ∈ g.connections) :
    Wired g options c := by
  obtain ⟨x, n, place, socket, wire, h⟩ := exists_ends hg options hc
  have hwire : (nodeBlock (blockName place) options.noiseSeconds n.panel).wire? socket.name =
    some wire := h.wire
  cases hmonitor : n.kind.isMonitor with
  | true =>
    have hdropped := wire?_monitor hmonitor h.into.socket (blockName place) options.noiseSeconds
    obtain rfl : wire = .dropped :=
      Option.some.inj (h.wire.symm.trans (h.into.name ▸ hdropped))
    exact .shown h.into hmonitor (h.wiring_eq hg)
  | false =>
    obtain ⟨s, hs⟩ : ∃ s, link (.name x) wire = [s] := by
      cases wire with
      | dropped => exact absurd rfl (ne_dropped h.into.mem_inputs hmonitor hwire)
      | object | param | each => exact ⟨_, rfl⟩
    have hpatches : Patches g options c s := ⟨x, n, place, socket, wire, h, hs⟩
    cases hinline : socket.inline with
    | none =>
      refine .patched h.into hmonitor hinline hpatches fun done => ?_
      have hzeroing : zeroing done c wire = [] := by
        cases wire with
        | dropped | object | each => rfl
        | param path combine =>
          have hkeeps : combine.replaces = false := by
            rw [combine_of_wire? h.into.mem_inputs hwire,
              Kind.inline_of_replaces h.into.mem_inputs, hinline]
            rfl
          rw [zeroing, hkeeps]
          rfl
      rw [h.wiring_eq hg, hzeroing, hs, List.nil_append]
    | some control =>
      have hreplaces : socket.combine.replaces = true := by
        rw [Kind.inline_of_replaces h.into.mem_inputs, hinline]
        rfl
      obtain ⟨role, p, hdial⟩ :=
        Kind.exists_dial? h.into.mem_inputs (Option.isSome_of_eq_some hinline)
      obtain rfl := Option.some.inj
        (hwire.symm.trans (wire?_of_dial? _ options.noiseSeconds h.into.mem_inputs hdial))
      refine .driven h.into hmonitor hdial hpatches fun done => ?_
      rw [h.wiring_eq hg, hs, zeroing, hreplaces]
      cases alreadyReplaced done c <;> rfl

/-! ## What is patched -/

/-- Statements wire connections in their order: one statement patches each of those that do not lead
into a monitor, and all others set parameters to zero. -/
structure Wires (g : Graph α) (options : Options α) (l : List Connection) (stmts : List (Stmt α)) :
    Prop where
  connects : List.Forall₂ (Patches g options) (l.filter fun c => !g.shows c)
    (stmts.filter isConnect)
  others : ∀ s ∈ stmts, isConnect s = false → ∃ object p, s = zero object p

theorem Wires.append {stmts stmts' : List (Stmt α)} (h : Wires g options l stmts)
    (h' : Wires g options l' stmts') : Wires g options (l ++ l') (stmts ++ stmts') where
  connects := by
    rw [List.filter_append, List.filter_append]
    exact List.rel_append h.connects h'.connects
  others s hs := (List.mem_append.mp hs).elim (h.others s) (h'.others s)

theorem Wires.cons_zero {stmts : List (Stmt α)} (h : Wires g options l stmts) (object : String)
    (p : Param) : Wires g options l (zero object p :: stmts) where
  connects := h.connects
  others s hs hnot := by
    rcases List.mem_cons.mp hs with rfl | hs
    · exact ⟨object, p, rfl⟩
    · exact h.others s hs hnot

theorem Patches.wires {s : Stmt α} (h : Patches g options c s) (hheard : g.shows c = false) :
    Wires g options [c] [s] where
  connects := by simpa [hheard, h.isConnect] using h
  others s' hs' hnot := by
    obtain rfl := List.mem_singleton.mp hs'
    exact absurd (h.isConnect.symm.trans hnot) Bool.noConfusion

/-- The statements of one connection wire it. -/
theorem Wired.wires (hg : g.WellFormed) (h : Wired g options c) (done : List Connection) :
    Wires g options [c] (wiring (blocks g options) done c) := by
  cases h with
  | shown into monitor laid =>
    rw [laid]
    have hshows : g.shows c = true := (into.shows_eq hg).trans monitor
    exact ⟨by simp [hshows], fun s hs => absurd hs List.not_mem_nil⟩
  | patched into heard plain patches laid =>
    rw [laid]
    exact patches.wires ((into.shows_eq hg).trans heard)
  | driven into heard dial patches laid =>
    rw [laid]
    have hwires := patches.wires ((into.shows_eq hg).trans heard)
    split
    · exact hwires
    · exact hwires.cons_zero _ _

theorem wirings_append (blocks : List (NodeId × Block α)) (done l l' : List Connection) :
    wirings blocks done (l ++ l') = wirings blocks done l ++ wirings blocks (done ++ l) l' := by
  induction l generalizing done with
  | nil => rw [List.nil_append, wirings, List.nil_append, List.append_nil]
  | cons c l ih =>
    rw [List.cons_append, wirings, wirings, ih, List.append_assoc, List.append_assoc]
    rfl

/-- The statements of connections wire them. -/
theorem wires_wirings (hg : g.WellFormed) (options : Options α) (hl : l ⊆ g.connections)
    (done : List Connection) : Wires g options l (wirings (blocks g options) done l) := by
  induction l generalizing done with
  | nil => exact ⟨.nil, fun s hs => absurd hs List.not_mem_nil⟩
  | cons c l ih =>
    obtain ⟨hc, hl⟩ := List.cons_subset.mp hl
    exact ((wired_of_mem hg options hc).wires hg done).append (ih hl _)

/-! ## What is set to zero -/

omit [Scalar α] in
/-- No two sockets of a graph stand for the same parameter, even as it is written. -/
theorem dial_inj {n n' : Node α} {place place' : Nat} (hn : (n, place) ∈ g.nodes.zipIdx)
    (hn' : (n', place') ∈ g.nodes.zipIdx) {socket socket' : Socket}
    (hsocket : socket ∈ n.kind.inputs) (hsocket' : socket' ∈ n'.kind.inputs) {role role' : String}
    {p p' : Param} (hdial : n.kind.dial? socket.name = some (role, p))
    (hdial' : n'.kind.dial? socket'.name = some (role', p'))
    (hsame : blockName place ++ "_" ++ role ++ "." ++ p.name =
      blockName place' ++ "_" ++ role' ++ "." ++ p'.name) : n = n' ∧ socket = socket' := by
  have hgroup : ∀ s t : String, s ++ role ++ "." ++ t = s ++ (role ++ "." ++ t) ∧
      s ++ role' ++ "." ++ t = s ++ (role' ++ "." ++ t) := by simp [String.append_assoc]
  rw [(hgroup _ _).1, (hgroup _ _).2] at hsame
  obtain rfl : place = place' := blockName_inj hsame
  obtain rfl : n = n' := Option.some.inj
    ((List.mem_zipIdx_iff_getElem?.mp hn).symm.trans (List.mem_zipIdx_iff_getElem?.mp hn'))
  rw [String.append_right_inj] at hsame
  exact ⟨rfl, Kind.dial?_inj hsocket hsocket' hdial hdial' hsame⟩

theorem settingsOf_zero (x y : String) (p p' : Param) :
    settingsOf (α := α) x p.name [zero y p'] =
      if y = x ∧ p'.name = p.name then [zero y p'] else [] :=
  settingsOf_setValue _ _ _

theorem Patches.settingsOf {s : Stmt α} (h : Patches g options c s) (x param : String) :
    settingsOf x param [s] = [] := by
  rw [Script.settingsOf, h.assignmentsIn]
  rfl

theorem alreadyReplaced_iff :
    alreadyReplaced done c = true ↔ ∃ d ∈ done, d.Enters c.target c.input := by
  simp [alreadyReplaced, Connection.Enters]

section

variable {n : Node α} {place : Nat} {socket : Socket} {role : String} {p : Param}

variable (hg : g.WellFormed) (hn : (n, place) ∈ g.nodes.zipIdx) (hsocket : socket ∈ n.kind.inputs)
  (hdial : n.kind.dial? socket.name = some (role, p))

include hg hn hsocket hdial

/-- A connection that enters the socket of a parameter is patched, and the first one finds the
parameter set to zero. -/
theorem exists_of_enters (options : Options α) (hc : c ∈ g.connections)
    (henters : c.Enters n.id socket.name) :
    ∃ s, Patches g options c s ∧ ∀ done, wiring (blocks g options) done c =
      (if ∃ d ∈ done, d.Enters n.id socket.name then []
        else [zero (blockName place ++ "_" ++ role) p]) ++ [s] := by
  have hinline : socket.inline.isSome := by
    rw [← Kind.isSome_dial? hsocket, hdial]
    rfl
  cases wired_of_mem hg options hc with
  | shown into monitor laid =>
    obtain ⟨rfl, -, rfl⟩ := into.eq_of_enters hg hn hsocket henters
    generalize n.kind = k at *
    cases k <;> cases monitor <;> cases hdial
  | patched into heard plain patches laid =>
    obtain ⟨rfl, -, rfl⟩ := into.eq_of_enters hg hn hsocket henters
    rw [plain] at hinline
    cases hinline
  | @driven n' place' socket' s role' p' into heard dial patches laid =>
    obtain ⟨rfl, rfl, rfl⟩ := into.eq_of_enters hg hn hsocket henters
    obtain ⟨rfl, rfl⟩ := Prod.mk.inj (Option.some.inj (dial.symm.trans hdial))
    refine ⟨s, patches, fun done => ?_⟩
    have hold : alreadyReplaced done c = true ↔ ∃ d ∈ done, d.Enters n.id socket.name := by
      rw [alreadyReplaced_iff, henters.1, henters.2]
    rw [laid]
    exact congrArg (· ++ [s]) (if_congr hold rfl rfl)

/-- Any other connection leaves the parameter. -/
theorem settingsOf_wiring_of_not_enters (options : Options α) (hc : c ∈ g.connections)
    (henters : ¬c.Enters n.id socket.name) (done : List Connection) :
    settingsOf (blockName place ++ "_" ++ role) p.name (wiring (blocks g options) done c) = [] := by
  cases wired_of_mem hg options hc with
  | shown into monitor laid =>
    rw [laid]
    rfl
  | patched into heard plain patches laid => rw [laid, patches.settingsOf]
  | @driven n' place' socket' s role' p' into heard dial patches laid =>
    rw [laid, settingsOf_append, patches.settingsOf, List.append_nil]
    split
    · rfl
    · rw [settingsOf_zero, if_neg]
      rintro ⟨hname, hparam⟩
      obtain ⟨rfl, rfl⟩ := dial_inj into.placed hn into.mem_inputs hsocket dial hdial
        (by rw [hname, hparam])
      exact henters ⟨into.target.symm, into.name.symm⟩

/-- Connections behind others set the parameter of a socket to zero once, if they are the first that
enter the socket, and not otherwise. -/
theorem settingsOf_wirings (options : Options α) (hl : l ⊆ g.connections) (done : List Connection) :
    settingsOf (blockName place ++ "_" ++ role) p.name (wirings (blocks g options) done l) =
      if (∃ c ∈ l, c.Enters n.id socket.name) ∧ ¬∃ d ∈ done, d.Enters n.id socket.name then
        [zero (blockName place ++ "_" ++ role) p] else [] := by
  induction l generalizing done with
  | nil => simp [wirings, settingsOf, assignmentsIn]
  | cons c l ih =>
    obtain ⟨hc, hl⟩ := List.cons_subset.mp hl
    rw [wirings, settingsOf_append, ih hl]
    by_cases henters : c.Enters n.id socket.name
    · obtain ⟨s, hpatches, hlaid⟩ := exists_of_enters hg hn hsocket hdial options hc henters
      rw [hlaid, settingsOf_append, hpatches.settingsOf]
      by_cases hdone : ∃ d ∈ done, d.Enters n.id socket.name
      · simp [hdone, henters, settingsOf, assignmentsIn]
      · simp [hdone, henters, settingsOf_zero]
    · rw [settingsOf_wiring_of_not_enters hg hn hsocket hdial options hc henters]
      simp [henters]

/-- Where something is connected into the socket of a parameter, the first such connection is wired
right behind the statement that sets the parameter to zero. -/
theorem exists_first (options : Options α) (h : g.isConnected n.id socket.name = true) :
    ∃ before c after, g.connections = before ++ c :: after ∧ c.Enters n.id socket.name ∧
      (∀ d ∈ before, ¬d.Enters n.id socket.name) ∧ ∃ w s w',
        wirings (blocks g options) [] g.connections =
          w ++ zero (blockName place ++ "_" ++ role) p :: s :: w' ∧
        Wires g options before w ∧ Patches g options c s ∧ Wires g options after w' := by
  obtain ⟨c, hc, henters⟩ := Graph.isConnected_iff.mp h
  have hfound : (g.connections.find? fun c => c.Enters n.id socket.name).isSome :=
    List.find?_isSome.mpr ⟨c, hc, decide_eq_true henters⟩
  obtain ⟨first, hfirst⟩ := Option.isSome_iff_exists.mp hfound
  obtain ⟨hfirst, before, after, hsplit, hbefore⟩ := List.find?_eq_some_iff_append.mp hfirst
  have hfirst : first.Enters n.id socket.name := of_decide_eq_true hfirst
  have hbefore : ∀ d ∈ before, ¬d.Enters n.id socket.name := fun d hd => by
    simpa using hbefore d hd
  have hmem : ∀ d ∈ before ++ first :: after, d ∈ g.connections := fun d hd => hsplit ▸ hd
  obtain ⟨s, hpatches, hlaid⟩ :=
    exists_of_enters hg hn hsocket hdial options (hmem first (by simp)) hfirst
  have hnew : ¬∃ d ∈ before, d.Enters n.id socket.name := fun ⟨d, hd, h⟩ => hbefore d hd h
  refine ⟨before, first, after, hsplit, hfirst, hbefore,
    wirings (blocks g options) [] before, s, wirings (blocks g options) (before ++ [first]) after,
    ?_, wires_wirings hg options (fun d hd => hmem d (by simp [hd])) _, hpatches,
    wires_wirings hg options (fun d hd => hmem d (by simp [hd])) _⟩
  rw [hsplit, wirings_append, List.nil_append, wirings, hlaid, if_neg hnew]
  rfl

end

/-! ## Additional sockets -/

/-- A connection into an additional socket assigns to nothing. -/
theorem assignmentsIn_wiring (hg : g.WellFormed) (options : Options α) (hc : c ∈ g.connections)
    (hmodulates : g.modulates c = true) (done : List Connection) :
    assignmentsIn (wiring (blocks g options) done c) = [] := by
  cases wired_of_mem hg options hc with
  | shown into monitor laid =>
    rw [laid]
    rfl
  | patched into heard plain patches laid => rw [laid, patches.assignmentsIn]
  | driven into heard dial patches laid =>
    have hcombine := of_decide_eq_true ((into.modulates_eq hg).symm.trans hmodulates)
    have hinline := Kind.isSome_dial? into.mem_inputs
    rw [dial, ← Kind.inline_of_replaces into.mem_inputs, hcombine] at hinline
    cases hinline

/-- What is assigned to in the wiring of connections does not depend on those among them that lead
into additional sockets, wherever they stand. -/
theorem assignmentsIn_wirings_filter (hg : g.WellFormed) (options : Options α)
    (hl : l ⊆ g.connections) (done : List Connection) :
    assignmentsIn (wirings (blocks g options) done l) =
      assignmentsIn (wirings (blocks g options) (done.filter fun c => !g.modulates c)
        (l.filter fun c => !g.modulates c)) := by
  induction l generalizing done with
  | nil => rfl
  | cons c l ih =>
    obtain ⟨hc, hl⟩ := List.cons_subset.mp hl
    rw [wirings, assignmentsIn_append, ih hl, List.filter_append]
    cases hmodulates : g.modulates c with
    | true =>
      rw [assignmentsIn_wiring hg options hc hmodulates,
        List.filter_cons_of_neg (by simp [hmodulates]),
        List.filter_cons_of_neg (by simp [hmodulates]), List.filter_nil, List.append_nil,
        List.nil_append]
    | false =>
      -- a connection that enters the same socket does not lead into an additional one either
      have hsame :
          alreadyReplaced (done.filter fun c => !g.modulates c) c = alreadyReplaced done c := by
        rw [Bool.eq_iff_iff, alreadyReplaced_iff, alreadyReplaced_iff]
        simp only [List.mem_filter, Bool.not_eq_true', and_assoc]
        refine exists_congr fun d => and_congr_right fun _ => and_iff_right_of_imp fun henters => ?_
        rw [← hmodulates, Graph.modulates, Graph.modulates, henters.1, henters.2]
      have hwiring : wiring (blocks g options) (done.filter fun c => !g.modulates c) c =
          wiring (blocks g options) done c := by
        unfold wiring
        rw [hsame]
      rw [List.filter_cons_of_pos (by simp [hmodulates]),
        List.filter_cons_of_pos (by simp [hmodulates]),
        List.filter_nil, wirings, assignmentsIn_append, hwiring]

/-! ## Wiring that can stop -/

/-- A connection without a handle at one of its ends. -/
structure Dangling where
  connection : Connection
  reason : String

/-- The block of a node, by the place of the node in the graph. -/
def blockAt? (g : Graph α) (blocks : List (Block α)) (id : NodeId) : Option (Block α) :=
  (g.position? id).bind (blocks[·]?)

/-- Wires connections one after another, with the texts of the parameters that are set to zero
already. It stops at the first connection without a handle at one of its ends. -/
def attempt (g : Graph α) (blocks : List (Block α)) (zeroed : List String) :
    List Connection → Except Dangling (List (Stmt α))
  | [] => .ok []
  | c :: rest =>
    match (blockAt? g blocks c.source).bind (·.output? c.output),
      (blockAt? g blocks c.target).bind (·.wire? c.input) with
    | none, _ => .error ⟨c, "source has no output handle"⟩
    | some _, none => .error ⟨c, "target has no input handle"⟩
    | some source, some (.param path combine) =>
      if combine.replaces && path.toText ∉ zeroed then
        (attempt g blocks (path.toText :: zeroed) rest).map
          (.setValue path (.number 0.0) :: connect source path :: ·)
      else (attempt g blocks zeroed rest).map (connect source path :: ·)
    | some source, some wire => (attempt g blocks zeroed rest).map (link source wire ++ ·)

/-- A connection leads into a socket whose parameter has the text. -/
def SetsText (g : Graph α) (c : Connection) (text : String) : Prop :=
  ∃ n place socket role p, g.Into c n place socket ∧ n.kind.dial? socket.name = some (role, p) ∧
    text = blockName place ++ "_" ++ role ++ "." ++ p.name

theorem blockAt?_eq (hg : g.WellFormed) (options : Options α) {n : Node α} {place : Nat}
    (hn : (n, place) ∈ g.nodes.zipIdx) :
    blockAt? g ((blocks g options).map (·.2)) n.id =
      some (blockOf g options.noiseSeconds n place) := by
  rw [blockAt?, hg.position?_of_mem hn, Option.bind_some, blocks, List.map_map, List.getElem?_map,
    List.getElem?_zipIdx, List.mem_zipIdx_iff_getElem?.mp hn]
  simp

omit [Scalar α] in
/-- Connections that set the same text enter the same socket. -/
theorem SetsText.iff_enters (hg : g.WellFormed) {d : Connection} {text : String}
    (h : SetsText g c text) (hd : ∃ n place socket, g.Into d n place socket) :
    SetsText g d text ↔ d.Enters c.target c.input := by
  obtain ⟨n, place, socket, role, p, into, hdial, rfl⟩ := h
  constructor
  · rintro ⟨n', place', socket', role', p', into', hdial', hsame⟩
    obtain ⟨rfl, rfl⟩ := dial_inj into.placed into'.placed into.mem_inputs into'.mem_inputs hdial
      hdial' hsame
    exact ⟨into'.target.symm.trans into.target, into'.name.symm.trans into.name⟩
  · intro henters
    obtain ⟨n', place', socket', into'⟩ := hd
    obtain ⟨rfl, rfl, rfl⟩ := into'.eq_of_enters hg into.placed into.mem_inputs
      ⟨henters.1.trans into.target.symm, henters.2.trans into.name.symm⟩
    exact ⟨n, place, socket, role, p, into', hdial, rfl⟩

omit [Scalar α] in
theorem SetsText.unique (hg : g.WellFormed) {text text' : String} (h : SetsText g c text)
    (h' : SetsText g c text') : text = text' := by
  obtain ⟨n, place, socket, role, p, into, hdial, rfl⟩ := h
  obtain ⟨n', place', socket', role', p', into', hdial', rfl⟩ := h'
  obtain ⟨rfl, rfl, rfl⟩ := into'.eq_of_enters hg into.placed into.mem_inputs
    ⟨into.target.symm, into.name.symm⟩
  obtain ⟨rfl, rfl⟩ := Prod.mk.inj (Option.some.inj (hdial.symm.trans hdial'))
  rfl

/-- Wiring does not stop, and gives the statements of the wiring of programs. -/
theorem attempt_eq (hg : g.WellFormed) (options : Options α) {zeroed : List String}
    (hrest : rest ⊆ g.connections) (hdone : done ⊆ g.connections)
    (hzeroed : ∀ text, text ∈ zeroed ↔ ∃ d ∈ done, SetsText g d text) :
    attempt g ((blocks g options).map (·.2)) zeroed rest =
      .ok (wirings (blocks g options) done rest) := by
  induction rest generalizing done zeroed with
  | nil => rfl
  | cons c rest ih =>
    obtain ⟨hc, hrest⟩ := List.cons_subset.mp hrest
    have hdone' : done ++ [c] ⊆ g.connections := by simpa [hc] using hdone
    obtain ⟨x, n, place, socket, wire, h⟩ := exists_ends hg options hc
    obtain ⟨m, pm, hm, hsource, hx⟩ := h.source
    have hwire : (nodeBlock (blockName place) options.noiseSeconds n.panel).wire? socket.name =
      some wire := h.wire
    rw [attempt, ← hsource, ← h.into.target, blockAt?_eq hg options hm,
      blockAt?_eq hg options h.into.placed, Option.bind_some, Option.bind_some, hx, ← h.into.name,
      h.wire, wirings, h.wiring_eq hg]
    cases hreplaces : socket.combine.replaces with
    | true =>
      obtain ⟨role, p, hdial⟩ := Kind.exists_dial? h.into.mem_inputs
        ((Kind.inline_of_replaces h.into.mem_inputs).symm.trans hreplaces)
      obtain rfl := Option.some.inj
        (hwire.symm.trans (wire?_of_dial? _ options.noiseSeconds h.into.mem_inputs hdial))
      have hsets : SetsText g c (blockName place ++ "_" ++ role ++ "." ++ p.name) :=
        ⟨n, place, socket, role, p, h.into, hdial, rfl⟩
      have htext : (Expr.member (.name (blockName place ++ "_" ++ role)) p.name : Expr α).toText =
        blockName place ++ "_" ++ role ++ "." ++ p.name := rfl
      have hold : blockName place ++ "_" ++ role ++ "." ++ p.name ∈ zeroed ↔
          alreadyReplaced done c = true := by
        rw [hzeroed, alreadyReplaced_iff]
        exact exists_congr fun d => and_congr_right fun hd =>
          hsets.iff_enters hg (exists_into hg (hdone hd))
      have hother (text : String) : text ∈ zeroed ∨ SetsText g c text ↔
          ∃ d ∈ done ++ [c], SetsText g d text := by
        simp [hzeroed, or_and_right, exists_or]
      dsimp only
      rw [htext, hreplaces, zeroing, hreplaces]
      cases halready : alreadyReplaced done c with
      | true =>
        have hmem := hold.mpr halready
        rw [if_neg (by simp [hmem]), ih hrest hdone' fun text => ?_]
        · rfl
        rw [← hother, iff_self_or]
        exact fun htext => htext.unique hg hsets ▸ hmem
      | false =>
        have hmem := mt hold.mp (Bool.not_eq_true _ ▸ halready)
        rw [if_pos (by simp [hmem]), ih hrest hdone' fun text => ?_]
        · rfl
        rw [← hother, List.mem_cons, or_comm]
        exact or_congr_right ⟨fun heq => heq ▸ hsets, fun htext => htext.unique hg hsets⟩
    | false =>
      have hplain : ∀ text, ¬SetsText g c text := by
        rintro text ⟨n', place', socket', role, p, into, hdial, -⟩
        obtain ⟨rfl, -, rfl⟩ := h.into.eq_of_enters hg into.placed into.mem_inputs
          ⟨into.target.symm, into.name.symm⟩
        have hinline := Kind.isSome_dial? into.mem_inputs
        rw [hdial, ← Kind.inline_of_replaces into.mem_inputs, hreplaces] at hinline
        cases hinline
      have hkept (text : String) : text ∈ zeroed ↔ ∃ d ∈ done ++ [c], SetsText g d text := by
        simpa [hplain text, or_and_right, exists_or] using hzeroed text
      cases wire with
      | object | each | dropped =>
        dsimp only
        rw [ih hrest hdone' hkept]
        rfl
      | param path combine =>
        obtain rfl := combine_of_wire? h.into.mem_inputs hwire
        dsimp only
        rw [hreplaces, Bool.false_and, if_neg Bool.false_ne_true, ih hrest hdone' hkept, zeroing,
          hreplaces]
        rfl

end

/-! ## Whole programs -/

/-- The parameter that a socket with an inline value stands for is assigned to once in a program. If
nothing is connected into the socket, the inline value is written in the block of the node.
Otherwise zero is written in the wiring, right before the first connection into the socket is
patched. -/
structure AssignedOnce (g : Graph α) (options : Options α) (program : Paragraphs α)
    (wired : List (Stmt α)) (n : Node α) (place : Nat) (socket : Socket) (control : String)
    (object : String) (p : Param) : Prop where
  wire : (blockOf g options.noiseSeconds n place).wire? socket.name =
    some (.param (.member (.name object) p.name) socket.combine)
  inline : g.isConnected n.id socket.name = false →
    settingsOf object p.name program.flatten =
      [.setValue (.member (.name object) p.name) (.number (n.panel.number control))] ∧
    settingsOf object p.name (blockOf g options.noiseSeconds n place).statements =
      [.setValue (.member (.name object) p.name) (.number (n.panel.number control))]
  driven : g.isConnected n.id socket.name = true →
    settingsOf object p.name program.flatten = [zero object p] ∧
    ∃ before c after, g.connections = before ++ c :: after ∧ c.Enters n.id socket.name ∧
      (∀ d ∈ before, ¬d.Enters n.id socket.name) ∧
      ∃ w s w', wired = w ++ zero object p :: s :: w' ∧
        Wires g options before w ∧ Patches g options c s ∧ Wires g options after w'

theorem assignedOnce {g : Graph α} (hg : g.WellFormed) (options : Options α) {n : Node α}
    {place : Nat} (hn : (n, place) ∈ g.nodes.zipIdx) {socket : Socket}
    (hsocket : socket ∈ n.kind.inputs) {control : String} (hinline : socket.inline = some control)
    {role : String} {p : Param} (hdial : n.kind.dial? socket.name = some (role, p)) :
    AssignedOnce g options (ofGraph g options) (wirings (blocks g options) [] g.connections) n place
      socket control (blockName place ++ "_" ++ role) p := by
  have hmaster := blockName_ne (x := "master") place role (by decide)
  have hblock := settingsOf_blockOf (g := g) place options.noiseSeconds hsocket hinline hdial
  -- nothing but the block of the node and the wiring assigns to the parameter
  have hprogram : settingsOf (blockName place ++ "_" ++ role) p.name (ofGraph g options).flatten =
      settingsOf (blockName place ++ "_" ++ role) p.name
        (blockOf g options.noiseSeconds n place).statements ++
      settingsOf (blockName place ++ "_" ++ role) p.name
        (wirings (blocks g options) [] g.connections) := by
    have hcomment : settingsOf (blockName place ++ "_" ++ role) p.name
      [(.comment "wiring" : Stmt α)] = [] := rfl
    rw [flatten_parts, settingsOf_append, settingsOf_append, settingsOf_append, settingsOf_append,
      settingsOf_preamble hmaster, settingsOf_helpers, settingsOf_epilogue,
      settingsOf_blocks options hn, settingsOf_cons (.comment "wiring"), hcomment, List.nil_append,
      List.nil_append, List.nil_append, List.append_nil]
  rw [settingsOf_wirings hg hn hsocket hdial options (List.Subset.refl _), hblock] at hprogram
  have hentered : ((∃ c ∈ g.connections, c.Enters n.id socket.name) ∧
      ¬∃ d ∈ ([] : List Connection), d.Enters n.id socket.name) ↔
        g.isConnected n.id socket.name = true := by
    simp [Graph.isConnected_iff, Connection.Enters]
  rw [if_congr hentered rfl rfl] at hprogram
  refine ⟨wire?_of_dial? _ _ hsocket hdial, fun hnone => ⟨?_, ?_⟩, fun hsome => ⟨?_, ?_⟩⟩
  · rw [hprogram, hnone]
    rfl
  · rw [hblock, hnone]
    rfl
  · rw [hprogram, hsome]
    rfl
  · exact exists_first hg hn hsocket hdial options hsome

end Program

open Program in
/-- Wiring the connections of a document that can be imported as a whole never stops. The statements
it gives patch each connection that does not lead into a monitor, in their order, and besides only
set parameters to zero. In the whole program the parameter of every socket with an inline value is
assigned to once. Connections into additional sockets assign to nothing, and do not change what
others assign to, in whatever order all of them are wired. -/
theorem Document.driven_of_clean {α : Type} [Scalar α] [StandardsAccepted α] (d : Document)
    (options : Options α)
    (hclean : (d.toGraph (α := α)).2.isClean = true) :
    let g := (d.toGraph (α := α)).1
    ∃ program wired, ofDocument d options = .ok program ∧
      attempt g ((blocks g options).map (·.2)) [] g.connections = .ok wired ∧
      program = [preamble g options] ++ helpers g ++ (blocks g options).map (·.2.statements) ++
        [.comment "wiring" :: wired] ++ epilogue ∧
      Wires g options g.connections wired ∧
      (∀ n place, (n, place) ∈ g.nodes.zipIdx → ∀ socket ∈ n.kind.inputs, ∀ control,
        socket.inline = some control → ∃ role p, n.kind.dial? socket.name = some (role, p) ∧
          AssignedOnce g options program wired n place socket control
            (blockName place ++ "_" ++ role) p) ∧
      (∀ c ∈ g.connections, g.modulates c = true → ∀ done,
        assignmentsIn (wiring (blocks g options) done c) = []) ∧
      ∀ l ⊆ g.connections, assignmentsIn (wirings (blocks g options) [] l) =
        assignmentsIn (wirings (blocks g options) [] (l.filter fun c => !g.modulates c)) := by
  intro g
  have hg : g.WellFormed := d.sound_toGraph.wellFormed
  refine ⟨ofGraph g options, wirings (blocks g options) [] g.connections,
    ofDocument_of_isClean options hclean,
    attempt_eq hg options (List.Subset.refl _) (List.nil_subset _) (by simp), rfl,
    wires_wirings hg options (List.Subset.refl _) _,
    fun n place hn socket hsocket control hinline => ?_,
    fun c hc => assignmentsIn_wiring hg options hc,
    fun l hl => assignmentsIn_wirings_filter hg options hl []⟩
  obtain ⟨role, p, hdial⟩ := Kind.exists_dial? hsocket (Option.isSome_of_eq_some hinline)
  exact ⟨role, p, hdial, assignedOnce hg options hn hsocket hinline hdial⟩

/-- An oscillator whose frequency a constant replaces and another oscillator is added onto, heard
and shown. The connection into the additional socket comes first. -/
def Document.vibrato : Document where
  nodes := [⟨"depth", "Oscillator", .null⟩, ⟨"pitch", "Constant", .null⟩,
    ⟨"tone", "Oscillator", .null⟩, ⟨"scope", "Time Domain Visualizer", .null⟩,
    ⟨"out", "Audio Output", .null⟩]
  connections := [⟨"depth", "signal", "tone", "frequency"⟩,
    ⟨"pitch", "value", "tone", "baseFrequency"⟩, ⟨"tone", "signal", "scope", "signal"⟩,
    ⟨"tone", "signal", "out", "signal"⟩]
  comments := []

open Program in
/-- The frequency of its heard oscillator is set to zero, once, and that of the other to its inline
value. -/
theorem Document.driven_vibrato :
    (vibrato.toGraph (α := Float)).2.isClean = true ∧
    ∃ program, ofDocument (α := Float) vibrato .standard = .ok program ∧
      settingsOf "n3_osc" "frequency" program.flatten = [zero "n3_osc" .frequency] ∧
      ∃ value, settingsOf "n1_osc" "frequency" program.flatten =
        [.setValue (.member (.name "n1_osc") "frequency") (.number value)] := by
  have hclean : (vibrato.toGraph (α := Float)).2.isClean = true := by decide
  obtain ⟨program, wired, hprogram, -, -, -, hassigned, -⟩ := driven_of_clean vibrato .standard
      hclean
  have hkinds : (vibrato.toGraph (α := Float)).1.nodes.map (fun n => (n.id, n.kind)) =
      [("depth", .oscillator), ("pitch", .constant), ("tone", .oscillator),
        ("scope", .timeVisualizer), ("out", .audioOutput)] := by decide
  have hconnections : (vibrato.toGraph (α := Float)).1.connections = vibrato.connections := by
    decide
  have hplace : ∀ place id, ((vibrato.toGraph (α := Float)).1.nodes.map
      (fun n => (n.id, n.kind)))[place]? = some (id, .oscillator) →
      ∃ n, (n, place) ∈ (vibrato.toGraph (α := Float)).1.nodes.zipIdx ∧ n.id = id ∧
        n.kind = .oscillator := by
    intro place id hid
    rw [List.getElem?_map] at hid
    obtain ⟨n, hn, heq⟩ := Option.map_eq_some_iff.mp hid
    obtain ⟨rfl, hkind⟩ := Prod.mk.inj heq
    exact ⟨n, List.mem_zipIdx_iff_getElem?.mpr hn, rfl, hkind⟩
  have hconnected (id : NodeId) : (vibrato.toGraph (α := Float)).1.isConnected id "baseFrequency" =
      vibrato.connections.any fun c => c.target == id && c.input == "baseFrequency" := by
    rw [Graph.isConnected, Graph.connectionsInto, hconnections, List.any_filter]
  obtain ⟨tone, htone, htoneId, htoneKind⟩ := hplace 2 "tone" (by rw [hkinds]; rfl)
  obtain ⟨depth, hdepth, hdepthId, hdepthKind⟩ := hplace 0 "depth" (by rw [hkinds]; rfl)
  obtain ⟨role, p, hdial, honce⟩ := hassigned tone 2 htone Kind.baseFrequency
    (by rw [htoneKind]; decide) "baseFreq" rfl
  obtain ⟨role', p', hdial', honce'⟩ := hassigned depth 0 hdepth Kind.baseFrequency
    (by rw [hdepthKind]; decide) "baseFreq" rfl
  rw [htoneKind] at hdial
  rw [hdepthKind] at hdial'
  cases hdial
  cases hdial'
  refine ⟨hclean, program, hprogram, (honce.driven ?_).1, _, (honce'.inline ?_).1⟩
  · rw [htoneId]
    exact (hconnected _).trans (by decide)
  · rw [hdepthId]
    exact (hconnected _).trans (by decide)

end Patchbay
