import Mathlib.Data.List.Sigma
import Patchbay.Proofs.Graph.Effects
import Patchbay.Proofs.Program.Prepared
/-!
# Assignments to parameters

Which parameters of audio objects the statements of a program assign to (`Script.settingsOf`), in
whatever part of a statement an assignment stands.

A socket with an inline value stands for one parameter of an object of its node (`Kind.dial?`), and
no two sockets of a graph stand for the same (`dial_inj`). Before the wiring only the inline values
assign to these parameters (`settingsOf_nodeBlock`), and only those of sockets into which nothing is
connected (`settingsOf_inlineValues`).
-/

namespace Patchbay

open Script

/-- The parameter that a socket with an inline value stands for, with the role that its object has
in the block of the node. -/
def Kind.dial? : Kind → String → Option (String × Param)
  | .oscillator, "baseFrequency" => some ("osc", .frequency)
  | .gain, "gain" => some ("gain", .gain)
  | .biquadFilter, "frequency" => some ("filter", .frequency)
  | .biquadFilter, "q" => some ("filter", .q)
  | .biquadFilter, "gain" => some ("filter", .gain)
  | .delay, "delayTime" => some ("delay", .delayTime)
  | _, _ => none

/-- Different sockets of a node stand for different parameters, even as they are written. -/
theorem Kind.dial?_inj {k : Kind} {s s' : Socket} (hs : s ∈ k.inputs) (hs' : s' ∈ k.inputs)
    {dial dial' : String × Param} (hdial : k.dial? s.name = some dial)
    (hdial' : k.dial? s'.name = some dial')
    (hsame : dial.1 ++ "." ++ dial.2.name = dial'.1 ++ "." ++ dial'.2.name) : s = s' := by
  have hall : ∀ s ∈ k.inputs, ∀ s' ∈ k.inputs, (k.dial? s.name).isSome →
      (k.dial? s.name).map (fun d => d.1 ++ "." ++ d.2.name) =
        (k.dial? s'.name).map (fun d => d.1 ++ "." ++ d.2.name) → s = s' := by
    cases k <;> decide
  refine hall s hs s' hs' (hdial ▸ rfl) ?_
  rw [hdial, hdial']
  exact congrArg some hsame

/-- The sockets that stand for a parameter are those with an inline value. -/
theorem Kind.isSome_dial? {k : Kind} {s : Socket} (hs : s ∈ k.inputs) :
    (k.dial? s.name).isSome = s.inline.isSome := by
  have hall : ∀ s ∈ k.inputs, (k.dial? s.name).isSome = s.inline.isSome := by
    cases k <;> decide
  exact hall s hs

theorem Kind.exists_dial? {k : Kind} {s : Socket} (hs : s ∈ k.inputs) (hinline : s.inline.isSome) :
    ∃ role param, k.dial? s.name = some (role, param) := by
  obtain ⟨dial, hdial⟩ := Option.isSome_iff_exists.mp ((Kind.isSome_dial? hs).trans hinline)
  exact ⟨dial.1, dial.2, hdial⟩

namespace Script

variable {α : Type}

/-! ## Assignments -/

mutual

/-- The assignments that stand in a statement, those in its parts included. Inside of expressions
only `??=` assigns, and that to items of records. -/
def Stmt.assignments : Stmt α → List (Stmt α)
  | .assign operator target value => [.assign operator target value]
  | .function _ _ body | .forItems _ _ _ body | .forKeys _ _ body | .forCount _ _ _ _ _ body
  | .listen _ _ body => assignmentsIn body
  | .guard _ body => body.assignments
  | .cases _ body rest last => assignmentsIn body ++ assignmentsInCases rest ++ assignmentsIn last
  | .comment _ | .const .. | .variables _ | .run _ | .result _ | .skip | .offer _ => []

def assignmentsIn : List (Stmt α) → List (Stmt α)
  | [] => []
  | s :: rest => s.assignments ++ assignmentsIn rest

def assignmentsInCases : List (Expr α × List (Stmt α)) → List (Stmt α)
  | [] => []
  | (_, body) :: rest => assignmentsIn body ++ assignmentsInCases rest

end

@[simp]
theorem assignmentsIn_append (l l' : List (Stmt α)) :
    assignmentsIn (l ++ l') = assignmentsIn l ++ assignmentsIn l' := by
  induction l with
  | nil => rfl
  | cons s l ih => rw [List.cons_append, assignmentsIn, assignmentsIn, ih, List.append_assoc]

/-- Whether a statement assigns to the value of a parameter of an object, by any operator. -/
def Stmt.tunes (object param : String) : Stmt α → Bool
  | .assign _ (.member (.member (.name x) p) field) _ =>
    x == object && p == param && field == "value"
  | _ => false

/-- The assignments in statements to the value of a parameter of an object. -/
def settingsOf (object param : String) (l : List (Stmt α)) : List (Stmt α) :=
  (assignmentsIn l).filter (·.tunes object param)

section

variable {x param : String}

@[simp]
theorem settingsOf_append (l l' : List (Stmt α)) :
    settingsOf x param (l ++ l') = settingsOf x param l ++ settingsOf x param l' := by
  rw [settingsOf, assignmentsIn_append, List.filter_append]
  rfl

theorem settingsOf_cons (s : Stmt α) (l : List (Stmt α)) :
    settingsOf x param (s :: l) = settingsOf x param [s] ++ settingsOf x param l :=
  settingsOf_append [s] l

/-- Where no part of a program assigns to a parameter, the whole does not. -/
theorem settingsOf_flatten {l : Paragraphs α} (h : ∀ p ∈ l, settingsOf x param p = []) :
    settingsOf x param l.flatten = [] := by
  induction l with
  | nil => rfl
  | cons p l ih =>
    rw [List.flatten_cons, settingsOf_append, h p List.mem_cons_self, List.nil_append]
    exact ih fun p hp => h p (List.mem_cons_of_mem _ hp)

theorem settingsOf_filterMap {ι : Type} {f : ι → Option (Stmt α)} {l : List ι}
    (h : ∀ i ∈ l, ∀ s, f i = some s → settingsOf x param [s] = []) :
    settingsOf x param (l.filterMap f) = [] := by
  induction l with
  | nil => rfl
  | cons i l ih =>
    have hrest := ih fun i hi => h i (List.mem_cons_of_mem _ hi)
    rw [List.filterMap_cons]
    split
    next => exact hrest
    next s hs => rw [settingsOf_cons, h i List.mem_cons_self s hs, hrest, List.nil_append]

theorem settingsOf_setValue (y q : String) (value : Expr α) :
    settingsOf x param [.setValue (.member (.name y) q) value] =
      if y = x ∧ q = param then [.setValue (.member (.name y) q) value] else [] := by
  by_cases h : y = x ∧ q = param
  · rw [if_pos h, h.1, h.2]
    simp [settingsOf, assignmentsIn, Stmt.assignments, Stmt.setValue, Stmt.set, Stmt.tunes]
  · rw [if_neg h]
    simpa [settingsOf, assignmentsIn, Stmt.assignments, Stmt.setValue, Stmt.set, Stmt.tunes] using h

end

end Script

namespace Program

variable {α : Type} [Scalar α] {name x param : String} {seconds : α} {panel : Panel α}

/-! ## Handles -/

/-- The roles of the variables that the block of a kind declares. -/
def roles : Kind → List String
  | .constant | .noteFrequency => ["src"]
  | .oscillator => ["osc"]
  | .noise => ["buffer", "src"]
  | .gain | .transpose => ["gain"]
  | .biquadFilter => ["filter"]
  | .delay => ["delay"]
  | .clip => ["pre", "shaper"]
  | .dynamicsCompressor => ["comp"]
  | .keyboardNote => ["out", "osc", "profile"]
  | .keyboardAdsr => ["gate"]
  | .universalOutput => ["out", "scope", "spectrum"]
  | .audioOutput | .timeVisualizer | .frequencyVisualizer | .consoleDebugger => []

/-- The outputs of a block are variables of the block. -/
theorem exists_of_output? {socket : String} {e : Expr α}
    (h : (nodeBlock name seconds panel).output? socket = some e) :
    ∃ role ∈ roles panel.kind, e = .name (name ++ "_" ++ role) := by
  obtain ⟨entry, hentry, rfl⟩ := Option.map_eq_some_iff.mp h
  have hmem := List.mem_of_find?_eq_some hentry
  obtain ⟨kind, values⟩ := panel
  cases kind <;> simp [nodeBlock] at hmem <;> simp [hmem, roles]

/-- A wire that leads to one of some variables, to parameters of it or of its items, or to the
master input. -/
inductive Wire.Into (own : List String) : Wire α → Prop where
  | master : Into own (.object (.name "master"))
  | object {x : String} (hx : x ∈ own) : Into own (.object (.name x))
  | param {x : String} (hx : x ∈ own) (p : Param) (combine : Combine) :
    Into own (paramWire (.name x) p combine)
  | each {x : String} (hx : x ∈ own) (p : Param) : Into own (.each (.name x) p.name)
  | dropped : Into own .dropped

/-- The inputs of a block lead to variables of the block. -/
theorem into_of_wire? {socket : String} {wire : Wire α}
    (h : (nodeBlock name seconds panel).wire? socket = some wire) :
    wire.Into ((roles panel.kind).map (name ++ "_" ++ ·)) := by
  obtain ⟨entry, hentry, rfl⟩ := Option.map_eq_some_iff.mp h
  have hmem : entry ∈ (nodeBlock name seconds panel).inputs := List.mem_of_find?_eq_some hentry
  have hall : ∀ entry ∈ (nodeBlock name seconds panel).inputs,
      entry.2.Into ((roles panel.kind).map (name ++ "_" ++ ·)) := by
    obtain ⟨kind, values⟩ := panel
    cases kind <;> simp only [nodeBlock, roles, List.forall_mem_cons, List.not_mem_nil,
      false_imp_iff, implies_true, and_true, List.map_cons]
    case oscillator =>
      exact ⟨.param List.mem_cons_self .frequency _, .param List.mem_cons_self .frequency _⟩
    case gain => exact ⟨.object List.mem_cons_self, .param List.mem_cons_self .gain _⟩
    case biquadFilter =>
      exact ⟨.object List.mem_cons_self, .param List.mem_cons_self .frequency _,
        .param List.mem_cons_self .q _, .param List.mem_cons_self .gain _⟩
    case delay => exact ⟨.object List.mem_cons_self, .param List.mem_cons_self .delayTime _⟩
    case keyboardNote => exact .each (List.mem_cons_of_mem _ List.mem_cons_self) .frequency
    case audioOutput => exact .master
    case timeVisualizer | frequencyVisualizer | consoleDebugger => exact .dropped
    all_goals exact .object List.mem_cons_self
  exact hall entry hmem

/-! ## The parameters of sockets -/

/-- The wires of a block into parameters lead to objects of the block. -/
theorem exists_of_wire? {socket : String} {path : Expr α} {combine : Combine}
    (h : (nodeBlock name seconds panel).wire? socket = some (.param path combine)) :
    ∃ role param, path = .member (.name (name ++ "_" ++ role)) param := by
  cases into_of_wire? h with
  | param hx p =>
    obtain ⟨role, -, rfl⟩ := List.mem_map.mp hx
    exact ⟨role, _, rfl⟩

/-- The socket of a parameter is wired to it, as its kind combines it. -/
theorem wire?_of_dial? (name : String) (seconds : α) {socket : Socket}
    (hsocket : socket ∈ panel.kind.inputs) {role : String} {p : Param}
    (hdial : panel.kind.dial? socket.name = some (role, p)) :
    (nodeBlock name seconds panel).wire? socket.name =
      some (.param (.member (.name (name ++ "_" ++ role)) p.name) socket.combine) := by
  obtain ⟨kind, values⟩ := panel
  cases kind <;> simp only [Kind.inputs, List.mem_cons, List.not_mem_nil, or_false] at hsocket
  case oscillator | gain | delay | biquadFilter =>
    rcases hsocket with rfl | rfl | rfl | rfl <;> cases hdial <;> rfl
  all_goals
    subst hsocket
    cases hdial

/-! ## Assignments in blocks -/

/-- A block assigns to parameters of its own objects, and of those that its loop declares. -/
theorem settingsOf_nodeBlock_of_apart (hx : ∀ role, name ++ "_" ++ role ≠ x) (hosc : "osc" ≠ x)
    (hgate : "gate" ≠ x) : settingsOf x param (nodeBlock name seconds panel).statements = [] := by
  obtain ⟨kind, values⟩ := panel
  cases kind <;>
    simp [nodeBlock, settingsOf, assignmentsIn, Stmt.assignments, Stmt.setValue, Stmt.set,
      Stmt.tunes, hx, hosc, hgate, addSource, connect, compressorParams]

/-- The block of a node with inline values assigns to none of its parameters. -/
theorem settingsOf_nodeBlock {socket : Socket} (hsocket : socket ∈ panel.kind.inputs)
    (hinline : socket.inline.isSome) :
    settingsOf x param (nodeBlock name seconds panel).statements = [] := by
  obtain ⟨role, p, hdial⟩ := Kind.exists_dial? hsocket hinline
  obtain ⟨kind, values⟩ := panel
  cases kind
  case oscillator | gain | biquadFilter | delay =>
    simp [nodeBlock, settingsOf, assignmentsIn, Stmt.assignments, Stmt.set, Stmt.tunes, addSource]
  all_goals cases hdial

/-! ## Inline values -/

section

variable {g : Graph α} {n : Node α}

/-- What sets the parameter of a socket to its inline value. -/
def inlineValue? (g : Graph α) (n : Node α) (block : Block α) (socket : Socket) :
    Option (Stmt α) :=
  match socket.inline, block.wire? socket.name with
  | some control, some (.param path _) =>
    if g.isConnected n.id socket.name then none
    else some (.setValue path (.number (n.panel.number control)))
  | _, _ => none

theorem inlineValues_eq (block : Block α) :
    inlineValues g n block = n.kind.inputs.filterMap (inlineValue? g n block) := rfl

theorem exists_of_inlineValue? {block : Block α} {socket : Socket} {s : Stmt α}
    (h : inlineValue? g n block socket = some s) :
    ∃ control path combine, socket.inline = some control ∧
      block.wire? socket.name = some (.param path combine) ∧
      s = .setValue path (.number (n.panel.number control)) := by
  unfold inlineValue? at h
  split at h
  next control path combine hinline hwire =>
    split at h
    · cases h
    · exact ⟨control, path, combine, hinline, hwire, (Option.some.inj h).symm⟩
  next => cases h

/-- Inline values are written for objects of the block. -/
theorem settingsOf_inlineValues_of_apart (hx : ∀ role, name ++ "_" ++ role ≠ x) :
    settingsOf x param (inlineValues g n (nodeBlock name seconds n.panel)) = [] := by
  rw [inlineValues_eq]
  refine settingsOf_filterMap fun socket _ s hs => ?_
  obtain ⟨control, path, combine, -, hwire, rfl⟩ := exists_of_inlineValue? hs
  obtain ⟨role, p, rfl⟩ := exists_of_wire? hwire
  rw [settingsOf_setValue, if_neg fun h => hx role h.1]

/-- Among the inline values of a node is one for the parameter of a socket exactly if nothing is
connected into the socket. -/
theorem settingsOf_inlineValues {socket : Socket} (hsocket : socket ∈ n.kind.inputs)
    {control : String} (hinline : socket.inline = some control) {role : String} {p : Param}
    (hdial : n.kind.dial? socket.name = some (role, p)) :
    settingsOf (name ++ "_" ++ role) p.name (inlineValues g n (nodeBlock name seconds n.panel)) =
      if g.isConnected n.id socket.name then []
      else [.setValue (.member (.name (name ++ "_" ++ role)) p.name)
        (.number (n.panel.number control))] := by
  have hwire := wire?_of_dial? name seconds hsocket hdial
  -- the other sockets of the node stand for other parameters
  have hother : ∀ socket' ∈ n.kind.inputs, socket'.name ≠ socket.name → ∀ s,
      inlineValue? g n (nodeBlock name seconds n.panel) socket' = some s →
        settingsOf (name ++ "_" ++ role) p.name [s] = [] := by
    intro socket' hsocket' hne s hs
    obtain ⟨control', path, combine, hinline', hwire', rfl⟩ := exists_of_inlineValue? hs
    obtain ⟨role', p', hdial'⟩ := Kind.exists_dial? hsocket' (Option.isSome_of_eq_some hinline')
    obtain ⟨rfl, -⟩ := Wire.param.inj
      (Option.some.inj (hwire'.symm.trans (wire?_of_dial? name seconds hsocket' hdial')))
    rw [settingsOf_setValue, if_neg]
    rintro ⟨hrole, hp⟩
    refine hne (congrArg Socket.name (Kind.dial?_inj hsocket' hsocket hdial' hdial ?_))
    rw [String.append_right_inj] at hrole
    dsimp only
    rw [hrole, hp]
  obtain ⟨before, after, hsplit, hbefore, hafter⟩ := exists_split n.kind.inputs_nodup hsocket
  have hmem : ∀ socket' ∈ before ++ socket :: after, socket' ∈ n.kind.inputs :=
    fun _ h => hsplit ▸ h
  rw [inlineValues_eq, hsplit, List.filterMap_append, settingsOf_append,
    settingsOf_filterMap fun socket' h => hother socket' (hmem _ (by simp [h])) (hbefore _ h),
    List.nil_append, List.filterMap_cons]
  have hrest : settingsOf (name ++ "_" ++ role) p.name
      (after.filterMap (inlineValue? g n (nodeBlock name seconds n.panel))) = [] :=
    settingsOf_filterMap fun socket' h => hother socket' (hmem _ (by simp [h])) (hafter _ h)
  have hvalue : inlineValue? g n (nodeBlock name seconds n.panel) socket =
      if g.isConnected n.id socket.name then none
      else some (.setValue (.member (.name (name ++ "_" ++ role)) p.name)
        (.number (n.panel.number control))) := by
    unfold inlineValue?
    rw [hinline, hwire]
  rw [hvalue]
  cases g.isConnected n.id socket.name with
  | true => exact hrest
  | false =>
    rw [if_neg Bool.false_ne_true, if_neg Bool.false_ne_true]
    dsimp only
    rw [settingsOf_cons, hrest, settingsOf_setValue, if_pos ⟨rfl, rfl⟩, List.append_nil]

end

/-! ## Before and behind the blocks -/

/-- The parts of a program one after another. -/
theorem flatten_parts (g : Graph α) (options : Options α) : (ofGraph g options).flatten =
    preamble g options ++ (helpers g).flatten ++
      ((blocks g options).map (·.2.statements)).flatten ++
      (.comment "wiring" :: wirings (blocks g options) [] g.connections) ++ epilogue.flatten := by
  simp [ofGraph]

/-- The helpers of a program are functions of colours, the paragraphs of the keyboard, and the table
of the notes. -/
theorem mem_helpers {g : Graph α} {p : List (Stmt α)} (hp : p ∈ helpers g) :
    (∃ color ∈ noiseColors g, p = [noiseHelper color]) ∨ p ∈ keyboardHelper ∨
      hasKind g .keyboardNote = true ∧ p = [noteMap] := by
  simp only [helpers, List.mem_append, List.mem_map] at hp
  obtain (⟨color, hcolor, rfl⟩ | hp) | hp := hp
  · exact .inl ⟨color, hcolor, rfl⟩
  · split at hp
    · exact .inr (.inl hp)
    · cases hp
  · split at hp
    next hkind => exact .inr (.inr ⟨hkind, List.mem_singleton.mp hp⟩)
    next => cases hp

omit [Scalar α] in
theorem settingsOf_preamble (hx : "master" ≠ x) (g : Graph α) (options : Options α) :
    settingsOf x param (preamble g options) = [] := by
  simp [preamble, settingsOf, assignmentsIn, Stmt.assignments, Stmt.setValue, Stmt.set, Stmt.tunes,
    hx, connect]

/-- The helpers of the keyboard ask for changes of parameters and assign to none. -/
theorem settingsOf_keyboardHelper :
    ∀ paragraph ∈ keyboardHelper (α := α), settingsOf x param paragraph = [] := by
  simp only [keyboardHelper, List.forall_mem_cons, List.not_mem_nil, false_imp_iff,
    implies_true, and_true]
  exact ⟨rfl, rfl, rfl, rfl, rfl, rfl, rfl⟩

theorem settingsOf_noiseHelper (color : Noise.Color) :
    settingsOf x param [noiseHelper (α := α) color] = [] := by
  cases color <;> rfl

theorem settingsOf_helpers (g : Graph α) : settingsOf x param (helpers g).flatten = [] := by
  refine settingsOf_flatten fun p hp => ?_
  obtain ⟨color, -, rfl⟩ | hp | ⟨-, rfl⟩ := mem_helpers hp
  · exact settingsOf_noiseHelper color
  · exact settingsOf_keyboardHelper p hp
  · rfl

omit [Scalar α] in
theorem settingsOf_epilogue : settingsOf x param (epilogue (α := α)).flatten = [] := rfl

section

variable {g : Graph α} {n : Node α} {place : Nat}

/-- A name that begins otherwise than the names of blocks is none of them. -/
theorem blockName_ne (place : Nat) (role : String) (hx : x.toList.head? ≠ some 'n') :
    x ≠ blockName place ++ "_" ++ role := fun heq => hx (heq ▸ head?_blockName place role)

/-- The block of a node assigns to the parameter of a socket of it only if nothing is connected into
the socket. -/
theorem settingsOf_blockOf (place : Nat) (seconds : α) {socket : Socket}
    (hsocket : socket ∈ n.kind.inputs) {control : String} (hinline : socket.inline = some control)
    {role : String} {p : Param} (hdial : n.kind.dial? socket.name = some (role, p)) :
    settingsOf (blockName place ++ "_" ++ role) p.name (blockOf g seconds n place).statements =
      if g.isConnected n.id socket.name then []
      else [.setValue (.member (.name (blockName place ++ "_" ++ role)) p.name)
        (.number (n.panel.number control))] := by
  show settingsOf _ _ (heading n :: (nodeBlock (blockName place) _ _).statements ++ _) = _
  rw [settingsOf_append, settingsOf_cons,
    settingsOf_nodeBlock hsocket (Option.isSome_of_eq_some hinline)]
  exact settingsOf_inlineValues hsocket hinline hdial

/-- The block of a node assigns to no parameter of another node. -/
theorem settingsOf_blockOf_of_ne {place' : Nat} (hplace : place' ≠ place) (role : String)
    (seconds : α) : settingsOf (blockName place ++ "_" ++ role) param
      (blockOf g seconds n place').statements = [] := by
  have hapart : ∀ r, blockName place' ++ "_" ++ r ≠ blockName place ++ "_" ++ role :=
    fun r heq => hplace (blockName_inj heq)
  show settingsOf _ _ (heading n :: (nodeBlock (blockName place') _ _).statements ++ _) = []
  rw [settingsOf_append, settingsOf_cons, settingsOf_nodeBlock_of_apart hapart
    (blockName_ne place role (by decide)) (blockName_ne place role (by decide))]
  exact settingsOf_inlineValues_of_apart hapart

/-- Among all blocks only that of a node itself assigns to its parameters. -/
theorem settingsOf_blocks (options : Options α) (hn : (n, place) ∈ g.nodes.zipIdx) (role : String) :
    settingsOf (blockName place ++ "_" ++ role) param
        ((blocks g options).map (·.2.statements)).flatten =
      settingsOf (blockName place ++ "_" ++ role) param
        (blockOf g options.noiseSeconds n place).statements := by
  have hplaces := List.nodup_zipIdx_map_snd g.nodes
  have helsewhere : ∀ l : List (Node α × Nat), (∀ entry ∈ l, entry.2 ≠ place) →
      settingsOf (blockName place ++ "_" ++ role) param (l.map fun entry =>
        (blockOf g options.noiseSeconds entry.1 entry.2).statements).flatten = [] := by
    intro l hl
    refine settingsOf_flatten fun statements hmem => ?_
    obtain ⟨entry, hentry, rfl⟩ := List.mem_map.mp hmem
    exact settingsOf_blockOf_of_ne (hl entry hentry) role _
  obtain ⟨before, after, hsplit, hbefore, hafter⟩ := exists_split hplaces hn
  have hblocks : (blocks g options).map (·.2.statements) = g.nodes.zipIdx.map fun entry =>
      (blockOf g options.noiseSeconds entry.1 entry.2).statements := by
    rw [blocks, List.map_map]
    rfl
  rw [hblocks, hsplit, List.map_append, List.map_cons, List.flatten_append, List.flatten_cons,
    settingsOf_append, settingsOf_append, helsewhere before hbefore, helsewhere after hafter,
    List.nil_append, List.append_nil]

end

end Program

end Patchbay
