import Patchbay.Proofs.Program.Blocks
import Patchbay.Proofs.Program.Parts
import Patchbay.Proofs.Program.Scoped
/-!
# Buffers of programs

The calls of a method in the statements of a program, in whatever part of a statement they stand
(`sentIn`). A program makes a buffer for every noise node of its graph, and asks for each of them
with the same arguments (`sentIn_createBuffer`), the second of which is the rounded product of the
seconds and the rate of the page (`evalAll_bufferArguments`).
-/

namespace Patchbay

open Script

namespace Script

variable {α : Type} {method : String}

/-! ## Calls of a method -/

def Expr.method? : Expr α → Option String
  | .member _ method => some method
  | _ => none

mutual

/-- The arguments of the calls of a method in an expression. -/
@[simp]
def Expr.sent (method : String) : Expr α → List (List (Expr α))
  | .number _ | .name _ | .text _ | .bool _ | .bundle _ => []
  | .member e _ | .negated e | .paren e => e.sent method
  | .item e e' | .binary _ e e' => e.sent method ++ e'.sent method
  | .call e arguments => (if e.method? = some method then [arguments] else []) ++
      (e.sent method ++ sentOf method arguments)
  | .construct _ arguments | .list arguments => sentOf method arguments
  | .record fields => sentOfRecord method fields

@[simp]
def sentOf (method : String) : List (Expr α) → List (List (Expr α))
  | [] => []
  | e :: rest => e.sent method ++ sentOf method rest

@[simp]
def sentOfRecord (method : String) : List (String × Expr α) → List (List (Expr α))
  | [] => []
  | (_, e) :: rest => e.sent method ++ sentOfRecord method rest

end

/-- The arguments of the calls of a method in statements. -/
def sentIn (method : String) (l : List (Stmt α)) : List (List (Expr α)) :=
  (within l).flatMap fun s => s.exprs.flatMap (Expr.sent method)

/-- The bodies of statements come behind all statements, so that only the order differs. -/
theorem within_append_perm (l l' : List (Stmt α)) :
    (within (l ++ l')).Perm (within l ++ within l') := by
  simp only [within, bodiesIn_append, List.flatten_append, List.append_assoc]
  refine List.Perm.append_left l ?_
  simp only [← List.append_assoc]
  exact List.Perm.append_right _ List.perm_append_comm

theorem sentIn_append_perm (method : String) (l l' : List (Stmt α)) :
    (sentIn method (l ++ l')).Perm (sentIn method l ++ sentIn method l') := by
  unfold sentIn
  rw [← List.flatMap_append]
  exact (within_append_perm l l').flatMap_right _

section

variable {arguments : List (Expr α)} {l l' : List (Stmt α)}

/-- Where all calls have the same arguments, only their number counts. -/
theorem sentIn_append {k k' : Nat} (h : sentIn method l = .replicate k arguments)
    (h' : sentIn method l' = .replicate k' arguments) :
    sentIn method (l ++ l') = .replicate (k + k') arguments := by
  have hperm := sentIn_append_perm method l l'
  rw [h, h', List.replicate_append_replicate] at hperm
  exact List.perm_replicate.mp hperm

/-- Statements without calls change nothing, neither behind others nor before them. -/
theorem sentIn_append_silent {k : Nat} (h : sentIn method l = .replicate k arguments)
    (h' : sentIn method l' = []) : sentIn method (l ++ l') = .replicate k arguments := by
  have h' : sentIn method l' = .replicate 0 arguments := h'
  exact sentIn_append h h'

theorem sentIn_silent_append {k : Nat} (h : sentIn method l = [])
    (h' : sentIn method l' = .replicate k arguments) :
    sentIn method (l ++ l') = .replicate k arguments := by
  have h : sentIn method l = .replicate 0 arguments := h
  rw [sentIn_append h h', Nat.zero_add]

theorem sentIn_append_nil (h : sentIn method l = []) (h' : sentIn method l' = []) :
    sentIn method (l ++ l') = [] := by
  have hperm := sentIn_append_perm method l l'
  rw [h, h'] at hperm
  exact hperm.eq_nil

theorem sentIn_eq_nil (h : ∀ s ∈ l, sentIn method [s] = []) : sentIn method l = [] := by
  induction l with
  | nil => rfl
  | cons s l ih =>
    obtain ⟨hs, hl⟩ := List.forall_mem_cons.mp h
    exact sentIn_append_nil hs (ih hl)

theorem sentIn_flatten_nil {l : Paragraphs α} (h : ∀ p ∈ l, sentIn method p = []) :
    sentIn method l.flatten = [] := by
  induction l with
  | nil => rfl
  | cons p l ih =>
    obtain ⟨hp, hl⟩ := List.forall_mem_cons.mp h
    exact sentIn_append_nil hp (ih hl)

end

end Script

namespace Program

variable {α : Type} [Scalar α] {name method : String} {seconds : α} {panel : Panel α}

/-! ## Blocks -/

/-- The arguments with which a program asks for a buffer: one channel, the length and the rate. -/
def bufferArguments (seconds : α) : List (Expr α) :=
  [.number 1.0, .send (.name "Math") "round"
    [.times (.number seconds) (.member (.name "ctx") "sampleRate")],
    .member (.name "ctx") "sampleRate"]

omit [Scalar α] in
theorem sent_profileRecord (p : Profile α) (method : String) : (profileRecord p).sent method = [] :=
  rfl

/-- The block of a noise node makes a buffer, and no other block does. -/
theorem sentIn_nodeBlock : sentIn "createBuffer" (nodeBlock name seconds panel).statements =
    .replicate (if panel.kind = .noise then 1 else 0) (bufferArguments seconds) := by
  obtain ⟨kind, values⟩ := panel
  cases kind <;>
    simp [sentIn, nodeBlock, within, ctxMake, connect, addSource, compressorParams,
      sent_profileRecord, Stmt.setValue, Stmt.set, Expr.send, Expr.apply, Expr.times, Expr.method?,
      bufferArguments]

theorem sentIn_inlineValues (g : Graph α) (n : Node α) (method : String) :
    sentIn method (inlineValues g n (nodeBlock name seconds n.panel)) = [] := by
  refine sentIn_eq_nil fun s hs => ?_
  rw [inlineValues_eq, List.mem_filterMap] at hs
  obtain ⟨socket, -, hs⟩ := hs
  obtain ⟨control, path, combine, -, hwire, rfl⟩ := exists_of_inlineValue? hs
  obtain ⟨role, param, rfl⟩ := exists_of_wire? hwire
  rfl

theorem sentIn_blockOf (g : Graph α) (seconds : α) (n : Node α) (place : Nat) :
    sentIn "createBuffer" (blockOf g seconds n place).statements =
      .replicate (if n.kind = .noise then 1 else 0) (bufferArguments seconds) := by
  have hheading : sentIn "createBuffer" [heading n] = [] := rfl
  exact sentIn_append_silent (sentIn_silent_append hheading sentIn_nodeBlock)
    (sentIn_inlineValues g n "createBuffer")

/-! ## Whole programs -/

theorem sentIn_blocks (g : Graph α) (seconds : α) (l : List (Node α × Nat)) :
    sentIn "createBuffer"
        (l.map fun entry => (blockOf g seconds entry.1 entry.2).statements).flatten =
      .replicate (l.countP (·.1.kind = .noise)) (bufferArguments seconds) := by
  induction l with
  | nil => rfl
  | cons entry l ih =>
    rw [List.map_cons, List.flatten_cons, List.countP_cons, Nat.add_comm]
    simpa only [decide_eq_true_eq] using sentIn_append (sentIn_blockOf g seconds _ _) ih

omit [Scalar α] in
theorem sentIn_link {source : Expr α} {wire : Wire α} {own : List String}
    (hsource : source.sent method = []) (hwire : wire.Into own) {s : Stmt α}
    (hs : s ∈ link source wire) (hmethod : method ≠ "connect") : sentIn method [s] = [] := by
  cases hwire <;> simp only [link, paramWire, List.mem_singleton, List.not_mem_nil] at hs <;>
    subst hs <;> simp [sentIn, within, connect, Expr.send, Expr.method?, hsource, hmethod.symm]

theorem sentIn_wirings (g : Graph α) (options : Options α) (done l : List Connection) :
    sentIn "createBuffer" (wirings (blocks g options) done l) = [] := by
  refine sentIn_eq_nil fun s hs => ?_
  refine of_mem_wirings (P := fun s => sentIn "createBuffer" [s] = []) (fun done c s hs => ?_) hs
  obtain ⟨m, pm, n, pn, source, wire, -, -, hsource, hwire, hs⟩ := exists_of_mem_wiring hs
  rcases hs with hs | ⟨path, combine, rfl, rfl⟩
  · obtain ⟨role, -, rfl⟩ := exists_of_output? hsource
    exact sentIn_link rfl (into_of_wire? hwire) hs (by decide)
  · obtain ⟨role, param, rfl⟩ := exists_of_wire? hwire
    rfl

theorem sentIn_noteMap : sentIn method [noteMap (α := α)] = [] := by
  have hrows : ∀ l : List (Key × α), sentOf method
      (l.map fun pitch => (.list [.text pitch.1.code, .number pitch.2] : Expr α)) = [] := by
    intro l
    induction l with
    | nil => rfl
    | cons pitch l ih => simpa using ih
  simp [sentIn, noteMap, within, hrows]

theorem sentIn_keyboardHelper :
    ∀ paragraph ∈ keyboardHelper (α := α), sentIn "createBuffer" paragraph = [] := by
  simp only [keyboardHelper, List.forall_mem_cons, List.not_mem_nil, false_imp_iff, implies_true,
    and_true]
  exact ⟨rfl, rfl, rfl, rfl, rfl, rfl, rfl⟩

theorem sentIn_helpers (g : Graph α) : sentIn "createBuffer" (helpers g).flatten = [] := by
  refine sentIn_flatten_nil fun p hp => ?_
  obtain ⟨color, -, rfl⟩ | hp | ⟨-, rfl⟩ := mem_helpers hp
  · cases color <;> rfl
  · exact sentIn_keyboardHelper p hp
  · exact sentIn_noteMap

/-- A program asks for a buffer for every noise node of its graph, each time with the same
arguments. -/
theorem sentIn_createBuffer (g : Graph α) (options : Options α) :
    sentIn "createBuffer" (ofGraph g options).flatten =
      .replicate (g.nodes.countP (·.kind = .noise)) (bufferArguments options.noiseSeconds) := by
  -- of the five parts of a program only the blocks of nodes make buffers
  have hpreamble : sentIn "createBuffer" (preamble g options ++ (helpers g).flatten) = [] := by
    refine sentIn_append_nil ?_ (sentIn_helpers g)
    simp [sentIn, preamble, within, ctxMake, connect, Stmt.setValue, Stmt.set, Expr.send,
      Expr.method?]
  have hwiring : sentIn "createBuffer" (.comment "wiring" :: wirings (blocks g options) []
      g.connections) = [] :=
    sentIn_append_nil (l := [_]) rfl (sentIn_wirings g options [] g.connections)
  have hblocks : (blocks g options).map (·.2.statements) = g.nodes.zipIdx.map fun entry =>
      (blockOf g options.noiseSeconds entry.1 entry.2).statements := by
    rw [blocks, List.map_map]
    rfl
  have hepilogue : sentIn "createBuffer" (epilogue (α := α)).flatten = [] := rfl
  have hnodes := sentIn_silent_append hpreamble
    (sentIn_blocks g options.noiseSeconds g.nodes.zipIdx)
  have hcount : g.nodes.zipIdx.countP (·.1.kind = .noise) = g.nodes.countP (·.kind = .noise) := by
    conv_rhs => rw [← List.zipIdx_map_fst 0 g.nodes, List.countP_map]
    rfl
  rw [flatten_parts, hblocks, ← hcount]
  exact sentIn_append_silent (sentIn_append_silent hnodes hwiring) hepilogue

/-- What the arguments stand for where the context and the rounding are known. -/
theorem evalAll_bufferArguments {page : Page α} {s : Stage α} (seconds : α)
    (hctx : s.scope "ctx" = some .context) (hmath : s.scope "Math" = some .math) :
    evalAll page (bufferArguments seconds) s = some ([.number 1.0,
      .number (page.round (seconds * page.sampleRate)), .number page.sampleRate], s) :=
  evalAll_cons (.number 1.0) (evalAll_cons (means_bufferLength seconds hctx hmath)
    (evalAll_singleton ((Means.name hctx).member rfl)))

end Program

end Patchbay
