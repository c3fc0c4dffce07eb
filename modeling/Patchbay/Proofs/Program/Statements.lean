import Patchbay.Proofs.Program.Running
/-!
# Statements one by one

What a stretch of a program adds to a stage (`Work`), and what each form of statement that blocks
are made of adds. A block is then run by taking its statements in order (`Does.cons`).
-/

namespace Patchbay.Script

open Program

variable {α : Type}

/-! ## Work -/

/-- What a stretch of a program adds: the names it declares, the newest first, the sources and lists
that it adds, the primitives that it makes, and its profiles and voices. -/
structure Work (α : Type) where
  vars : List (String × Value α)
  sources : List (Value α)
  lists : List (List (Value α))
  made : List (Primitive α)
  profiles : List (Profile α)
  bindings : List (Key × Voice)

namespace Work

@[simp]
def none : Work α := ⟨[], [], [], [], [], []⟩

@[simp]
def declare (w : Work α) (x : String) (v : Value α) : Work α := { w with vars := (x, v) :: w.vars }

@[simp]
def create [Scalar α] (w : Work α) (setup : Setup α) : Work α :=
  { w with made := w.made ++ [.new setup] }

/-- Changes one of the primitives that were made. -/
@[simp]
def change (w : Work α) (i : Nat) (f : Primitive α → Primitive α) : Work α :=
  { w with made := w.made.modify i f }

@[simp]
def connect (w : Work α) (i : Nat) (inlet : Inlet) : Work α :=
  w.change i fun p => { p with outputs := p.outputs ++ [inlet] }

@[simp]
def setBase [Scalar α] (w : Work α) (i : Nat) (param : Param) (v : α) : Work α :=
  w.change i (·.mapTimeline param fun _ => .starting v)

@[simp]
def fit (w : Work α) (i : Nat) (setup : Setup α) : Work α :=
  w.change i fun p => { p with setup }

@[simp]
def addSource (w : Work α) (v : Value α) : Work α := { w with sources := w.sources ++ [v] }

@[simp]
def allot (w : Work α) : Work α := { w with lists := w.lists ++ [[]] }

@[simp]
def push (w : Work α) (j : Nat) (v : Value α) : Work α :=
  { w with lists := w.lists.modify j (· ++ [v]) }

@[simp]
def register (w : Work α) (profile : Profile α) : Work α :=
  { w with profiles := w.profiles ++ [profile] }

@[simp]
def bind (w : Work α) (key : Key) (voice : Voice) : Work α :=
  { w with bindings := w.bindings ++ [(key, voice)] }

end Work

/-- A scope with further names. -/
def declared (scope : String → Option (Value α)) (vars : List (String × Value α)) :
    String → Option (Value α) :=
  vars.foldr (fun (x, v) scope => Function.update scope x (some v)) scope

@[simp]
theorem declared_nil (scope : String → Option (Value α)) : declared scope [] = scope := rfl

@[simp]
theorem declared_cons (scope : String → Option (Value α)) (x : String) (v : Value α)
    (vars : List (String × Value α)) :
    declared scope ((x, v) :: vars) = Function.update (declared scope vars) x (some v) := rfl

/-- Further names leave those that are not among them. -/
theorem declared_of_notMem {scope : String → Option (Value α)} {vars : List (String × Value α)}
    {x : String} (h : ∀ var ∈ vars, var.1 ≠ x) : declared scope vars x = scope x := by
  induction vars with
  | nil => rfl
  | cons var vars ih =>
    obtain ⟨hvar, hvars⟩ := List.forall_mem_cons.mp h
    rw [declared_cons, Function.update_of_ne hvar.symm, ih hvars]

namespace Stage

/-- The number of primitives. -/
def size (s : Stage α) : Nat := s.rack.primitives.size

/-- A stage with what was added to it. The list of the sources is the first of all lists. -/
def after (s : Stage α) (w : Work α) : Stage α where
  scope := declared s.scope w.vars
  lists := s.lists.modify 0 (· ++ w.sources) ++ w.lists
  rack := { s.rack with primitives := s.rack.primitives ++ w.made.toArray }
  voicing := ⟨s.voicing.profiles ++ w.profiles, s.voicing.bindings ++ w.bindings⟩

@[simp]
theorem scope_after (s : Stage α) (w : Work α) : (s.after w).scope = declared s.scope w.vars := rfl

theorem after_none (s : Stage α) : s.after .none = s := by
  have hlists : s.lists.modify 0 (· ++ []) ++ [] = s.lists := by
    rw [List.append_nil]
    refine (congrArg (s.lists.modify 0) (funext fun l => l.append_nil)).trans ?_
    exact List.modify_id 0 s.lists
  unfold after
  rw [show s.lists.modify 0 (· ++ Work.none.sources) ++ Work.none.lists = s.lists from hlists]
  simp [Work.none, declared]

variable {base : Stage α} {w : Work α}

theorem families_after (base : Stage α) (w : Work α) :
    (base.after w).rack.families = base.rack.families ++ w.made.map (·.family) :=
  base.rack.families_append w.made

theorem size_after (base : Stage α) (w : Work α) :
    (base.after w).size = base.size + w.made.length := by
  simp [after, size]

theorem primitive?_after (i : Nat) :
    (base.after w).rack.primitive? (base.size + i) = w.made[i]? := by
  show (base.rack.primitives ++ w.made.toArray)[base.rack.primitives.size + i]? = _
  rw [Array.getElem?_append_right (Nat.le_add_right _ _), Nat.add_sub_cancel_left,
    List.getElem?_toArray]

/-- A change of one of the primitives that were made. -/
theorem update_after (i : Nat) (f : Primitive α → Primitive α) :
    { base.after w with rack := (base.after w).rack.update (base.size + i) f } =
      base.after (w.change i f) := by
  have hmodify : (base.rack.primitives ++ w.made.toArray).modify (base.size + i) f =
      base.rack.primitives ++ (w.made.modify i f).toArray := by
    refine Array.ext_getElem? fun k => ?_
    simp only [Array.getElem?_modify, Array.getElem?_append, List.getElem?_toArray,
      List.getElem?_modify, size]
    grind
  exact congrArg (fun primitives => { base.after w with rack := { base.rack with primitives } })
    hmodify

/-- A new primitive comes after those that were made. -/
theorem add_after [Scalar α] (setup : Setup α) :
    { base.after w with rack := (base.after w).rack.add setup } = base.after (w.create setup) := by
  have hpush : (base.rack.primitives ++ w.made.toArray).push (Primitive.new setup) =
      base.rack.primitives ++ (w.made ++ [Primitive.new setup]).toArray := by
    rw [← Array.toList_inj]
    simp
  exact congrArg (fun primitives => { base.after w with rack := { base.rack with primitives } })
    hpush

/-- A list that was added. -/
theorem lists_after (j : Nat) : (base.after w).lists[base.lists.length + j]? = w.lists[j]? := by
  simp [after, List.getElem?_append_right]

theorem register_after (profile : Profile α) :
    { base.after w with voicing := (base.after w).voicing.register profile } =
      base.after (w.register profile) := by
  simp [after, Voicing.register, Work.register]

theorem profiles_after : (base.after w).voicing.profiles.length =
    base.voicing.profiles.length + w.profiles.length :=
  List.length_append

theorem bind_after (key : Key) (voice : Voice) :
    { base.after w with voicing := (base.after w).voicing.bind key voice } =
      base.after (w.bind key voice) := by
  simp [after, Voicing.bind, Work.bind]

theorem declare_after {x : String} (hx : (base.after w).scope x = none) (v : Value α) :
    (base.after w).declare x v = some (base.after (w.declare x v)) := by
  unfold declare
  rw [hx]
  rfl

end Stage

/-! ## Expressions -/

variable [Scalar α] {page : Page α} {s base : Stage α} {w w' w'' : Work α}

/-- The value of an expression that changes nothing. -/
def Means (page : Page α) (s : Stage α) (e : Expr α) (v : Value α) : Prop :=
  eval page e s = some (v, s)

namespace Means

theorem name {x : String} {v : Value α} (h : s.scope x = some v) : Means page s (.name x) v := by
  show (s.scope x).map (·, s) = _
  rw [h]
  rfl

/-- A name of one of the objects that were made. -/
theorem object (i : Nat) {x : String}
    (h : (base.after w).scope x = some (.object (base.size + i))) :
    Means page (base.after w) (.name x) (.object (base.size + i)) :=
  name h

theorem number (x : α) : Means page s (.number x) (.number x) := rfl

theorem text (t : String) : Means page s (.text t) (.text t) := rfl

theorem bool (b : Bool) : Means page s (.bool b) (.bool b) := rfl

theorem member {e : Expr α} {v v' : Value α} {field : String} (h : Means page s e v)
    (hfield : s.member? page v field = some v') : Means page s (.member e field) v' := by
  unfold Means at h
  show (eval page e s).bind _ = _
  rw [h]
  show (s.member? page v field).map (·, s) = _
  rw [hfield]
  rfl

theorem times {a b : Expr α} {x y : α} (ha : Means page s a (.number x))
    (hb : Means page s b (.number y)) : Means page s (.times a b) (.number (x * y)) := by
  unfold Means at ha hb
  show (eval page a s).bind _ = _
  rw [ha]
  show (eval page b s).bind _ = _
  rw [hb]
  rfl

theorem param {e : Expr α} {i : Nat} {p : Primitive α} {field : String} {param : Param}
    (h : Means page (base.after w) e (.object (base.size + i))) (hp : w.made[i]? = some p)
    (hparam : p.family.param? field = some param) :
    Means page (base.after w) (.member e field) (.param ⟨base.size + i, param⟩) := by
  have hfamily : (base.after w).rack.families[base.size + i]? = some p.family := by
    rw [Stage.families_after, List.getElem?_append_right] <;> simp [Rack.families, Stage.size, hp]
  refine h.member ?_
  simp [Stage.member?, hfamily, hparam]

theorem send {object : Expr α} {receiver v : Value α} {method : String} {s' : Stage α}
    {arguments : List (Expr α)} {values : List (Value α)} (h : Means page s object receiver)
    (harguments : evalAll page arguments s = some (values, s))
    (hsend : s.send page receiver method values = some (v, s')) :
    eval page (.send object method arguments) s = some (v, s') := by
  unfold Means at h
  show (eval page object s).bind _ = _
  rw [h]
  show (evalAll page arguments s).bind _ = _
  rw [harguments]
  exact hsend

end Means

theorem evalAll_nil : evalAll page [] s = some ([], s) := rfl

/-- The first expression may change the stage of the others. -/
theorem evalAll_of_eval {s' s'' : Stage α} {e : Expr α} {v : Value α} {l : List (Expr α)}
    {values : List (Value α)} (h : eval page e s = some (v, s'))
    (hl : evalAll page l s' = some (values, s'')) :
    evalAll page (e :: l) s = some (v :: values, s'') := by
  show (eval page e s).bind _ = _
  rw [h]
  show (evalAll page l s').bind _ = _
  rw [hl]
  rfl

theorem evalAll_cons {e : Expr α} {v : Value α} {l : List (Expr α)} {values : List (Value α)}
    (h : Means page s e v) (hl : evalAll page l s = some (values, s)) :
    evalAll page (e :: l) s = some (v :: values, s) :=
  evalAll_of_eval h hl

theorem evalAll_singleton {e : Expr α} {v : Value α} (h : Means page s e v) :
    evalAll page [e] s = some ([v], s) :=
  evalAll_cons h evalAll_nil

theorem eval_apply {s' : Stage α} (function : String) {arguments : List (Expr α)}
    {values : List (Value α)} (h : evalAll page arguments s = some (values, s')) :
    eval page (.apply function arguments) s = s'.call function values := by
  show (evalAll page arguments s).bind _ = _
  rw [h]
  rfl

theorem Means.construct {type : String} {arguments : List (Expr α)} {values : List (Value α)}
    {v : Value α} (h : evalAll page arguments s = some (values, s))
    (hv : constructed? type values = some v) : Means page s (.construct type arguments) v := by
  show (evalAll page arguments s).bind _ = _
  rw [h]
  show (constructed? type values).map (·, s) = _
  rw [hv]
  rfl

/-- A list with items. -/
theorem Means.items {l : List (Expr α)} {values : List (Value α)} (hne : l ≠ [])
    (h : evalAll page l s = some (values, s)) : Means page s (.list l) (.items values) := by
  unfold Means
  cases l with
  | nil => exact absurd rfl hne
  | cons e l =>
    show (evalAll page (e :: l) s).bind _ = _
    rw [h]
    rfl

theorem Means.record {fields : List (String × Expr α)} {values : List (String × Value α)}
    (h : evalFields page fields s = some (values, s)) :
    Means page s (.record fields) (.record values) := by
  show (evalFields page fields s).bind _ = _
  rw [h]
  rfl

/-! ## Statements -/

/-- On top of some work, statements do more. -/
def Does (page : Page α) (base : Stage α) (w : Work α) (l : List (Stmt α)) (w' : Work α) : Prop :=
  execAll page l (base.after w) = some (base.after w')

namespace Does

theorem nil : Does page base w [] w := execAll_nil page (base.after w)

theorem cons {statement : Stmt α} {l : List (Stmt α)}
    (h : exec page statement (base.after w) = some (base.after w')) (h' : Does page base w' l w'') :
    Does page base w (statement :: l) w'' := by
  unfold Does
  rw [execAll_cons h]
  exact h'

theorem append {l l' : List (Stmt α)} (h : Does page base w l w') (h' : Does page base w' l' w'') :
    Does page base w (l ++ l') w'' := by
  unfold Does at h h' ⊢
  rw [execAll_append, h]
  exact h'

/-- Statements that add to a stage. -/
theorem exec_none {l : List (Stmt α)} (h : Does page base .none l w) :
    execAll page l base = some (base.after w) := by
  unfold Does at h
  rwa [Stage.after_none] at h

end Does

theorem exec_declare {s' : Stage α} (x : String) {e : Expr α} {v : Value α}
    (h : eval page e s = some (v, s')) : exec page (.const x e) s = s'.declare x v := by
  show (eval page e s).bind _ = _
  rw [h]
  rfl

theorem exec_const {x : String} {e : Expr α} {v : Value α}
    (h : eval page e (base.after w) = some (v, base.after w'))
    (hx : (base.after w').scope x = none) :
    exec page (.const x e) (base.after w) = some (base.after (w'.declare x v)) :=
  (exec_declare x h).trans (Stage.declare_after hx v)

theorem eval_make {method : String} {arguments : List (Expr α)} {values : List (Value α)}
    {setup : Setup α} (hctx : (base.after w).scope "ctx" = some .context)
    (harguments : evalAll page arguments (base.after w) = some (values, base.after w))
    (hfew : values.length ≤ 1) (hmade : made? method values = some setup) :
    eval page (ctxMake method arguments) (base.after w) =
      some (.object (base.size + w.made.length), base.after (w.create setup)) := by
  refine (Means.name hctx).send harguments ?_
  rw [← Stage.size_after, ← Stage.add_after]
  match values, hfew with
  | [], _ => simp [Stage.send, hmade, Stage.size]
  | [v], _ => simp [Stage.send, hmade, Stage.size]

/-- An audio object that a method without arguments makes. -/
theorem exec_make {x method : String} {setup : Setup α}
    (hctx : (base.after w).scope "ctx" = some .context) (hx : (base.after w).scope x = none)
    (hmade : made? method [] = some setup) :
    exec page (.const x (ctxMake method [])) (base.after w) =
      some (base.after ((w.create setup).declare x (.object (base.size + w.made.length)))) :=
  exec_const (eval_make hctx evalAll_nil (Nat.zero_le _) hmade) hx

theorem exec_assign {object e : Expr α} {field : String} {target v : Value α} {s' : Stage α}
    (hobject : Means page s object target) (he : Means page s e v)
    (hassign : s.assign target field v = some s') :
    exec page (.set (.member object field) e) s = some s' := by
  unfold Means at hobject he
  show (eval page object s).bind _ = _
  rw [hobject]
  show (eval page e s).bind _ = _
  rw [he]
  exact hassign

theorem exec_setValue {e e' : Expr α} {i : Nat} {param : Param} {x : α}
    (hparam : Means page (base.after w) e (.param ⟨base.size + i, param⟩))
    (hx : Means page (base.after w) e' (.number x)) :
    exec page (.setValue e e') (base.after w) = some (base.after (w.setBase i param x)) := by
  refine exec_assign hparam hx ?_
  show some { base.after w with rack := (base.after w).rack.setBase ⟨base.size + i, param⟩ x } = _
  exact congrArg some (Stage.update_after i _)

/-- A fixed setting of an audio object. -/
theorem exec_fit {e e' : Expr α} {i : Nat} {field : String} {p : Primitive α} (setup : Setup α)
    {v : Value α} (hobject : Means page (base.after w) e (.object (base.size + i)))
    (hv : Means page (base.after w) e' v) (hp : w.made[i]? = some p)
    (hsetup : assigned? field p.setup v = some setup) :
    exec page (.set (.member e field) e') (base.after w) = some (base.after (w.fit i setup)) := by
  refine exec_assign hobject hv ?_
  rw [Work.fit, ← Stage.update_after]
  simp [Stage.assign, Stage.primitive?_after, hp, hsetup]

theorem exec_run {e : Expr α} {v : Value α} {s' : Stage α} (h : eval page e s = some (v, s')) :
    exec page (.run e) s = some s' := by
  show (eval page e s).map (·.2) = _
  rw [h]
  rfl

theorem exec_patch {e e' : Expr α} {id : PrimitiveId} {v : Value α} {inlet : Inlet}
    (hobject : Means page s e (.object id)) (hv : Means page s e' v)
    (hinlet : v.inlet? = some inlet) :
    exec page (connect e e') s = some { s with rack := s.rack.connect id inlet } := by
  refine exec_run (v := .nothing) (hobject.send (evalAll_singleton hv) ?_)
  simp [Stage.send, hinlet]

/-- An audio object patched into another, or into a parameter. -/
theorem exec_connect {e e' : Expr α} {i : Nat} {v : Value α} {inlet : Inlet}
    (hobject : Means page (base.after w) e (.object (base.size + i)))
    (hv : Means page (base.after w) e' v) (hinlet : v.inlet? = some inlet) :
    exec page (connect e e') (base.after w) = some (base.after (w.connect i inlet)) := by
  rw [exec_patch hobject hv hinlet]
  exact congrArg some (Stage.update_after i _)

/-- An audio object among the sources, when these are the first list. -/
theorem exec_addSource {e : Expr α} {i : Nat}
    (hsources : (base.after w).scope "sources" = some (.list 0)) (hlists : base.lists ≠ [])
    (he : Means page (base.after w) e (.object (base.size + i))) :
    exec page (addSource e) (base.after w) =
      some (base.after (w.addSource (.object (base.size + i)))) := by
  refine exec_run (v := .nothing) ((Means.name hsources).send (evalAll_singleton he) ?_)
  obtain ⟨sources, lists, hlists⟩ := List.exists_cons_of_ne_nil hlists
  simp [Stage.send, Stage.after, Work.addSource, hlists]

/-- A list that begins empty. -/
theorem exec_list {x : String} (hx : (base.after w).scope x = none) :
    exec page (.const x (.list [])) (base.after w) =
      some (base.after (w.allot.declare x (.list (base.lists.length + w.lists.length)))) := by
  refine exec_const ?_ hx
  show some (Value.list (base.after w).lists.length,
    { base.after w with lists := (base.after w).lists ++ [[]] }) = _
  simp [Stage.after, Work.allot]

theorem exec_push {list e : Expr α} {j : Nat} {v : Value α}
    (hlist : Means page (base.after w) list (.list (base.lists.length + j)))
    (he : Means page (base.after w) e v) :
    exec page (.run (.send list "push" [e])) (base.after w) = some (base.after (w.push j v)) := by
  refine exec_run (v := .nothing) (hlist.send (evalAll_singleton he) ?_)
  have hmodify : ∀ l l' : List (List (Value α)), (l ++ l').modify (l.length + j) (· ++ [v]) =
      l ++ l'.modify j (· ++ [v]) := by
    intro l l'
    refine List.ext_getElem? fun k => ?_
    simp only [List.getElem?_modify, List.getElem?_append]
    grind
  have := hmodify (base.lists.modify 0 (· ++ w.sources)) w.lists
  rw [List.length_modify] at this
  simp [Stage.send, Stage.after, Work.push, this]

theorem evalFields_numbers (fields : List (String × α)) :
    evalFields page (fields.map fun (name, x) => (name, .number x)) s =
      some (fields.map fun (name, x) => (name, .number x), s) := by
  induction fields with
  | nil => rfl
  | cons field fields ih =>
    show (evalFields page (fields.map fun field => (field.1, .number field.2)) s).bind _ = _
    rw [ih]
    rfl

omit [Scalar α] in
theorem profileOf?_toList (p : Profile α) :
    profileOf? ((Profile.names.zip p.toList).map fun (name, x) => (name, .number x)) = some p := by
  simp [profileOf?, Profile.names, Profile.toList, numbers?]

/-- A profile that is registered. -/
theorem eval_addProfile (hf : (base.after w).scope "addProfile" = some .function) (p : Profile α) :
    eval page (.apply "addProfile" [profileRecord p]) (base.after w) =
      some (.profile (base.voicing.profiles.length + w.profiles.length),
        base.after (w.register p)) := by
  have hrecord : Means page (base.after w) (profileRecord p) (.record
      ((Profile.names.zip p.toList).map fun (name, x) => (name, .number x))) :=
    .record (evalFields_numbers _)
  rw [eval_apply _ (evalAll_singleton hrecord), ← Stage.register_after, ← Stage.profiles_after]
  simp only [Stage.call, hf, profileOf?_toList, Option.map_some, if_true]

/-- A voice that is bound. -/
theorem exec_addVoice {code gain profile : Expr α} {name : String} {key : Key} {dial : Dial}
    {index : Nat} (hf : (base.after w').scope "addVoice" = some .function)
    (hcode : Means page (base.after w) code (.text name)) (hkey : Key.ofCode? name = some key)
    (hgain : Means page (base.after w) gain (.param dial))
    (hprofile : eval page profile (base.after w) = some (.profile index, base.after w')) :
    exec page (.run (.apply "addVoice" [code, gain, profile])) (base.after w) =
      some (base.after (w'.bind key ⟨dial, index⟩)) := by
  have harguments : evalAll page [code, gain, profile] (base.after w) =
      some ([.text name, .param dial, .profile index], base.after w') :=
    evalAll_of_eval hcode (evalAll_of_eval hgain (evalAll_of_eval hprofile evalAll_nil))
  refine exec_run (v := .nothing) ?_
  rw [eval_apply _ harguments, ← Stage.bind_after]
  simp only [Stage.call, hf, hkey, Option.map_some, if_true]

/-- A generator of noise that fills a buffer. -/
theorem exec_fill {color : Noise.Color} {e : Expr α}
    (hf : s.scope (noiseFunction color) = some .function) (he : Means page s e .samples) :
    exec page (.run (.apply (noiseFunction color) [e])) s = some s := by
  have hcolor : noiseFunction color ∈ Noise.Color.all.map noiseFunction :=
    List.mem_map_of_mem (by cases color <;> decide)
  refine exec_run (v := .nothing) ?_
  rw [eval_apply _ (evalAll_singleton he)]
  simp only [Stage.call, hf, hcolor, if_true]

/-- A loop over objects whose body does the same with each of them on the rack. -/
theorem exec_forObjects {x : String} {source : Expr α} {v : Value α} {braced : Bool}
    {body : List (Stmt α)} {ids : List PrimitiveId} {act : Rack α → PrimitiveId → Rack α}
    (hsource : Means page s source v) (hitems : s.itemsOf? v = some (ids.map .object))
    (hx : s.scope x = none) (hact : ∀ rack id, (act rack id).families = rack.families)
    (hbody : ∀ inner : Stage α, ∀ id ∈ ids,
      inner.scope = Function.update s.scope x (some (.object id)) →
      inner.rack.families = s.rack.families →
      execAll page body inner = some { inner with rack := act inner.rack id }) :
    exec page (.forItems [x] source braced body) s =
      some { s with rack := ids.foldl act s.rack } := by
  -- the induction is on the objects; the body sees families that no earlier round has changed
  have hloop : ∀ rack : Rack α, rack.families = s.rack.families →
      (ids.map (Value.object (α := α))).foldlM (fun s item => do
        let inner ← s.declareAll (← itemBindings? [x] item)
        let inner ← execAll page body inner
        return { inner with scope := s.scope }) { s with rack } =
        some { s with rack := ids.foldl act rack } := by
    clear hitems
    induction ids with
    | nil => exact fun _ _ => rfl
    | cons id ids ih =>
      intro rack hrack
      have hinner : ({ s with rack } : Stage α).declareAll [(x, .object id)] =
          some { s with scope := Function.update s.scope x (some (.object id)), rack } := by
        simp [Stage.declareAll, Stage.declare, hx]
      rw [List.map_cons, List.foldlM_cons]
      simp only [itemBindings?, hinner, Option.bind_eq_bind, Option.bind_some, Option.pure_def]
      rw [hbody _ id List.mem_cons_self rfl hrack]
      exact ih (fun inner other hother => hbody inner other (List.mem_cons_of_mem _ hother))
        _ ((hact rack id).trans hrack)
  unfold Means at hsource
  show (eval page source s).bind _ = _
  rw [hsource]
  show (s.itemsOf? v).bind _ = _
  rw [hitems]
  exact hloop s.rack rfl

end Patchbay.Script
