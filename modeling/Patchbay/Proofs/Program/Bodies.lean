import Patchbay.Proofs.Program.Preamble
/-!
# The bodies of the keyboard's functions

A stage answers a call of `addProfile` or `addVoice` by its name (`Stage.call`). Here the bodies
that a program brings along for them are run, statement by statement, on lists that grow and tables
that are filled (`Memory`), and a call of a body is seen to do what the stage does: the list
`profiles` and the table `keyboard` keep the voicing of the stage (`Memory.Keeps`) from the
declarations on (`Memory.exists_keeps`) through every call (`Memory.Keeps.call`) and so through all
of them (`Memory.Keeps.callAll`).

The items of a list are counted in whole numbers, and so a place in it is one.
-/

namespace Patchbay.Script

open Program

variable {α : Type}

/-- Calls functions one after another, each where the one before has led. -/
def callAll {σ β : Type} (call : σ → String → List β → Option (β × σ)) :
    List (String × List β) → σ → Option (List β × σ)
  | [], s => some ([], s)
  | (function, arguments) :: rest, s => do
    let (v, s) ← call s function arguments
    let (values, s) ← callAll call rest s
    return (v :: values, s)

theorem callAll_cons {σ β : Type} {call : σ → String → List β → Option (β × σ)} {s s₁ s₂ : σ}
    {function : String} {arguments values : List β} {v : β}
    {rest : List (String × List β)} (hcall : call s function arguments = some (v, s₁))
    (hrest : callAll call rest s₁ = some (values, s₂)) :
    callAll call ((function, arguments) :: rest) s = some (v :: values, s₂) := by
  simp [callAll, hcall, hrest]

/-! ## Memory -/

/-- What the names in the body of a function stand for. -/
inductive Datum (α : Type) where
  /-- What the function is called with, or a literal. -/
  | value (v : Value α)
  | count (n : Nat)
  /-- A list, by its place in the memory. -/
  | list (place : Nat)
  /-- A table of texts, by its place in the memory. -/
  | table (place : Nat)
  | record (fields : List (String × Datum α))
  | function (parameters : List String) (body : List (Stmt α))

/-- The names declared, and the lists and tables that began empty. -/
structure Memory (α : Type) where
  scope : String → Option (Datum α)
  lists : List (List (Datum α))
  tables : List (String → Option (Datum α))

namespace Memory

/-- Lets a name stand for something. -/
def name (m : Memory α) (x : String) (d : Datum α) : Memory α :=
  { m with scope := Function.update m.scope x (some d) }

/-- Declares a name that is not declared yet. -/
def declare (m : Memory α) (x : String) (d : Datum α) : Option (Memory α) :=
  if (m.scope x).isSome then none else some (m.name x d)

/-- Names that hide those outside. -/
def enter (m : Memory α) (bindings : List (String × Datum α)) : Memory α :=
  { m with scope := fun x => (bindings.lookup x).or (m.scope x) }

/-- Adds an item at the end of a list. -/
def push (m : Memory α) (place : Nat) (d : Datum α) : Memory α :=
  { m with lists := m.lists.modify place (· ++ [d]) }

/-- Adds an empty list. -/
def allot (m : Memory α) : Memory α := { m with lists := m.lists ++ [[]] }

/-- Adds an empty table. -/
def allotTable (m : Memory α) : Memory α := { m with tables := m.tables ++ [fun _ => none] }

/-- Sets an entry of a table. -/
def put (m : Memory α) (place : Nat) (key : String) (d : Datum α) : Memory α :=
  { m with tables := m.tables.modify place (Function.update · key (some d)) }

/-- The value of a field. -/
def member? (m : Memory α) : Datum α → String → Option (Datum α)
  | .list place, field =>
    if field = "length" then m.lists[place]?.map fun items => .count items.length else none
  | _, _ => none

/-- Calls a method. -/
def send (m : Memory α) : Datum α → String → List (Datum α) → Option (Datum α × Memory α)
  | .list place, method, [d] =>
    if method = "push" then
      m.lists[place]?.map fun items => (.count (items.length + 1), m.push place d)
    else none
  | _, _, _ => none

/-- The table that an entry is in, its key, and the entry if it is set. -/
def entry? (m : Memory α) : Datum α → Datum α → Option (Nat × String × Option (Datum α))
  | .table place, .value (.text key) => m.tables[place]?.map fun table => (place, key, table key)
  | _, _ => none

variable [Scalar α]

/-- A count less a whole number that is not above it. -/
def minus? : Datum α → Datum α → Option (Datum α)
  | .count n, .value (.number x) =>
    let k := Scalar.toCount x
    if k ≤ n && Scalar.ofNat k == x then some (.count (n - k)) else none
  | _, _ => none

mutual

/-- What an expression stands for, and the memory after it. -/
def eval : Expr α → Memory α → Option (Datum α × Memory α)
  | .name x, m => (m.scope x).map (·, m)
  | .number x, m => some (.value (.number x), m)
  | .bool b, m => some (.value (.bool b), m)
  | .paren e, m => eval e m
  | .member object field, m => do
    let (d, m) ← eval object m
    (m.member? d field).map (·, m)
  | .call (.member object method) arguments, m => do
    let (d, m) ← eval object m
    let (data, m) ← evalAll arguments m
    m.send d method data
  | .list [], m => some (.list m.lists.length, m.allot)
  | .record [], m => some (.table m.tables.length, m.allotTable)
  | .bundle names, m => (names.mapM fun x => (m.scope x).map (x, ·)).map (.record ·, m)
  | .binary operator (.item object index) e, m =>
    -- an entry that is set stays, and `e` is looked at only if none is
    if operator = "??=" then do
      let (table, m) ← eval object m
      let (key, m) ← eval index m
      match ← m.entry? table key with
      | (_, _, some d) => some (d, m)
      | (place, key, none) =>
        let (d, m) ← eval e m
        some (d, m.put place key d)
    else none
  | .binary operator left right, m => do
    let (a, m) ← eval left m
    let (b, m) ← eval right m
    if operator = "-" then (minus? a b).map (·, m) else none
  | _, _ => none

def evalAll : List (Expr α) → Memory α → Option (List (Datum α) × Memory α)
  | [], m => some ([], m)
  | e :: rest, m => do
    let (d, m) ← eval e m
    let (data, m) ← evalAll rest m
    return (d :: data, m)

end

/-- What a body gives, and the memory after it. -/
def perform : List (Stmt α) → Memory α → Option (Datum α × Memory α)
  | [], m => some (.value .nothing, m)
  | .run e :: rest, m => (eval e m).bind fun (_, m) => perform rest m
  | .result e :: _, m => eval e m
  | _, _ => none

/-- The memory after a declaration. What answers events is not declared. -/
def exec : Stmt α → Memory α → Option (Memory α)
  | .const x e, m => (eval e m).bind fun (d, m) => m.declare x d
  | .variables bindings, m =>
    bindings.foldlM (fun m (x, e) => (eval e m).bind fun (d, m) => m.declare x d) m
  | .function x parameters body, m => m.declare x (.function parameters body)
  | .listen .., m => some m
  | _, _ => none

/-- Calls a function by its name. Its parameters stand for the arguments until it ends. -/
def call (m : Memory α) (function : String) (arguments : List (Datum α)) :
    Option (Datum α × Memory α) :=
  match m.scope function with
  | some (.function parameters body) =>
    if parameters.length = arguments.length then
      (perform body (m.enter (parameters.zip arguments))).map fun (d, after) =>
        (d, { after with scope := m.scope })
    else none
  | _ => none

/-- Runs declarations. -/
def execAll (l : List (Stmt α)) (m : Memory α) : Option (Memory α) :=
  l.foldlM (fun m statement => exec statement m) m

/-! ## Expressions -/

section

variable {m m' m'' : Memory α} {d : Datum α} {object index e : Expr α} {place : Nat}

theorem eval_name {x : String} (h : m.scope x = some d) : eval (.name x) m = some (d, m) := by
  simp [eval, h]

theorem eval_paren (e : Expr α) (m : Memory α) : eval (.paren e) m = eval e m := rfl

theorem eval_push {items : List (Datum α)} (hobject : eval object m = some (.list place, m'))
    (he : eval e m' = some (d, m'')) (hitems : m''.lists[place]? = some items) :
    eval (.send object "push" [e]) m = some (.count (items.length + 1), m''.push place d) := by
  simp [Expr.send, eval, evalAll, hobject, he, send, hitems]

/-- The place of the last item. -/
theorem eval_last (hone : Scalar.toCount (1.0 : α) = 1)
    (hwhole : (Scalar.ofNat 1 == (1.0 : α)) = true) {items : List (Datum α)}
    (hobject : eval object m = some (.list place, m'))
    (hitems : m'.lists[place]? = some (items ++ [d])) :
    eval (.minus (.member object "length") (.number 1.0)) m = some (.count items.length, m') := by
  simp [Expr.minus, eval, hobject, member?, hitems, minus?, hone, hwhole]

/-- An entry that is set stays. -/
theorem eval_default_of_set {table : String → Option (Datum α)} {key : String}
    (hobject : eval object m = some (.table place, m))
    (hindex : eval index m = some (.value (.text key), m)) (htable : m.tables[place]? = some table)
    (hset : table key = some d) :
    eval (.binary "??=" (.item object index) e) m = some (d, m) := by
  simp [eval, hobject, hindex, entry?, htable, hset]

/-- An entry that is not set is set. -/
theorem eval_default_of_unset {table : String → Option (Datum α)} {key : String}
    (hobject : eval object m = some (.table place, m))
    (hindex : eval index m = some (.value (.text key), m)) (htable : m.tables[place]? = some table)
    (hunset : table key = none) (he : eval e m = some (d, m')) :
    eval (.binary "??=" (.item object index) e) m = some (d, m'.put place key d) := by
  simp [eval, hobject, hindex, entry?, htable, hunset, he]

end

end Memory

/-! ## Keeping a voicing -/

/-- What a value of the stage is to a body. The place of a profile is a count. -/
def Datum.ofValue : Value α → Datum α
  | .profile index => .count index
  | v => .value v

/-- The record of a voice. -/
def Datum.ofVoice (voice : Voice) : Datum α :=
  .record [("gain", .value (.param voice.gain)), ("profile", .count voice.profile)]

/-- A record with the numbers of a profile. -/
def Datum.Tells [Scalar α] (d : Datum α) (profile : Profile α) : Prop :=
  ∃ fields, d = .value (.record fields) ∧ profileOf? fields = some profile

/-- Where a voicing is kept: the list of its profiles, the table of its keys, and for every key in
the table the list of its voices. -/
structure Shelf where
  profiles : Nat
  keyboard : Nat
  voices : Key → Option Nat

/-- A place for the voices of one more key. -/
def Shelf.allot (shelf : Shelf) (key : Key) (place : Nat) : Shelf :=
  { shelf with voices := Function.update shelf.voices key (some place) }

theorem Shelf.voices_allot_self (shelf : Shelf) (key : Key) (place : Nat) :
    (shelf.allot key place).voices key = some place := Function.update_self ..

theorem Shelf.voices_allot_of_ne (shelf : Shelf) {key other : Key} (hne : other ≠ key)
    (place : Nat) : (shelf.allot key place).voices other = shelf.voices other :=
  Function.update_of_ne hne ..

/-- The voices of a key are at the new place, or where they were. -/
theorem Shelf.voices_allot_cases {shelf : Shelf} {key other : Key} {place place' : Nat}
    (h : (shelf.allot key place).voices other = some place') :
    other = key ∧ place' = place ∨ shelf.voices other = some place' := by
  by_cases heq : other = key
  · rw [heq, voices_allot_self] at h
    exact .inl ⟨heq, (Option.some.inj h).symm⟩
  · exact .inr ((voices_allot_of_ne shelf heq place).symm.trans h)

/-- A function as the helper of the keyboard declares it. -/
def helperFunction? [Scalar α] (x : String) : Option (Datum α) :=
  (keyboardHelper (α := α)).flatten.findSome? fun
    | .function y parameters body => if y = x then some (.function parameters body) else none
    | _ => none

namespace Memory

variable [Scalar α]

/-- The names of the helper stand for lists and a table in which a voicing is found. A list is for
the profiles or for the voices of one key. -/
structure Holds (m : Memory α) (shelf : Shelf) (voicing : Voicing α) : Prop where
  functions : ∀ x ∈ ["addProfile", "addVoice"], m.scope x = helperFunction? x
  profiles : m.scope "profiles" = some (.list shelf.profiles)
  keyboard : m.scope "keyboard" = some (.table shelf.keyboard)
  /-- The list of the profiles tells them one by one. -/
  told : ∃ items, m.lists[shelf.profiles]? = some items ∧
    List.Forall₂ Datum.Tells items voicing.profiles
  /-- A key is in the table just when it has a place for its voices. -/
  table : ∃ table, m.tables[shelf.keyboard]? = some table ∧
    ∀ key, table (Key.code key) = (shelf.voices key).map .list
  /-- The list at that place has the voices of the key, in the order in which they were bound. -/
  voiced : ∀ key place, shelf.voices key = some place →
    m.lists[place]? = some ((voicing.voicesOf key).map .ofVoice)
  silent : ∀ key, shelf.voices key = none → voicing.voicesOf key = []
  apart : ∀ key place, shelf.voices key = some place → place ≠ shelf.profiles
  distinct : ∀ key key' place, shelf.voices key = some place → shelf.voices key' = some place →
    key = key'

/-- The same, with just the keys that have voices in the table. -/
structure Keeps (m : Memory α) (shelf : Shelf) (voicing : Voicing α) : Prop
    extends m.Holds shelf voicing where
  unbound : ∀ key, voicing.voicesOf key = [] → shelf.voices key = none

/-! ### The declarations -/

variable {m m' : Memory α} {shelf : Shelf} {voicing : Voicing α}

theorem execAll_cons {statement : Stmt α} (h : exec statement m = some m') (l : List (Stmt α)) :
    execAll (statement :: l) m = execAll l m' := by
  simp [execAll, h]

omit [Scalar α] in
theorem declare_of_free {x : String} (hx : m.scope x = none) (d : Datum α) :
    m.declare x d = some (m.name x d) := by
  simp [declare, hx]

theorem exec_const {x : String} {e : Expr α} {d : Datum α} (he : eval e m = some (d, m'))
    (hx : m'.scope x = none) : exec (.const x e) m = some (m'.name x d) := by
  simp [exec, he, declare_of_free hx]

theorem exec_variable {x : String} {e : Expr α} {d : Datum α} (he : eval e m = some (d, m'))
    (hx : m'.scope x = none) : exec (.variables [(x, e)]) m = some (m'.name x d) := by
  simp [exec, he, declare_of_free hx]

theorem exec_function {x : String} {parameters : List String} {body : List (Stmt α)}
    (hx : m.scope x = none) :
    exec (.function x parameters body) m = some (m.name x (.function parameters body)) :=
  declare_of_free hx _

/-- After the helper of the keyboard nothing is kept, and no more names are declared than its
own. -/
theorem exists_keeps (hnew : ∀ x ∈ keyboardNames, m.scope x = none) :
    ∃ m' shelf, execAll (keyboardHelper (α := α)).flatten m = some m' ∧ m'.Keeps shelf .empty ∧
      ∀ x, x ∉ keyboardNames → m'.scope x = m.scope x := by
  simp only [keyboardNames, List.forall_mem_cons] at hnew
  obtain ⟨hepsilon, hprofiles, hkeyboard, hstate, hsustaining, hprofile, hvoice, hplay, hrelease,
    -⟩ := hnew
  have hnumber (x : α) (m : Memory α) : eval (.number x) m = some (.value (.number x), m) := rfl
  have hlist (m : Memory α) : eval (.list []) m = some (.list m.lists.length, m.allot) := rfl
  have hrecord (m : Memory α) : eval (.record []) m = some (.table m.tables.length, m.allotTable) :=
    rfl
  have hbool (b : Bool) (m : Memory α) : eval (.bool b) m = some (.value (.bool b), m) := rfl
  have hlisten (event parameter : String) (body : List (Stmt α)) (m : Memory α) :
      exec (.listen event parameter body) m = some m := rfl
  refine ⟨_, ⟨m.lists.length, m.tables.length, fun _ => none⟩,
    (execAll_cons (exec_const (hnumber _ _) ?_) _).trans <|
    (execAll_cons (exec_const (hlist _) ?_) _).trans <|
    (execAll_cons (exec_const (hrecord _) ?_) _).trans <|
    (execAll_cons (exec_const (hrecord _) ?_) _).trans <|
    (execAll_cons (exec_variable (hbool _ _) ?_) _).trans <|
    (execAll_cons (exec_function ?_) _).trans <| (execAll_cons (exec_function ?_) _).trans <|
    (execAll_cons (exec_function ?_) _).trans <| (execAll_cons (exec_function ?_) _).trans <|
    (execAll_cons (hlisten _ _ _ _) _).trans <| (execAll_cons (hlisten _ _ _ _) _).trans rfl,
    ?_, ?_⟩
  rotate_right
  · intro x hx
    simp only [keyboardNames, List.mem_cons, List.not_mem_nil, or_false, not_or] at hx
    simp [name, allot, allotTable, hx]
  rotate_right
  · exact {
      functions := by simp [name, helperFunction?, keyboardHelper, playNote, releaseNote]
      profiles := by simp [name, allot, allotTable]
      keyboard := by simp [name, allot, allotTable]
      told := ⟨[], by simp [name, allot, allotTable], .nil⟩
      table := ⟨fun _ => none, by simp [name, allot, allotTable], fun _ => rfl⟩
      voiced := nofun
      silent := fun _ _ => rfl
      apart := nofun
      distinct := nofun
      unbound := fun _ _ => rfl }
  all_goals simp [name, allot, allotTable, *]

/-! ### The calls -/

omit [Scalar α] in
theorem lists_push {place other : Nat} {d : Datum α} :
    (m.push place d).lists[other]? =
      (m.lists[other]?).map fun items => if place = other then items ++ [d] else items := by
  rw [push, List.getElem?_modify]
  split <;> simp [*]

omit [Scalar α] in
theorem tables_put {place : Nat} {key : String} {d : Datum α} {table : String → Option (Datum α)}
    (htable : m.tables[place]? = some table) :
    (m.put place key d).tables[place]? = some (Function.update table key (some d)) := by
  simp [put, htable]

theorem call_eq {function : String} {parameters : List String} {body : List (Stmt α)}
    {arguments : List (Datum α)} {d : Datum α}
    (hfunction : m.scope function = some (.function parameters body))
    (hlength : parameters.length = arguments.length)
    (hbody : perform body (m.enter (parameters.zip arguments)) = some (d, m')) :
    m.call function arguments = some (d, { m' with scope := m.scope }) := by
  simp [call, hfunction, hlength, hbody]

theorem perform_run {e : Expr α} {d : Datum α} (he : eval e m = some (d, m'))
    (rest : List (Stmt α)) : perform (.run e :: rest) m = perform rest m' := by
  simp [perform, he]

/-! ### Profiles -/

/-- A profile is added behind the profiles that there are. -/
theorem Keeps.register (h : m.Keeps shelf voicing) {d : Datum α} {profile : Profile α}
    (hd : d.Tells profile) :
    (m.push shelf.profiles d).Keeps shelf (voicing.register profile) where
  __ := h
  told := by
    obtain ⟨items, hitems, htold⟩ := h.told
    refine ⟨items ++ [d], by simp [lists_push, hitems], ?_⟩
    exact List.rel_append htold (.cons hd .nil)
  voiced key place hplace := by
    rw [lists_push, h.voiced key place hplace, Option.map_some,
      if_neg (h.apart key place hplace).symm]
    rfl

/-- The body of `addProfile` answers with the place of the profile in the voicing. -/
theorem Keeps.call_addProfile (h : m.Keeps shelf voicing) (hone : Scalar.toCount (1.0 : α) = 1)
    (hwhole : (Scalar.ofNat 1 == (1.0 : α)) = true)
    {fields : List (String × Value α)} {profile : Profile α}
    (hprofile : profileOf? fields = some profile) :
    ∃ m', m.call "addProfile" [.value (.record fields)] =
        some (.count voicing.profiles.length, m') ∧
      m'.Keeps shelf (voicing.register profile) := by
  obtain ⟨items, hitems, htold⟩ := h.told
  let record : Datum α := .value (.record fields)
  let inner := m.enter [("profile", record)]
  have hprofiles : inner.scope "profiles" = some (.list shelf.profiles) := by
    simp [inner, enter, h.profiles, List.lookup_cons]
  have hrecord : inner.scope "profile" = some record := by simp [inner, enter]
  have hpush := eval_push (eval_name hprofiles) (eval_name hrecord) hitems
  let after := inner.push shelf.profiles record
  have hafter : eval (.name "profiles") after = some (.list shelf.profiles, after) :=
    eval_name hprofiles
  have hpushed : after.lists[shelf.profiles]? = some (items ++ [record]) := by
    simp [after, lists_push, inner, enter, hitems]
  have hlast := eval_last hone hwhole hafter hpushed
  rw [htold.length_eq] at hlast
  have hfunction := h.functions "addProfile" (by simp)
  have hcall : m.call "addProfile" [record] =
      some (.count voicing.profiles.length, { after with scope := m.scope }) := by
    refine call_eq (hfunction.trans rfl) rfl ?_
    exact (perform_run hpush _).trans hlast
  exact ⟨_, hcall, h.register ⟨fields, rfl, hprofile⟩⟩

/-! ### Voices -/

/-- A voice of a key is added behind the voices that its list has. -/
theorem Holds.bind (h : m.Holds shelf voicing) {key : Key} {place : Nat}
    (hplace : shelf.voices key = some place) (voice : Voice) :
    (m.push place (.ofVoice voice)).Holds shelf (voicing.bind key voice) where
  __ := h
  told := by
    obtain ⟨items, hitems, htold⟩ := h.told
    refine ⟨items, ?_, htold⟩
    rw [lists_push, hitems, Option.map_some, if_neg (h.apart key place hplace)]
  voiced key' place' hplace' := by
    rw [lists_push, h.voiced key' place' hplace', Option.map_some, Voicing.voicesOf_bind]
    by_cases heq : key = key'
    · obtain rfl : place = place' := Option.some.inj (hplace.symm.trans (heq ▸ hplace'))
      rw [if_pos rfl, if_pos heq, List.map_append, List.map_singleton]
    · have hne : place ≠ place' := fun hsame =>
        heq (h.distinct key key' place hplace (hsame ▸ hplace'))
      rw [if_neg hne, if_neg heq, List.append_nil]
  silent key' hnone := by
    have hne : key ≠ key' := by
      rintro rfl
      cases hplace.symm.trans hnone
    rw [Voicing.voicesOf_bind, if_neg hne, List.append_nil, h.silent key' hnone]

/-- A key that is not in the table yet gets an empty list there. -/
theorem Holds.allot (h : m.Holds shelf voicing) {key : Key} (hkey : shelf.voices key = none) :
    (m.allot.put shelf.keyboard key.code (.list m.lists.length)).Holds
      (shelf.allot key m.lists.length) voicing := by
  have hold {place : Nat} {items : List (Datum α)} (hitems : m.lists[place]? = some items) :
      (m.lists ++ [[]])[place]? = some items ∧ place ≠ m.lists.length := by
    have hlt := (List.getElem?_eq_some_iff.mp hitems).1
    exact ⟨(List.getElem?_append_left hlt).trans hitems, hlt.ne⟩
  obtain ⟨items, hitems, htold⟩ := h.told
  exact {
    functions := h.functions
    profiles := h.profiles
    keyboard := h.keyboard
    told := ⟨items, (hold hitems).1, htold⟩
    table := by
      obtain ⟨table, htable, hentries⟩ := h.table
      refine ⟨_, tables_put htable, fun other => ?_⟩
      by_cases heq : other = key
      · rw [heq, Function.update_self, shelf.voices_allot_self, Option.map_some]
      · rw [Function.update_of_ne (mt Key.code_inj heq), shelf.voices_allot_of_ne heq,
          hentries other]
    voiced := fun other place hplace => by
      obtain ⟨rfl, rfl⟩ | hplace := Shelf.voices_allot_cases hplace
      · show (m.lists ++ [[]])[m.lists.length]? = _
        rw [List.getElem?_concat_length, h.silent other hkey, List.map_nil]
      · exact (hold (h.voiced other place hplace)).1
    silent := fun other hnone => by
      have hne : other ≠ key := by
        rintro rfl
        cases (shelf.voices_allot_self other m.lists.length).symm.trans hnone
      exact h.silent other ((shelf.voices_allot_of_ne hne _).symm.trans hnone)
    apart := fun other place hplace => by
      obtain ⟨-, rfl⟩ | hplace := Shelf.voices_allot_cases hplace
      · exact (hold hitems).2.symm
      · exact h.apart other place hplace
    distinct := fun other other' place hplace hplace' => by
      obtain ⟨rfl, rfl⟩ | hbefore := Shelf.voices_allot_cases hplace
      · obtain ⟨rfl, -⟩ | hbefore := Shelf.voices_allot_cases hplace'
        · rfl
        · exact absurd rfl (hold (h.voiced _ _ hbefore)).2
      · obtain ⟨rfl, rfl⟩ | hbefore' := Shelf.voices_allot_cases hplace'
        · exact absurd rfl (hold (h.voiced _ _ hbefore)).2
        · exact h.distinct other other' place hbefore hbefore' }

/-- The list of the voices of a key, which is new if the key had none. -/
theorem Keeps.exists_list (h : m.Keeps shelf voicing) (key : Key)
    {bindings : List (String × Datum α)}
    (hkeyboard : (m.enter bindings).scope "keyboard" = some (.table shelf.keyboard))
    (hkey : (m.enter bindings).scope "key" = some (.value (.text key.code))) :
    ∃ (m' : Memory α) (shelf' : Shelf) (place : Nat),
      eval (.binary "??=" (.item (.name "keyboard") (.name "key")) (.list [])) (m.enter bindings) =
        some (.list place, m'.enter bindings) ∧
      m'.scope = m.scope ∧ m'.Holds shelf' voicing ∧ shelf'.voices key = some place ∧
      ∀ other, other ≠ key → shelf'.voices other = shelf.voices other := by
  obtain ⟨table, htable, hentries⟩ := h.table
  cases hplace : shelf.voices key with
  | some place =>
    have hset : table key.code = some (.list place) := by rw [hentries, hplace, Option.map_some]
    exact ⟨m, shelf, place,
      eval_default_of_set (eval_name hkeyboard) (eval_name hkey) htable hset, rfl, h.toHolds,
      hplace, fun _ _ => rfl⟩
  | none =>
    have hunset : table key.code = none := by rw [hentries, hplace, Option.map_none]
    have hlist : eval (.list []) (m.enter bindings) =
        some (.list m.lists.length, m.allot.enter bindings) := rfl
    exact ⟨m.allot.put shelf.keyboard key.code (.list m.lists.length), _, m.lists.length,
      eval_default_of_unset (eval_name hkeyboard) (eval_name hkey) htable hunset hlist, rfl,
      h.toHolds.allot hplace, shelf.voices_allot_self key _,
      fun _ hne => shelf.voices_allot_of_ne hne _⟩

/-- The body of `addVoice` adds a voice of its key. -/
theorem Keeps.call_addVoice (h : m.Keeps shelf voicing) (key : Key) (gain : Dial) (index : Nat) :
    ∃ m' shelf', m.call "addVoice"
        [.value (.text key.code), .value (.param gain), .count index] =
          some (.value .nothing, m') ∧
      m'.Keeps shelf' (voicing.bind key ⟨gain, index⟩) := by
  let bindings : List (String × Datum α) :=
    [("key", .value (.text key.code)), ("gain", .value (.param gain)), ("profile", .count index)]
  have hkeyboard : (m.enter bindings).scope "keyboard" = some (.table shelf.keyboard) := by
    simp [bindings, enter, h.keyboard, List.lookup_cons]
  have hkey : (m.enter bindings).scope "key" = some (.value (.text key.code)) := by
    simp [bindings, enter]
  obtain ⟨m', shelf', place, hlist, hscope, hholds, hplace, hothers⟩ :=
    h.exists_list key hkeyboard hkey
  have hvoice : eval (.bundle ["gain", "profile"]) (m'.enter bindings) =
      some (.ofVoice ⟨gain, index⟩, m'.enter bindings) := by
    simp [eval, bindings, enter, List.lookup_cons, Datum.ofVoice]
  have hpush := eval_push ((eval_paren _ _).trans hlist) hvoice
    (hholds.voiced key place hplace)
  let after := (m'.enter bindings).push place (.ofVoice ⟨gain, index⟩)
  have hfunction := h.functions "addVoice" (by simp)
  have hcall : m.call "addVoice" (bindings.map (·.2)) =
      some (.value .nothing, { after with scope := m.scope }) := by
    refine call_eq (hfunction.trans rfl) rfl ?_
    exact (perform_run hpush []).trans rfl
  rw [← hscope] at hcall
  refine ⟨_, shelf', hcall, hholds.bind hplace _, fun other hsilent => ?_⟩
  rw [Voicing.voicesOf_bind, List.append_eq_nil_iff] at hsilent
  have hne : other ≠ key := by
    rintro rfl
    simp at hsilent
  exact (hothers other hne).trans (h.unbound other hsilent.1)

end Memory

/-! ## Calls of the stage -/

/-- What a stage answers to a call. -/
theorem Stage.call_cases [Scalar α] {s s' : Stage α} {function : String}
    {arguments : List (Value α)} {v : Value α} (h : s.call function arguments = some (v, s')) :
    function ∈ Noise.Color.all.map noiseFunction ∨
    (∃ fields profile, function = "addProfile" ∧ arguments = [.record fields] ∧
      profileOf? fields = some profile ∧ v = .profile s.voicing.profiles.length ∧
      s' = { s with voicing := s.voicing.register profile }) ∨
    (∃ key gain index, function = "addVoice" ∧
      arguments = [.text (Key.code key), .param gain, .profile index] ∧ v = .nothing ∧
      s' = { s with voicing := s.voicing.bind key ⟨gain, index⟩ }) := by
  unfold call at h
  split at h
  · exact .inl (Option.ite_none_right_eq_some.mp h).1
  · obtain ⟨hname, h⟩ := Option.ite_none_right_eq_some.mp h
    obtain ⟨profile, hprofile, heq⟩ := Option.map_eq_some_iff.mp h
    cases heq
    exact .inr (.inl ⟨_, profile, hname, rfl, hprofile, rfl, rfl⟩)
  · obtain ⟨hname, h⟩ := Option.ite_none_right_eq_some.mp h
    obtain ⟨key, hkey, heq⟩ := Option.map_eq_some_iff.mp h
    cases heq
    obtain rfl := Key.code_of_ofCode? hkey
    exact .inr (.inr ⟨key, _, _, hname, rfl, rfl, rfl⟩)
  · cases h

/-- A call that a stage answers is answered by the body of the function, and what was kept of the
voicing before is kept of the voicing after. -/
theorem Memory.Keeps.call {m : Memory Float} {shelf : Shelf} {s s' : Stage Float}
    (h : m.Keeps shelf s.voicing) {function : String}
    (hfunction : function ∈ ["addProfile", "addVoice"]) {arguments : List (Value Float)}
    {v : Value Float} (hcall : s.call function arguments = some (v, s')) :
    ∃ m' shelf', m.call function (arguments.map .ofValue) = some (.ofValue v, m') ∧
      m'.Keeps shelf' s'.voicing := by
  obtain hnoise | ⟨fields, profile, rfl, rfl, hprofile, rfl, rfl⟩ |
    ⟨key, gain, index, rfl, rfl, rfl, rfl⟩ := Stage.call_cases hcall
  · have hother : ∀ x ∈ ["addProfile", "addVoice"], x ∉ Noise.Color.all.map noiseFunction := by
      decide
    exact absurd hnoise (hother function hfunction)
  · obtain ⟨m', hm', hkeeps⟩ := h.call_addProfile (by decide) (by decide) hprofile
    exact ⟨m', shelf, hm', hkeeps⟩
  · exact h.call_addVoice key gain index

/-- So are any calls one after another. -/
theorem Memory.Keeps.callAll {m : Memory Float} {shelf : Shelf} {s s' : Stage Float}
    (h : m.Keeps shelf s.voicing) {calls : List (String × List (Value Float))}
    (hcalls : ∀ c ∈ calls, c.1 ∈ ["addProfile", "addVoice"]) {values : List (Value Float)}
    (hrun : callAll Stage.call calls s = some (values, s')) :
    ∃ m' shelf', callAll Memory.call (calls.map fun c => (c.1, c.2.map .ofValue)) m =
        some (values.map .ofValue, m') ∧
      m'.Keeps shelf' s'.voicing := by
  -- the induction is on the calls, for any memory that keeps the voicing so far
  induction calls generalizing s m shelf values with
  | nil =>
    cases hrun
    exact ⟨m, shelf, rfl, h⟩
  | cons c calls ih =>
    obtain ⟨hfunction, hcalls⟩ := List.forall_mem_cons.mp hcalls
    obtain ⟨⟨v, s₁⟩, hcall, hrest⟩ := Option.bind_eq_some_iff.mp hrun
    obtain ⟨⟨rest, s₂⟩, hrest, heq⟩ := Option.bind_eq_some_iff.mp hrest
    cases heq
    obtain ⟨m₁, shelf₁, hm₁, hkeeps₁⟩ := h.call hfunction hcall
    obtain ⟨m₂, shelf₂, hm₂, hkeeps₂⟩ := ih hkeeps₁ hcalls hrest
    refine ⟨m₂, shelf₂, ?_, hkeeps₂⟩
    rw [List.map_cons, List.map_cons, callAll_cons hm₁ hm₂]

/-- On a page where the helper of the keyboard has been run, any calls that a stage without voices
answers are answered by the bodies, and these leave behind the voicing of the stage. -/
theorem Memory.exists_callAll {m : Memory Float} (hnew : ∀ x ∈ keyboardNames, m.scope x = none)
    {s s' : Stage Float} (hempty : s.voicing = .empty)
    {calls : List (String × List (Value Float))}
    (hcalls : ∀ c ∈ calls, c.1 ∈ ["addProfile", "addVoice"]) {values : List (Value Float)}
    (hrun : callAll Stage.call calls s = some (values, s')) :
    ∃ m₀ m' shelf, execAll (keyboardHelper (α := Float)).flatten m = some m₀ ∧
      callAll Memory.call (calls.map fun c => (c.1, c.2.map .ofValue)) m₀ =
        some (values.map .ofValue, m') ∧
      m'.Keeps shelf s'.voicing := by
  obtain ⟨m₀, shelf₀, hhelper, hkeeps, -⟩ := exists_keeps hnew
  obtain ⟨m', shelf, hanswers, hkept⟩ := (hempty ▸ hkeeps).callAll hcalls hrun
  exact ⟨m₀, m', shelf, hhelper, hanswers, hkept⟩

end Patchbay.Script
