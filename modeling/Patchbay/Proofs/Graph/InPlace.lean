import Patchbay.Proofs.Graph.Reachable
/-!
# Edits in place

An edit gives a new graph or a fault. Here the same edits are carried out on one graph in place,
look by look and change by change (`Edit.work`): whoever holds the graph sees what was changed
before the work stopped, and a place where there is nothing stops it too. A sound graph is left
either as the edit leaves it, or, when the edit is refused, as it was (`Sound.work_eq`).

Most work looks at all it needs before the first change. Where it does not, what it looks at later
is there because of the invariant: a removed node has its place among the nodes, and a control its
value on the panel.
-/

namespace Patchbay

/-! ## Lists with keys of their own -/

section

variable {σ τ κ : Type} [BEq κ] [LawfulBEq κ]

/-- In a list without repeated keys, dropping all that have a key drops the first that has it. -/
theorem filter_eq_eraseP (key : σ → κ) (k : κ) : ∀ {l : List σ}, (l.map key).Nodup →
    l.filter (key · != k) = l.eraseP (key · == k)
  | [], _ => rfl
  | a :: l, h => by
    obtain ⟨hnew, h⟩ := List.nodup_cons.mp h
    by_cases hk : key a = k
    · have hnone : ∀ b ∈ l, (key b != k) = true := fun b hb =>
        bne_iff_ne.mpr fun hkb => hnew (List.mem_map.mpr ⟨b, hb, hkb.trans hk.symm⟩)
      rw [List.eraseP_cons_of_pos (by simp [hk]), List.filter_cons_of_neg (by simp [hk]),
        List.filter_eq_self.mpr hnone]
    · rw [List.eraseP_cons_of_neg (by simp [hk]), List.filter_cons_of_pos (by simp [hk]),
        filter_eq_eraseP key k h]

/-- In a list without repeated keys, changing all that have a key changes the first that has it. -/
theorem map_ite_eq_modify (key : σ → κ) (k : κ) (f : σ → σ) : ∀ {l : List σ} {i : Nat},
    (l.map key).Nodup → l.findIdx? (key · == k) = some i →
    l.map (fun a => if key a == k then f a else a) = l.modify i f
  | [], _, _, hi => by cases hi
  | a :: l, i, h, hi => by
    obtain ⟨hnew, h⟩ := List.nodup_cons.mp h
    rw [List.findIdx?_cons] at hi
    by_cases hk : key a = k
    · rw [if_pos (by simp [hk])] at hi
      cases hi
      have hrest : ∀ b ∈ l, (if key b == k then f b else b) = b := fun b hb =>
        if_neg fun hkb => hnew (List.mem_map.mpr ⟨b, hb, (eq_of_beq hkb).trans hk.symm⟩)
      rw [List.map_cons, if_pos (by simp [hk]), List.map_congr_left hrest, List.map_id']
      rfl
    · rw [if_neg (by simp [hk])] at hi
      obtain ⟨j, hj, rfl⟩ := Option.map_eq_some_iff.mp hi
      rw [List.map_cons, if_neg (by simp [hk]), map_ite_eq_modify key k f h hj]
      rfl

/-- In a list beside one without repeated keys, changing all values with a key changes the first. -/
theorem zip_map_ite_eq_set (key : σ → κ) (k : κ) (v : τ) : ∀ {l : List σ} {l' : List τ} {i : Nat},
    (l.map key).Nodup → l'.length = l.length → l.findIdx? (key · == k) = some i →
    (l.zip l').map (fun entry => if key entry.1 == k then v else entry.2) = l'.set i v
  | [], _, _, _, _, hi => by cases hi
  | _ :: _, [], _, _, hlength, _ => by cases hlength
  | a :: l, b :: l', i, h, hlength, hi => by
    obtain ⟨hnew, h⟩ := List.nodup_cons.mp h
    have hlength : l'.length = l.length := Nat.succ.inj hlength
    rw [List.findIdx?_cons] at hi
    by_cases hk : key a = k
    · rw [if_pos (by simp [hk])] at hi
      cases hi
      have hrest : ∀ entry ∈ l.zip l', (if key entry.1 == k then v else entry.2) = entry.2 :=
        fun entry hentry => if_neg fun hke =>
          hnew (List.mem_map.mpr
            ⟨entry.1, (List.of_mem_zip hentry).1, (eq_of_beq hke).trans hk.symm⟩)
      rw [List.zip_cons_cons, List.map_cons, if_pos (by simp [hk]), List.map_congr_left hrest,
        List.map_snd_zip hlength.le]
      rfl
    · rw [if_neg (by simp [hk])] at hi
      obtain ⟨j, hj, rfl⟩ := Option.map_eq_some_iff.mp hi
      rw [List.zip_cons_cons, List.map_cons, if_neg (by simp [hk]),
        zip_map_ite_eq_set key k v h hlength hj]
      rfl

end

/-- On an accepted panel, a control that has a place has its value at the same place, and giving it
a value changes this one. -/
theorem Panel.Accepted.indexed_cases {α : Type} [Scalar α] {p : Panel α} (hp : p.Accepted)
    (key : String) :
    (p.kind.controls (α := α)).findIdx? (·.key == key) = none ∧
        p.kind.control? (α := α) key = none ∨
      ∃ (i : Nat) (c : Control α) (old : Control.Value α),
        (p.kind.controls (α := α)).findIdx? (·.key == key) = some i ∧
        (p.kind.controls (α := α))[i]? = some c ∧ p.values[i]? = some old ∧
        p.kind.control? key = some c ∧
        ∀ value, (p.entries.map fun (c, v) => if c.key == key then value else v) =
          p.values.set i value := by
  have hlength : p.values.length = (p.kind.controls (α := α)).length := hp.length_eq.symm
  have hfound : (p.kind.controls (α := α)).find? (·.key == key) = _ :=
    List.find?_eq_bind_findIdx?_getElem?
  cases hi : (p.kind.controls (α := α)).findIdx? (·.key == key) with
  | none => exact .inl ⟨rfl, by rw [Kind.control?, hfound, hi]; rfl⟩
  | some i =>
    obtain ⟨hlt, -⟩ := List.findIdx?_eq_some_iff_getElem.mp hi
    have hat := List.getElem?_eq_getElem hlt
    exact .inr ⟨i, _, p.values[i], rfl, hat, List.getElem?_eq_getElem _,
      by rw [Kind.control?, hfound, hi]; exact hat,
      fun value => zip_map_ite_eq_set _ key value p.kind.controls_nodup hlength hi⟩

/-! ## Work in place -/

/-- Why work stops. -/
inductive InPlace.Halt where
  | refused (fault : Graph.SetFault)
  /-- There is nothing at a place that is looked at. -/
  | nothingThere

/-- Work on one thing in place. It can stop, and what it has changed by then stays changed. -/
abbrev InPlace (σ β : Type) := ExceptT InPlace.Halt (StateM σ) β

namespace InPlace

variable {σ β γ : Type}

/-- What comes of the work on a thing, and the thing as the work leaves it. -/
def on (w : InPlace σ β) (s : σ) : Except Halt β × σ := w.run.run s

/-- Stops because what is asked for is refused. -/
def refuse (fault : Graph.Fault) : InPlace σ β := throw (.refused (.graph fault))

/-- Goes on with what was found. -/
def found (o : Option β) (otherwise : InPlace σ β) : InPlace σ β :=
  match o with
  | some b => pure b
  | none => otherwise

/-- Goes on with what is at a place. -/
def lookAt (l : List β) (i : Nat) : InPlace σ β := found l[i]? (throw .nothingThere)

/-- What work comes to that does all that is asked for or nothing. -/
def allOrNothing (s : σ) (changed : Except Graph.SetFault (β × σ)) : Except Halt β × σ :=
  match changed with
  | .ok (b, s') => (.ok b, s')
  | .error fault => (.error (.refused fault), s)

section

variable {s : σ}

@[simp]
theorem on_pure (b : β) : (pure b : InPlace σ β).on s = (.ok b, s) := rfl

@[simp]
theorem on_throw (halt : Halt) : (throw halt : InPlace σ β).on s = (.error halt, s) := rfl

@[simp]
theorem on_refuse (fault : Graph.Fault) :
    (refuse fault : InPlace σ β).on s = (.error (.refused (.graph fault)), s) := rfl

@[simp]
theorem on_get : (get : InPlace σ σ).on s = (.ok s, s) := rfl

@[simp]
theorem on_modify (f : σ → σ) : (modify f : InPlace σ PUnit).on s = (.ok (), f s) := rfl

/-- Work goes on with what the work before it has left, unless that has stopped. -/
@[simp]
theorem on_bind (w : InPlace σ β) (f : β → InPlace σ γ) :
    (w >>= f).on s = match w.on s with
      | (.ok b, s') => (f b).on s'
      | (.error halt, s') => (.error halt, s') := by
  show (ExceptT.bindCont f (w.run.run s).1).run (w.run.run s).2 = _
  unfold on
  rcases w.run.run s with ⟨_ | _, _⟩ <;> rfl

@[simp]
theorem on_functor_map (f : β → γ) (w : InPlace σ β) :
    (f <$> w).on s = ((w.on s).1.map f, (w.on s).2) := by
  rw [← bind_pure_comp, on_bind]
  rcases w.on s with ⟨_ | _, _⟩ <;> rfl

@[simp]
theorem on_ite {c : Prop} [Decidable c] (w w' : InPlace σ β) :
    (if c then w else w').on s = if c then w.on s else w'.on s := by
  split <;> rfl

@[simp]
theorem found_some (b : β) (otherwise : InPlace σ β) : found (some b) otherwise = pure b := rfl

@[simp]
theorem found_none (otherwise : InPlace σ β) : found none otherwise = otherwise := rfl

@[simp]
theorem allOrNothing_ok (b : β) (s' : σ) : allOrNothing s (.ok (b, s')) = (.ok b, s') := rfl

@[simp]
theorem allOrNothing_error (fault : Graph.SetFault) :
    allOrNothing (β := β) s (.error fault) = (.error (.refused fault), s) := rfl

theorem allOrNothing_eq_ok {changed : Except Graph.SetFault (β × σ)} {b : β} {s' : σ} :
    allOrNothing s changed = (.ok b, s') ↔ changed = .ok (b, s') := by
  rcases changed with _ | ⟨_, _⟩ <;> simp

theorem allOrNothing_eq_error {changed : Except Graph.SetFault (β × σ)} {halt : Halt} {s' : σ} :
    allOrNothing s changed = (.error halt, s') ↔
      ∃ fault, changed = .error fault ∧ halt = .refused fault ∧ s' = s := by
  rcases changed with _ | ⟨_, _⟩ <;> simp [eq_comm]

/-- Work that does all or nothing still does when its result is passed on changed. -/
theorem on_map {w : InPlace σ β} {changed : Except Graph.SetFault (β × σ)}
    (h : w.on s = allOrNothing s changed) (f : β → γ) :
    (do return f (← w) : InPlace σ γ).on s =
      allOrNothing s (changed.map fun (b, s') => (f b, s')) := by
  rw [on_bind, h]
  rcases changed with _ | ⟨_, _⟩ <;> rfl

/-- So it does when something else is given back. -/
theorem on_done {w : InPlace σ Unit} {changed : Except Graph.SetFault σ}
    (h : w.on s = allOrNothing s (changed.map ((), ·))) (b : β) :
    (do w; return b : InPlace σ β).on s = allOrNothing s (changed.map (b, ·)) := by
  rw [on_bind, h]
  cases changed <;> rfl

end

end InPlace

namespace Graph

open InPlace

variable {α : Type}

/-! ## Work on a graph -/

/-- Work on a graph in place. -/
abbrev Work (α β : Type) := InPlace (Graph α) β

namespace Work

/-- The place of a node. -/
def placeOf (id : NodeId) : Work α Nat := do
  found ((← get).position? id) (refuse (.nodeNotFound id))

/-- The node of a name. -/
def nodeOf (id : NodeId) : Work α (Node α) := do
  let place ← placeOf id
  lookAt (← get).nodes place

/-- Puts a node at the end and notes its place. -/
def push (n : Node α) : Work α Unit := do
  modify fun g => { g with places := (n.id, g.nodes.length) :: g.places }
  modify fun g => { g with nodes := g.nodes ++ [n] }

def insert (n : Node α) : Work α Unit := do
  if (← get).hasNode n.id then refuse (.duplicateNode n.id)
  push n

def removeNode (id : NodeId) : Work α (Node α) := do
  let place ← placeOf id
  modify fun g => { g with connections := g.connections.filter (!·.touches id) }
  modify fun g => { g with
    comments := g.comments.map fun c => { c with links := c.links.filter (· != id) } }
  let node ← lookAt (← get).nodes place
  modify fun g => { g with nodes := g.nodes.eraseIdx place }
  modify fun g => { g with places := placesOf g.nodes }
  return node

def setControl [Scalar α] (id : NodeId) (key : String) (value : Control.Value α) :
    Work α Unit := do
  let place ← placeOf id
  let node ← lookAt (← get).nodes place
  let reject (cause : Control.Fault) : Halt := .refused (.rejected ⟨node.kind, key, cause⟩)
  let controls : List (Control α) := node.kind.controls
  let i ← found (controls.findIdx? (·.key == key)) (throw (reject .noSuchControl))
  let control ← lookAt controls i
  if let some cause := control.domain.fault? value then throw (reject cause)
  let _ ← lookAt node.panel.values i
  let panel := { node.panel with values := node.panel.values.set i value }
  modify fun g => { g with nodes := g.nodes.set place { node with panel } }

def connect (c : Connection) : Work α Unit := do
  let source ← nodeOf c.source
  if (source.kind.output? c.output).isNone then
    refuse (.socketNotFound c.source c.output .output)
  let target ← nodeOf c.target
  let socket ← found (target.kind.input? c.input) (refuse (.socketNotFound c.target c.input .input))
  if c ∈ (← get).connections then refuse (.duplicateConnection c)
  if socket.multiplicity = .single ∧ (← get).isConnected c.target c.input then
    refuse (.socketFull c.target c.input)
  modify fun g => { g with connections := g.connections ++ [c] }

def disconnect (c : Connection) : Work α Unit := do
  let i ← found ((← get).connections.findIdx? (· == c)) (refuse (.connectionNotFound c))
  modify fun g => { g with connections := g.connections.eraseIdx i }

/-- Drops what a comment links that is not there, then any comment of its name, and puts it at the
end. -/
def insertComment (c : Comment) : Work α Unit := do
  let links := c.links.filter (← get).hasNode
  modify fun g => { g with comments := g.comments.filter (·.id != c.id) }
  modify fun g => { g with comments := g.comments ++ [{ c with links }] }

/-- The place of a comment. -/
def placeOfComment (id : CommentId) : Work α Nat := do
  found ((← get).comments.findIdx? (·.id == id)) (refuse (.commentNotFound id))

def removeComment (id : CommentId) : Work α Comment := do
  let i ← placeOfComment id
  let comment ← lookAt (← get).comments i
  modify fun g => { g with comments := g.comments.eraseIdx i }
  return comment

def setCommentText (id : CommentId) (text : String) : Work α Unit := do
  let i ← placeOfComment id
  modify fun g => { g with comments := g.comments.modify i ({ · with text }) }

end Work

variable [Scalar α]

/-- An edit carried out in place. -/
def Edit.work : Edit α → Work α (Answer α)
  | .addNode kind => do
    modify fun g => { g with
      lastNode := nextFree (g.hasNode ∘ nodeName) g.nodes.length g.lastNode }
    let id := nodeName (← get).lastNode
    Work.push ⟨id, .standard kind⟩
    return .named id
  | .addNodeNamed id kind => do
    Work.insert ⟨id, .standard kind⟩
    return .done
  | .insert node _ => do
    Work.insert node
    return .done
  | .removeNode id => return .node (← Work.removeNode id)
  | .setControl id key value => do
    Work.setControl id key value
    return .done
  | .connect c => do
    Work.connect c
    return .done
  | .disconnect c => do
    Work.disconnect c
    return .done
  | .addComment text style links => do
    modify fun g => { g with
      lastComment :=
        nextFree (fun n => (g.comment? (commentName n)).isSome) g.comments.length g.lastComment }
    let id := commentName (← get).lastComment
    Work.insertComment ⟨id, text, style, links⟩
    return .named id
  | .insertComment c => do
    Work.insertComment c
    return .done
  | .removeComment id => return .comment (← Work.removeComment id)
  | .setCommentText id text => do
    Work.setCommentText id text
    return .done
  | .clearComments => do
    modify fun g => { g with comments := [] }
    return .done
  | .importDocument d => do
    set (d.toGraph (α := α)).1
    return .report (d.toGraph (α := α)).2
  | .clear => do
    set (empty : Graph α)
    return .done

/-! ## Steps of work -/

namespace Work

variable {g : Graph α}

omit [Scalar α]

/-- Where names and places agree, a node that has a place is there. -/
theorem placed_cases (hg : g.WellFormed) (id : NodeId) :
    (g.position? id = none ∧ g.located? id = none) ∨
      ∃ place n, g.position? id = some place ∧ g.nodes[place]? = some n ∧
        g.located? id = some (place, n) := by
  cases hposition : g.position? id with
  | none =>
    refine .inl ⟨rfl, ?_⟩
    unfold located?
    rw [hposition]
    rfl
  | some place =>
    obtain ⟨n, hn, hid⟩ := Option.map_eq_some_iff.mp ((hg.places id place).mp hposition)
    exact .inr ⟨place, n, rfl, hn, hg.located?_eq_some_iff.mpr ⟨hn, hid⟩⟩

theorem on_nodeOf (hg : g.WellFormed) (id : NodeId) :
    (nodeOf id).on g = match g.node? id with
      | some n => (.ok n, g)
      | none => (.error (.refused (.graph (.nodeNotFound id))), g) := by
  unfold nodeOf placeOf lookAt node?
  rcases placed_cases hg id with ⟨hposition, hlocated⟩ | ⟨place, n, hposition, hplace, hlocated⟩
  · simp [hposition, hlocated]
  · simp [hposition, hplace, hlocated]

theorem on_insert (n : Node α) :
    (insert n).on g = allOrNothing g (((g.insert n).mapError .graph).map ((), ·)) := by
  unfold insert push Graph.insert
  cases hfree : g.hasNode n.id <;> simp [hfree, Graph.push, Except.map, Except.mapError]

theorem on_removeNode (hg : g.WellFormed) (id : NodeId) :
    (removeNode id).on g = allOrNothing g ((g.removeNode id).mapError .graph) := by
  unfold removeNode placeOf lookAt Graph.removeNode
  rcases placed_cases hg id with ⟨hposition, hlocated⟩ | ⟨place, n, hposition, hplace, hlocated⟩
  · simp [hposition, hlocated, Except.mapError]
  · -- the node is looked at after the first changes, when only its place is known
    simp [hposition, hplace, hlocated, Except.map, Except.mapError]

theorem on_setControl [Scalar α] (hg : g.Sound) (id : NodeId) (key : String)
    (value : Control.Value α) :
    (setControl id key value).on g =
      allOrNothing g ((g.setControl id key value).map ((), ·)) := by
  unfold setControl placeOf lookAt Graph.setControl
  rcases placed_cases hg.wellFormed id with
    ⟨hposition, hlocated⟩ | ⟨place, n, hposition, hplace, hlocated⟩
  · simp [hposition, hlocated, Except.map]
  · -- an accepted panel has a value for each control, so that a place found is not empty
    have hpanel := hg.panels n (List.mem_of_getElem? hplace)
    unfold Panel.set Node.kind
    rcases Panel.Accepted.indexed_cases hpanel key with
      ⟨hi, hcontrol⟩ | ⟨i, control, old, hi, hat, hold, hcontrol, hvalues⟩
    · simp [hposition, hplace, hlocated, hi, hcontrol, Except.map]
    · cases hfault : control.domain.fault? value
      · simp [hposition, hplace, hlocated, hi, hcontrol, hat, hold, hfault, ← hvalues, Except.map]
      · simp [hposition, hplace, hlocated, hi, hcontrol, hat, hfault, Except.map]

theorem on_connect (hg : g.WellFormed) (c : Connection) :
    (connect c).on g = allOrNothing g (((g.connect c).mapError .graph).map ((), ·)) := by
  unfold connect Graph.connect connectionFault?
  rw [on_bind, on_nodeOf hg]
  -- the checks one by one, in the order in which they are made
  cases g.node? c.source with
  | none => rfl
  | some source =>
    cases hout : source.kind.output? c.output with
    | none => simp [hout, Except.map, Except.mapError]
    | some _ =>
      simp [hout, on_nodeOf hg]
      cases g.node? c.target with
      | none => rfl
      | some target =>
        cases hin : target.kind.input? c.input with
        | none => simp [hin, Except.map, Except.mapError]
        | some socket =>
          simp [hin]
          by_cases hmem : c ∈ g.connections
          · simp [hmem, Except.map, Except.mapError]
          · by_cases hfull :
                socket.multiplicity = .single ∧ g.isConnected c.target c.input = true
            · simp [hmem, hfull, Except.map, Except.mapError]
            · simp [hmem, hfull, Except.map, Except.mapError]

theorem on_disconnect (c : Connection) :
    (disconnect c).on g = allOrNothing g (((g.disconnect c).mapError .graph).map ((), ·)) := by
  unfold disconnect Graph.disconnect
  cases hi : g.connections.findIdx? (· == c) with
  | none =>
    have hnot : c ∉ g.connections := fun hmem => by
      simpa using List.findIdx?_eq_none_iff.mp hi c hmem
    simp [hi, hnot, Except.map, Except.mapError]
  | some i =>
    obtain ⟨hlt, hc, -⟩ := List.findIdx?_eq_some_iff_getElem.mp hi
    have hmem : c ∈ g.connections := eq_of_beq hc ▸ List.getElem_mem hlt
    have herase : g.connections.erase c = g.connections.eraseIdx i := by
      simp only [List.erase_eq_eraseP', List.eraseP_eq_eraseIdx, hi]
    simp [hi, hmem, herase, Except.map, Except.mapError]

theorem on_removeComment (hg : g.WellFormed) (id : CommentId) :
    (removeComment id).on g = allOrNothing g ((g.removeComment id).mapError .graph) := by
  unfold removeComment placeOfComment lookAt Graph.removeComment comment?
  rw [filter_eq_eraseP _ _ hg.commentNames, List.eraseP_eq_eraseIdx,
    List.find?_eq_bind_findIdx?_getElem?]
  cases hi : g.comments.findIdx? (·.id == id) with
  | none =>
    simp [hi, Except.mapError]
  | some i =>
    obtain ⟨hlt, -⟩ := List.findIdx?_eq_some_iff_getElem.mp hi
    simp [hi, hlt, Except.map, Except.mapError]

theorem on_setCommentText (hg : g.WellFormed) (id : CommentId) (text : String) :
    (setCommentText id text).on g =
      allOrNothing g (((g.setCommentText id text).mapError .graph).map ((), ·)) := by
  unfold setCommentText placeOfComment Graph.setCommentText comment?
  rw [List.find?_eq_bind_findIdx?_getElem?]
  cases hi : g.comments.findIdx? (·.id == id) with
  | none =>
    simp [hi, Except.map, Except.mapError]
  | some i =>
    obtain ⟨hlt, -⟩ := List.findIdx?_eq_some_iff_getElem.mp hi
    rw [map_ite_eq_modify Comment.id id _ hg.commentNames hi]
    simp [hi, hlt, Except.map, Except.mapError]

end Work

/-! ## Edits -/

/-- Carried out in place, an edit of a sound graph is done as a whole, or it is refused and nothing
is done. -/
theorem Sound.work_eq {g : Graph α} (hg : g.Sound) (e : Edit α) :
    e.work.on g = allOrNothing g (g.answer e) := by
  have hwell := hg.wellFormed
  cases e with
  | addNode | addComment | insertComment | clearComments | importDocument | clear => rfl
  | addNodeNamed id kind => exact on_done (Work.on_insert ⟨id, .standard kind⟩) _
  | insert node => exact on_done (Work.on_insert node) _
  | removeNode id => exact on_map (Work.on_removeNode hwell id) _
  | setControl id key value => exact on_done (Work.on_setControl hg id key value) _
  | connect c => exact on_done (Work.on_connect hwell c) _
  | disconnect c => exact on_done (Work.on_disconnect c) _
  | removeComment id => exact on_map (Work.on_removeComment hwell id) _
  | setCommentText id text => exact on_done (Work.on_setCommentText hwell id text) _

end Graph

end Patchbay
