import Patchbay.Mixer
import Patchbay.Proofs.Outputs
import Patchbay.Proofs.Patch.Frame
import Patchbay.Proofs.Patch.Wiring
/-!
# Nothing is patched in a circle

Wires do not follow the order in which primitives are created: the gates of a keyboard instrument
feed an output that was created before them, and all that is heard feeds the master gain, which is
older than any patch. Still, the primitives of a mixer can be given heights so that every wire leads
up, whatever was built on it and released, and whether or not building succeeded.

A node that is built gets its heights between those of what feeds it and that of the master gain,
which is raised by as much as a node needs (`Kind.raised`); within a node the heights are fixed by
its kind (`Kind.rung`). So nothing ever feeds itself, and every output can be asked for
(`Mixer.InUse.wiring_acyclic`).
-/

namespace Patchbay

open Relation (TransGen)

variable {α : Type}

/-! ## Heights within a node -/

namespace Kind

/-- How far up in its node a primitive lies. The oscillators of a keyboard instrument lie lowest,
then their gates, and the output, which is the first to be created, highest. -/
def rung : Kind → Nat → Nat
  | keyboardNote, 0 => 2
  | keyboardNote, i + 1 => i % 2
  | _, i => i

variable {k : Kind} {master first : PrimitiveId}

theorem rung_lt {i : Nat} (hi : i < k.outfit.length) : k.rung i < 3 := by
  have hlength : k ≠ .keyboardNote → k.outfit.length ≤ 3 := by cases k <;> decide
  cases k
  case keyboardNote =>
    cases i with
    | zero => exact Nat.lt_succ_self 2
    | succ i => exact Nat.lt_trans (Nat.mod_lt i Nat.two_pos) (Nat.lt_succ_self 2)
  all_goals exact Nat.lt_of_lt_of_le hi (hlength (by decide))

/-- The wires that a node has of itself lead up within it, or from it to the master. -/
theorem inner_rises {w : PrimitiveId × Inlet} (h : w ∈ k.inner master first) :
    ∃ i < k.outfit.length, w.1 = first + i ∧ (w.2.place = master ∨
      ∃ j < k.outfit.length, w.2.place = first + j ∧ k.rung i < k.rung j) := by
  cases k
  case clip =>
    rw [List.mem_singleton.mp h]
    exact ⟨0, by decide, rfl, .inr ⟨1, by decide, rfl, Nat.one_pos⟩⟩
  case universalOutput =>
    simp only [inner, List.mem_cons, List.not_mem_nil, or_false] at h
    rcases h with rfl | rfl | rfl
    · exact ⟨0, by decide, rfl, .inl rfl⟩
    · exact ⟨0, by decide, rfl, .inr ⟨1, by decide, rfl, Nat.one_pos⟩⟩
    · exact ⟨0, by decide, rfl, .inr ⟨2, by decide, rfl, Nat.two_pos⟩⟩
  case keyboardNote =>
    obtain ⟨osc, hosc, h⟩ := List.mem_flatMap.mp h
    obtain ⟨i, hi, rfl⟩ := mem_keyOscillators.mp hosc
    have hlength : keyboardNote.outfit.length = 51 := by decide
    have hosc : rung .keyboardNote (2 * i + 1) = 0 := Nat.mul_mod_right 2 i
    have hgate : rung .keyboardNote (2 * i + 2) = 1 := by
      show (2 * i + 1) % 2 = 1
      omega
    have hplaces : ∀ n : Nat, n + 1 + 2 * i = n + (2 * i + 1) ∧
        n + 1 + 2 * i + 1 = n + (2 * i + 2) := by omega
    obtain ⟨hfirst, hsecond⟩ := hplaces first
    rcases List.mem_cons.mp h with rfl | h
    · exact ⟨2 * i + 1, by omega, hfirst, .inr ⟨2 * i + 2, by omega, hsecond, by omega⟩⟩
    · rw [List.mem_singleton.mp h]
      exact ⟨2 * i + 2, by omega, hsecond, .inr ⟨0, by omega, rfl, hgate ▸ Nat.one_lt_two⟩⟩
  all_goals exact absurd h List.not_mem_nil

/-! ## Heights of a further node -/

/-- The heights when a node gets the primitives from a place on: just below the master, which is
raised with all that is not below it. -/
def raised (height : PrimitiveId → Nat) (master next : PrimitiveId) (k : Kind) (id : PrimitiveId) :
    Nat :=
  if next ≤ id ∧ id < next + k.outfit.length then height master + k.rung (id - next)
  else if height id < height master then height id else height id + 3

variable {height : PrimitiveId → Nat} {next id id' : PrimitiveId}

theorem raised_own {i : Nat} (hi : i < k.outfit.length) :
    k.raised height master next (next + i) = height master + k.rung i := by
  unfold raised
  rw [if_pos ⟨Nat.le_add_right _ _, Nat.add_lt_add_left hi _⟩, Nat.add_sub_cancel_left]

theorem raised_below (hid : id < next) (h : height id < height master) :
    k.raised height master next id = height id := by
  unfold raised
  rw [if_neg fun hown => Nat.not_lt_of_le hown.1 hid, if_pos h]

theorem raised_master (hmaster : master < next) :
    k.raised height master next master = height master + 3 := by
  unfold raised
  rw [if_neg fun hown => Nat.not_lt_of_le hown.1 hmaster, if_neg (Nat.lt_irrefl _)]

/-- What was higher before stays so. -/
theorem raised_lt (hid : id < next) (hid' : id' < next ∨ next + k.outfit.length ≤ id')
    (h : height id < height id') :
    k.raised height master next id < k.raised height master next id' := by
  have hold : ¬(next ≤ id ∧ id < next + k.outfit.length) :=
    fun hown => Nat.not_lt_of_le hown.1 hid
  have hold' : ¬(next ≤ id' ∧ id' < next + k.outfit.length) := fun hown => by
    rcases hid' with hid' | hid'
    · exact Nat.not_lt_of_le hown.1 hid'
    · exact Nat.not_lt_of_le hid' hown.2
  unfold raised
  rw [if_neg hold, if_neg hold']
  split <;> split <;> omega

end Kind

/-! ## Where wires land -/

/-- Every wire leads to a primitive that is there or to the loudspeakers. -/
def Rack.Landing (rack : Rack α) : Prop :=
  ∀ id, ∀ inlet ∈ rack.outputsOf id,
    inlet.place < rack.primitives.size ∨ inlet = .input destination

theorem Rack.Landing.of_subset {rack rack' : Rack α} (h : rack.Landing)
    (hsize : rack.primitives.size ≤ rack'.primitives.size)
    (houtputs : ∀ id, rack'.outputsOf id ⊆ rack.outputsOf id) : rack'.Landing :=
  fun id inlet hinlet => (h id inlet (houtputs id hinlet)).imp_left
    fun hplace => Nat.lt_of_lt_of_le hplace hsize

theorem Rack.lt_size_of_mem_outputsOf {rack : Rack α} {id : PrimitiveId} {inlet : Inlet}
    (h : inlet ∈ rack.outputsOf id) : id < rack.primitives.size := by
  by_contra hge
  rw [outputsOf_of_le (Nat.le_of_not_lt hge)] at h
  cases h

namespace Assembly

variable {g : Graph α} {master : PrimitiveId} {base : Rack α} {order : List (Node α)}
  {first : NodeId → PrimitiveId} {a : Assembly α}

/-- What is built is patched into what is built and into the master. -/
theorem Wired.landing (h : Wired g master base order first a) (hlaid : Laid g base order first a)
    (hbase : base.Landing) (hmaster : master < base.primitives.size) : a.rack.Landing := by
  have hsize : base.primitives.size ≤ a.rack.primitives.size := hlaid.size ▸ Nat.le_add_right _ _
  intro id inlet hinlet
  rcases List.mem_append.mp ((h id).mem_iff.mp hinlet) with hinlet | hinlet
  · exact (hbase id inlet hinlet).imp_left fun hplace => Nat.lt_of_lt_of_le hplace hsize
  · obtain ⟨w, hw, rfl⟩ := List.mem_map.mp hinlet
    obtain ⟨n, hn, hw⟩ := List.mem_flatMap.mp (List.mem_filter.mp hw).1
    rcases Graph.wiring_into hw with ⟨hinlet, -⟩ | ⟨i, hi, hplace⟩
    · rw [hinlet]
      exact .inl (Nat.lt_of_lt_of_le hmaster hsize)
    · rw [hplace]
      exact .inl (Nat.lt_of_lt_of_le (Nat.add_lt_add_left hi _) (hlaid.high n hn))

/-! ## Building -/

/-- The wires lead up, and all that was created lies below the master. -/
structure Below (base : Rack α) (master : PrimitiveId) (a : Assembly α)
    (height : PrimitiveId → Nat) : Prop where
  rising : a.rack.Rising height
  below : ∀ id, base.primitives.size ≤ id → id < a.rack.primitives.size → height id < height master

variable {n : Node α} {height : PrimitiveId → Nat}

/-- The wires of a further node lead up when it is placed between what feeds it and the master. -/
theorem Below.raised_lt_of_wiring (h : Below base master a height)
    (hlaid : Laid g base order first a) (hg : g.WellFormed) (hn : g.Next a.done n)
    (hmaster : master < a.rack.primitives.size) {w : PrimitiveId × Inlet}
    (hw : w ∈ g.wiring master (Function.update first n.id a.rack.primitives.size) n) :
    n.kind.raised height master a.rack.primitives.size w.1 <
      n.kind.raised height master a.rack.primitives.size w.2.place := by
  have htop : n.kind.raised height master a.rack.primitives.size master = height master + 3 :=
    Kind.raised_master hmaster
  rcases List.mem_append.mp hw with hw | hw
  · rw [Function.update_self] at hw
    obtain ⟨i, hi, hsource, hplace⟩ := Kind.inner_rises hw
    rw [hsource, Kind.raised_own hi]
    rcases hplace with hplace | ⟨j, hj, hplace, hrung⟩
    · rw [hplace, htop]
      exact Nat.add_lt_add_left (Kind.rung_lt hi) _
    · rw [hplace, Kind.raised_own hj]
      exact Nat.add_lt_add_left hrung _
  · obtain ⟨c, hc, hw⟩ := List.mem_flatMap.mp hw
    obtain ⟨inlet, hinlet, rfl⟩ := List.mem_map.mp hw
    obtain ⟨hc, htarget⟩ := Graph.mem_connectionsInto.mp hc
    have hdone : c.source ∈ a.done := hn.fed _ ⟨c, hc, rfl, htarget⟩
    obtain ⟨-, hlow, hhigh⟩ := hlaid.handle hg hc hdone
    have hbelow := h.below _ hlow hhigh
    dsimp only
    rw [Graph.handle_congr (hn.update_of_mem _ hdone), Kind.raised_below hhigh hbelow]
    rw [Function.update_self] at hinlet
    rcases Kind.inletsAt_into hinlet with ⟨rfl, -⟩ | ⟨j, hj, hplace⟩
    · exact htop ▸ Nat.lt_add_right 3 hbelow
    · rw [hplace, Kind.raised_own hj]
      exact Nat.lt_add_right _ hbelow

variable [Scalar α] {noise : Noise.Source α}

/-- A further node is placed between what feeds it and the master. -/
theorem Below.step (h : Below base master a height) (hlaid : Laid g base order first a)
    (hlanding : a.rack.Landing) (hg : g.WellFormed) (hn : g.Next a.done n)
    (hmaster : master < base.primitives.size) {a' : Assembly α}
    (hbuild : buildNode g master noise n a = .ok a')
    (hsize : a'.rack.primitives.size ≤ Rack.destination) :
    Below base master a' (n.kind.raised height master a.rack.primitives.size) := by
  have hgrown := size_of_buildNode hbuild
  have hmaster : master < a.rack.primitives.size :=
    Nat.lt_of_lt_of_le hmaster (hlaid.size ▸ Nat.le_add_right _ _)
  refine ⟨fun id inlet hinlet => ?_, fun id hlow hhigh => ?_⟩
  · rcases List.mem_append.mp ((hlaid.outputs_perm hg hn hbuild id).mem_iff.mp hinlet) with
      hinlet | hinlet
    · refine Kind.raised_lt (Rack.lt_size_of_mem_outputsOf hinlet) ?_ (h.rising id inlet hinlet)
      refine (hlanding id inlet hinlet).imp_right fun hplace => ?_
      rw [hplace]
      exact hgrown ▸ hsize
    · obtain ⟨w, hw, rfl⟩ := List.mem_map.mp hinlet
      obtain ⟨hw, hsource⟩ := List.mem_filter.mp hw
      rw [← beq_iff_eq.mp hsource]
      exact h.raised_lt_of_wiring hlaid hg hn hmaster hw
  · rw [Kind.raised_master hmaster]
    rcases Nat.lt_or_ge id a.rack.primitives.size with hold | hnew
    · have hbelow := h.below id hlow hold
      rw [Kind.raised_below hold hbelow]
      exact Nat.lt_add_right 3 hbelow
    · obtain ⟨i, rfl⟩ := Nat.exists_eq_add_of_le hnew
      have hi : i < n.kind.outfit.length := Nat.lt_of_add_lt_add_left (hgrown ▸ hhigh)
      rw [Kind.raised_own hi]
      exact Nat.add_lt_add_left (Kind.rung_lt hi) _

end Assembly

namespace Graph

variable [Scalar α] {g : Graph α} {master : PrimitiveId} {noise : Noise.Source α} {rack : Rack α}
  {voicing : Voicing α} {height : PrimitiveId → Nat}

/-- After a fault there are the wires that there were. -/
theorem outputsOf_build_of_error {fault : Patch.Fault}
    (h : (g.build master noise rack voicing).outcome = .error fault) (id : PrimitiveId) :
    (g.build master noise rack voicing).rack.outputsOf id = rack.outputsOf id := by
  rcases Nat.lt_or_ge id rack.primitives.size with hid | hid
  · unfold Rack.outputsOf
    rw [extends_build.kept id hid]
  · rw [Rack.outputsOf_of_le hid]
    cases hp : (g.build master noise rack voicing).rack.primitive? id with
    | none =>
      unfold Rack.outputsOf
      rw [hp]
      rfl
    | some p =>
      rw [Rack.outputsOf_of_primitive? hp]
      exact (released_of_build h hid hp).2

theorem WellFormed.landing_build (hg : g.WellFormed) (hrack : rack.Landing)
    (hmaster : master < rack.primitives.size) :
    (g.build master noise rack voicing).rack.Landing := by
  cases houtcome : (g.build master noise rack voicing).outcome with
  | error fault =>
    exact hrack.of_subset extends_build.size fun id =>
      (outputsOf_build_of_error houtcome id).symm ▸ List.Subset.refl _
  | ok patch =>
    obtain ⟨order, first, b, hbuilt, -, -, -, -, hlaid, hwired, -⟩ :=
      hg.exists_laid_of_build (P := fun _ _ _ => True) houtcome (fun _ _ _ _ _ => trivial) trivial
    rw [hbuilt]
    exact hwired.landing hlaid hrack hmaster

/-- Whether or not a graph could be built, the wires lead up. -/
theorem WellFormed.rising_build (hg : g.WellFormed) (hrack : rack.Landing)
    (hrising : rack.Rising height) (hmaster : master < rack.primitives.size)
    (hsize : (g.build master noise rack voicing).rack.primitives.size ≤ Rack.destination) :
    ∃ height', (g.build master noise rack voicing).rack.Rising height' := by
  cases houtcome : (g.build master noise rack voicing).outcome with
  | error fault =>
    refine ⟨height, fun id inlet hinlet => hrising id inlet ?_⟩
    rwa [outputsOf_build_of_error houtcome] at hinlet
  | ok patch =>
    -- as long as there are numbers for the primitives, every node has its place
    obtain ⟨order, first, b, hbuilt, -, -, -, -, hlaid, hwired, hbelow⟩ :=
      hg.exists_laid_of_build houtcome
        (P := fun _ _ a => a.rack.primitives.size ≤ Rack.destination →
          ∃ height, Assembly.Below rack master a height)
        (fun hlaid hwired hn hbuild hP hsize => by
          have hgrown := Assembly.size_of_buildNode hbuild
          obtain ⟨height, hbelow⟩ := hP (Nat.le_trans (hgrown ▸ Nat.le_add_right _ _) hsize)
          exact ⟨_, hbelow.step hlaid (hwired.landing hlaid hrack hmaster) hg hn hmaster hbuild
            hsize⟩)
        fun _ => ⟨height, hrising, fun id hlow hhigh => absurd hhigh (Nat.not_lt_of_le hlow)⟩
    rw [hbuilt] at hsize ⊢
    obtain ⟨height', hbelow⟩ := hbelow hsize
    exact ⟨height', hbelow.rising⟩

end Graph

/-! ## Mixers in use -/

/-- A mixer with a master chain on an empty rack, on which graphs were built, successfully or not,
and patches released; and whatever else was done left the primitives and their wires as they were:
fades, changes of parameters, the course of time, and what the rack refuses. -/
inductive Mixer.InUse [Scalar α] : Mixer α → Prop where
  | new {rack : Rack α} {level : α} {noise : Noise.Source α} {m : Mixer α}
    (hrack : rack.primitives = #[]) (hm : Mixer.new rack level noise = .ok m) : InUse m
  | build {m : Mixer α} (h : InUse m) {g : Graph α} (hg : g.Reachable) (voicing : Voicing α) :
    InUse (m.build g voicing).2.1
  | release {m : Mixer α} (h : InUse m) (patch : Patch α) : InUse (m.release patch)
  | otherwise {m m' : Mixer α} (h : InUse m) (hmaster : m'.master = m.master)
    (hsize : m'.rack.primitives.size = m.rack.primitives.size)
    (houtputs : ∀ id, m'.rack.outputsOf id = m.rack.outputsOf id) : InUse m'

namespace Mixer

variable [Scalar α] {m : Mixer α}

/-- On an empty rack a new mixer has the master gain and the compressor, patched one after the other
to the loudspeakers. -/
theorem wires_new {rack : Rack α} {level : α} {noise : Noise.Source α}
    (hrack : rack.primitives = #[]) (h : Mixer.new rack level noise = .ok m) :
    m.master = 0 ∧ m.rack.primitives.size = 2 ∧ ∀ id, ∀ inlet ∈ m.rack.outputsOf id,
      id = 0 ∧ inlet = .input 1 ∨ id = 1 ∧ inlet = .input Rack.destination := by
  obtain ⟨clock, rate, running, primitives, refused⟩ := rack
  obtain rfl : primitives = #[] := hrack
  obtain ⟨⟨master, rack₁⟩, hmaster, h⟩ := bind_eq_ok.mp h
  obtain ⟨⟨compressor, rack₂⟩, hcompressor, h⟩ := bind_eq_ok.mp h
  cases h
  obtain ⟨-, rfl, rfl⟩ := Rack.create_eq_ok.mp hmaster
  obtain ⟨-, rfl, rfl⟩ := Rack.create_eq_ok.mp hcompressor
  refine ⟨rfl, rfl, fun id inlet hinlet => ?_⟩
  match id with
  | 0 => exact .inl ⟨rfl, List.mem_singleton.mp hinlet⟩
  | 1 => exact .inr ⟨rfl, List.mem_singleton.mp hinlet⟩
  | _ + 2 => cases hinlet

namespace InUse

variable [StandardsAccepted α]

/-- The wires of a mixer in use lead to primitives that are there, and its master gain is there. -/
theorem landing (h : m.InUse) : m.rack.Landing ∧ m.master < m.rack.primitives.size := by
  induction h with
  | new hrack hm =>
    obtain ⟨hmaster, hsize, hwires⟩ := wires_new hrack hm
    refine ⟨fun id inlet hinlet => ?_, by rw [hmaster, hsize]; exact Nat.two_pos⟩
    rcases hwires id inlet hinlet with ⟨-, rfl⟩ | ⟨-, rfl⟩
    · exact .inl (hsize ▸ Nat.one_lt_two)
    · exact .inr rfl
  | build _ hg voicing ih =>
    exact ⟨hg.sound.wellFormed.landing_build ih.1 ih.2,
      Nat.lt_of_lt_of_le ih.2 Graph.extends_build.size⟩
  | release _ patch ih =>
    refine ⟨ih.1.of_subset (Nat.le_of_eq (Rack.size_releaseAll _ _).symm)
      (Rack.outputsOf_releaseAll _ _), ?_⟩
    exact Nat.lt_of_lt_of_eq ih.2 (Rack.size_releaseAll _ _).symm
  | otherwise _ hmaster hsize houtputs ih =>
    refine ⟨ih.1.of_subset (Nat.le_of_eq hsize.symm) fun id => houtputs id ▸ List.Subset.refl _, ?_⟩
    rw [hmaster, hsize]
    exact ih.2

/-- As long as there are numbers for its primitives, the wires of a mixer in use lead up. -/
theorem exists_rising (h : m.InUse) (hsize : m.rack.primitives.size ≤ Rack.destination) :
    ∃ height, m.rack.Rising height := by
  induction h with
  | new hrack hm =>
    obtain ⟨-, -, hwires⟩ := wires_new hrack hm
    refine ⟨fun id => id, fun id inlet hinlet => ?_⟩
    rcases hwires id inlet hinlet with ⟨rfl, rfl⟩ | ⟨rfl, rfl⟩
    · exact Nat.one_pos
    · show 1 < Rack.destination
      decide
  | build h hg voicing ih =>
    obtain ⟨hlanding, hmaster⟩ := h.landing
    obtain ⟨height, hrising⟩ := ih (Nat.le_trans Graph.extends_build.size hsize)
    exact hg.sound.wellFormed.rising_build hlanding hrising hmaster hsize
  | release _ patch ih =>
    obtain ⟨height, hrising⟩ := ih ((Rack.size_releaseAll _ _).symm.trans_le hsize)
    exact ⟨height, fun id inlet hinlet =>
      hrising id inlet (Rack.outputsOf_releaseAll _ _ id hinlet)⟩
  | otherwise _ hmaster hsame houtputs ih =>
    obtain ⟨height, hrising⟩ := ih (hsame ▸ hsize)
    exact ⟨height, fun id inlet hinlet => hrising id inlet (houtputs id ▸ hinlet)⟩

end InUse

/-- Whatever was built on a mixer and released, no primitive feeds itself through others, as long as
there are numbers for the primitives below that of the loudspeakers. So asking for outputs comes to
an end: the output of a primitive is made of those of its feeders alone, there are only finitely
many steps from a primitive back to its feeders and theirs, and the outputs and the values of
parameters that a rack gives are the only ones that agree with all feeders. -/
theorem InUse.wiring_acyclic [StandardsAccepted α] {m : Mixer α} (h : m.InUse)
    (hsize : m.rack.primitives.size ≤ Rack.destination) :
    (∀ id, ¬TransGen m.rack.Feeds id id) ∧
    WellFounded m.rack.Feeds ∧
    (∀ (t : α) (output? output?' : PrimitiveId → Option α) (id : PrimitiveId),
      (∀ source, m.rack.Feeds source id → output? source = output?' source) →
      m.rack.outputBy t output? id = m.rack.outputBy t output?' id ∧
      ∀ param, m.rack.effectiveBy t output? ⟨id, param⟩ =
        m.rack.effectiveBy t output?' ⟨id, param⟩) ∧
    ∀ (t : α) (output? : PrimitiveId → Option α),
      (∀ id, output? id = m.rack.outputBy t output? id) ↔
        (∀ id, output? id = m.rack.outputAt id t) ∧
        ∀ dial, m.rack.effectiveBy t output? dial = m.rack.effectiveAt dial t := by
  obtain ⟨height, hrising⟩ := h.exists_rising hsize
  refine ⟨hrising.acyclic, hrising.wellFounded, fun t output? output?' id hsame =>
    ⟨Rack.outputBy_congr hsame, fun param => Rack.effectiveBy_congr ⟨id, param⟩ hsame⟩,
    fun t output? => ⟨fun houtput => ?_, fun houtput id => ?_⟩⟩
  · obtain rfl : output? = (m.rack.outputAt · t) := funext (hrising.eq_outputAt houtput)
    exact ⟨fun _ => rfl, fun _ => rfl⟩
  · obtain rfl : output? = (m.rack.outputAt · t) := funext houtput.1
    exact hrising.outputAt_eq id

/-- A keyboard instrument that is heard. -/
def keyed : Graph Float :=
  .run .empty [.addNode .keyboardNote, .addNode .universalOutput,
    .connect ⟨"n1", "signal", "n2", "signal"⟩]

/-- Builds a graph and releases what was built. -/
def tried (m : Mixer Float) (g : Graph Float) : Mixer Float :=
  let m' := (m.build g .empty).2.1
  ((m.build g .empty).1.toOption.map m'.release).getD m'

theorem InUse.tried {m : Mixer Float} (h : m.InUse) {g : Graph Float} (hg : g.Reachable) :
    (m.tried g).InUse := by
  unfold Mixer.tried
  cases (m.build g .empty).1.toOption with
  | none => exact h.build hg .empty
  | some patch => exact (h.build hg .empty).release patch

/-- A graph with a circle is built in vain, then an instrument is built, released and built
again. -/
def reworked (m : Mixer Float) : Mixer Float :=
  (((m.tried .feedback).tried keyed).build keyed .empty).2.1

/-- The first gate of the second instrument feeds an output that was created before it. -/
theorem acyclic_reworked : ∃ m, Mixer.new (Rack.new 48000.0) 0.5 ⟨2.0, 1⟩ = .ok m ∧
    (reworked m).rack.primitives.size = 110 ∧ (reworked m).rack.outputsOf 58 = [.input 56] ∧
    ∀ id, ¬TransGen (reworked m).rack.Feeds id id := by
  obtain ⟨m, hm⟩ : ∃ m, Mixer.new (Rack.new 48000.0) 0.5 ⟨2.0, 1⟩ = .ok m := ⟨_, rfl⟩
  have hsize : (reworked m).rack.primitives.size = 110 := by cases hm; decide +kernel
  have hgate : (reworked m).rack.outputsOf 58 = [.input 56] := by cases hm; decide +kernel
  have hnumbers : (reworked m).rack.primitives.size ≤ Rack.destination := by
    rw [hsize]
    decide
  have hused : (reworked m).InUse :=
    (((InUse.new rfl hm).tried ⟨_, rfl⟩).tried ⟨_, rfl⟩).build ⟨_, rfl⟩ .empty
  exact ⟨m, hm, hsize, hgate, (InUse.wiring_acyclic hused hnumbers).1⟩

end Mixer

end Patchbay
