import Mathlib.Data.List.Nodup
import Mathlib.Data.List.Perm.Basic
/-!
# Rearranging lists

Wires are counted without regard to their order. These are the ways in which a list of wires is
regrouped: by a key, and from one loop inside another to the same loops the other way round.
-/

namespace Patchbay

variable {σ τ υ : Type}

/-- Grouping by a key loses nothing when every key is asked for once. -/
theorem flatMap_filter_perm [DecidableEq τ] (key : σ → τ) {keys : List τ} (hkeys : keys.Nodup)
    {l : List σ} (h : ∀ x ∈ l, key x ∈ keys) :
    (keys.flatMap fun k => l.filter (key · == k)).Perm l := by
  induction keys generalizing l with
  | nil =>
    have hl : l = [] :=
      List.eq_nil_iff_forall_not_mem.mpr fun x hx => absurd (h x hx) List.not_mem_nil
    rw [hl]
    exact .nil
  | cons k keys ih =>
    rw [List.nodup_cons] at hkeys
    rw [List.flatMap_cons]
    -- the other groups are those of what is left after the first
    have hrest : (keys.flatMap fun k' => l.filter (key · == k')) =
        keys.flatMap fun k' => (l.filter (!key · == k)).filter (key · == k') := by
      refine List.flatMap_congr fun k' hk' => ?_
      rw [List.filter_filter]
      refine List.filter_congr fun x _ => ?_
      by_cases hx : key x = k'
      · have hne : key x ≠ k := fun heq => hkeys.1 (heq ▸ hx ▸ hk')
        simp [hx, hx ▸ hne]
      · simp [hx]
    rw [hrest]
    refine List.Perm.trans (List.Perm.append_left _ (ih hkeys.2 fun x hx => ?_))
      (List.filter_append_perm _ l)
    obtain ⟨hx, hne⟩ := List.mem_filter.mp hx
    exact (List.mem_cons.mp (h x hx)).resolve_left (by simpa using hne)

/-- One loop inside another can be taken the other way round. -/
theorem flatMap_map_comm_perm (f : σ → τ → υ) (l : List σ) (m : List τ) :
    (l.flatMap fun a => m.map (f a)).Perm (m.flatMap fun b => l.map (f · b)) := by
  induction l with
  | nil => simp
  | cons a l ih =>
    rw [List.flatMap_cons]
    simp only [List.map_cons]
    exact (ih.append_left _).trans (List.map_append_flatMap_perm m _ _)

end Patchbay
