import Mathlib.Data.List.Nodup
import Patchbay.Kind
/-!
# Sockets by name

A socket is named in connections, so that no two sockets of a node on one side share a name is what
makes a connection mean one socket.
-/

namespace Patchbay.Kind

/-- No two input sockets of a kind share their name. -/
theorem inputs_nodup (k : Kind) : (k.inputs.map (·.name)).Nodup := by
  cases k <;> decide

/-- Looking an input socket up by its name finds exactly the socket of that name. -/
theorem input?_eq_some_iff {k : Kind} {name : String} {s : Socket} :
    k.input? name = some s ↔ s ∈ k.inputs ∧ s.name = name := by
  constructor
  · intro h
    exact ⟨List.mem_of_find?_eq_some h, by simpa using List.find?_some h⟩
  · rintro ⟨hs, rfl⟩
    obtain ⟨s', hs'⟩ := Option.isSome_iff_exists.mp
      (List.find?_isSome.mpr ⟨s, hs, beq_self_eq_true s.name⟩ :
        (k.inputs.find? (·.name == s.name)).isSome)
    have hname : s'.name = s.name := by simpa using List.find?_some hs'
    have hmem : s' ∈ k.inputs := List.mem_of_find?_eq_some hs'
    rw [input?, hs', List.inj_on_of_nodup_map k.inputs_nodup hmem hs hname]

/-- A socket has an inline value if connections replace the value of its parameter. -/
theorem inline_of_replaces {k : Kind} {s : Socket} (hs : s ∈ k.inputs) :
    s.combine.replaces = s.inline.isSome := by
  have hall : ∀ s ∈ k.inputs, s.combine.replaces = s.inline.isSome := by
    cases k <;> decide
  exact hall s hs

theorem ne_signal_of_inline {k : Kind} {s : Socket} (hs : s ∈ k.inputs)
    (hinline : s.inline.isSome) : s.combine ≠ .signal := fun hsignal => by
  rw [← inline_of_replaces hs, hsignal] at hinline
  cases hinline

end Patchbay.Kind
