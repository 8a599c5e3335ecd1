import Mathlib.Data.List.Perm.Subperm
import Scriptlet.Environment

/-!
# Searches for a name

A name is looked for in as many scopes as there are. A higher bound gives nothing else
(`Environment.findWithin_of_le`): a search that meets a scope again finds nothing further on, and
the scopes that it has met are a list without duplicates, which is not longer than there are
scopes.
-/

namespace Scriptlet

namespace Environment

variable {e : Environment} {x : String}

/-- Scopes that do not bind the name and lie in each other: the search never leaves them. -/
theorem findWithin_of_closed {met : List (Ref .scope)}
    (hfree : ∀ r ∈ met, (e.bindings r).get? x = none)
    (hclosed : ∀ r ∈ met, ∀ p, e.parent? r = some p → p ∈ met) (fuel : Nat) {r : Ref .scope}
    (hr : r ∈ met) : e.findWithin x fuel r = none := by
  induction fuel generalizing r with
  | zero => rfl
  | succ fuel ih =>
    rw [findWithin, hfree r hr]
    cases hp : e.parent? r with
    | none => rfl
    | some p => exact ih (hclosed r hr p hp)

/-- The scopes that a search has met on its way to `r`. -/
structure Met (e : Environment) (x : String) (met : List (Ref .scope)) (r : Ref .scope) : Prop where
  nodup : met.Nodup
  stored : ∀ s ∈ met, s.index < e.scopes.size
  free : ∀ s ∈ met, (e.bindings s).get? x = none
  parent : ∀ s ∈ met, ∀ p, e.parent? s = some p → p ∈ r :: met

theorem Met.length_lt {met : List (Ref .scope)} {r : Ref .scope} (h : e.Met x met r)
    (hr : r ∉ met) (hstored : r.index < e.scopes.size) : met.length < e.scopes.size := by
  have hnodup : (r :: met).Nodup := List.nodup_cons.mpr ⟨hr, h.nodup⟩
  have hsubset : r :: met ⊆ (List.range e.scopes.size).map Ref.mk := by
    intro s hs
    have hlt : s.index < e.scopes.size := by
      obtain rfl | hs := List.mem_cons.mp hs
      · exact hstored
      · exact h.stored s hs
    exact List.mem_map.mpr ⟨s.index, List.mem_range.mpr hlt, rfl⟩
  have hlength := (List.subperm_of_subset hnodup hsubset).length_le
  rw [List.length_map, List.length_range] at hlength
  exact hlength

theorem index_lt_of_parent {r p : Ref .scope} (h : e.parent? r = some p) :
    r.index < e.scopes.size := by
  obtain ⟨s, hs, -⟩ := Option.bind_eq_some_iff.mp h
  exact (Array.getElem?_eq_some_iff.mp hs).1

/-- A search that meets a scope again finds nothing. -/
theorem Met.findWithin {met : List (Ref .scope)} {r : Ref .scope} (h : e.Met x met r)
    (hr : r ∈ met) (fuel : Nat) : e.findWithin x fuel r = none := by
  refine findWithin_of_closed h.free (fun s hs p hp => ?_) fuel hr
  obtain rfl | hmem := List.mem_cons.mp (h.parent s hs p hp)
  · exact hr
  · exact hmem

theorem Met.outward {met : List (Ref .scope)} {r p : Ref .scope} (h : e.Met x met r) (hr : r ∉ met)
    (hfree : (e.bindings r).get? x = none) (hp : e.parent? r = some p) :
    e.Met x (r :: met) p where
  nodup := List.nodup_cons.mpr ⟨hr, h.nodup⟩
  stored := List.forall_mem_cons.mpr ⟨index_lt_of_parent hp, h.stored⟩
  free := List.forall_mem_cons.mpr ⟨hfree, h.free⟩
  parent := by
    refine List.forall_mem_cons.mpr ⟨fun q hq => ?_, fun s hs q hq => ?_⟩
    · rw [hp] at hq
      cases hq
      exact List.mem_cons_self
    · exact List.mem_cons_of_mem _ (h.parent s hs q hq)

theorem findWithin_of_missing {r : Ref .scope} (h : ¬ r.index < e.scopes.size) (fuel : Nat) :
    e.findWithin x fuel r = none := by
  have hmissing : e.scopes.get? r = none := Array.getElem?_eq_none (Nat.le_of_not_lt h)
  have hbindings : e.bindings r = .empty := by
    rw [bindings, hmissing]
    rfl
  have hparent : e.parent? r = none := by
    rw [parent?, hmissing]
    rfl
  cases fuel with
  | zero => rfl
  | succ fuel =>
    rw [findWithin, hbindings, hparent]
    rfl

theorem Met.findWithin_add {met : List (Ref .scope)} {r : Ref .scope} (h : e.Met x met r)
    {fuel : Nat} (hfuel : e.scopes.size ≤ fuel + met.length) (more : Nat) :
    e.findWithin x (fuel + more) r = e.findWithin x fuel r := by
  induction fuel generalizing met r with
  | zero =>
    by_cases hr : r ∈ met
    · rw [h.findWithin hr, h.findWithin hr]
    · have hmissing : ¬ r.index < e.scopes.size := fun hlt => by
        have := h.length_lt hr hlt
        omega
      rw [findWithin_of_missing hmissing, findWithin_of_missing hmissing]
  | succ fuel ih =>
    by_cases hr : r ∈ met
    · rw [h.findWithin hr, h.findWithin hr]
    · rw [Nat.add_right_comm, Environment.findWithin, Environment.findWithin]
      cases hb : (e.bindings r).get? x with
      | some b => rfl
      | none =>
        cases hp : e.parent? r with
        | none => rfl
        | some p =>
          refine ih (h.outward hr hb hp) ?_
          rw [List.length_cons]
          omega

/-- A search through more scopes than there are finds nothing else. -/
theorem findWithin_of_le {fuel : Nat} (hfuel : e.scopes.size ≤ fuel) (r : Ref .scope) (x : String) :
    e.findWithin x fuel r = e.find? r x := by
  have hmet : e.Met x [] r := ⟨List.nodup_nil, nofun, nofun, nofun⟩
  obtain ⟨more, rfl⟩ := Nat.exists_eq_add_of_le hfuel
  exact hmet.findWithin_add (Nat.le_refl _) more

end Environment

end Scriptlet
