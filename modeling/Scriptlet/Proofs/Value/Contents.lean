import Mathlib.Data.List.Perm.Subperm
import Scriptlet.OrderedMap

/-!
# Contents that are related place by place

What two containers hold may be related in each place: the items of two arrays at each position
(`array_rel_iff`), and the values of two maps at each name, whatever the order of the names
(`OrderedMap.rel_iff`). That is stated with `Option.Rel`: in a place, both containers hold values,
and these are related, or neither holds one.
-/

namespace Scriptlet

/-! ## What may be missing -/

section

variable {α β : Type} {R : α → β → Prop} {o : Option α} {o' : Option β} (h : Option.Rel R o o')
include h

theorem option_rel_getD {a : α} {b : β} (hab : R a b) : R (o.getD a) (o'.getD b) := by
  cases h with
  | none => exact hab
  | some h => exact h

theorem option_rel_map {γ δ : Type} {S : γ → δ → Prop} {f : α → γ} {g : β → δ}
    (hfg : ∀ a b, R a b → S (f a) (g b)) : Option.Rel S (o.map f) (o'.map g) := by
  cases h with
  | none => exact .none
  | some h => exact .some (hfg _ _ h)

theorem option_rel_imp {S : α → β → Prop} (hS : ∀ a b, R a b → S a b) : Option.Rel S o o' := by
  cases h with
  | none => exact .none
  | some h => exact .some (hS _ _ h)

theorem option_rel_swap {S : β → α → Prop} (hS : ∀ a b, R a b → S b a) : Option.Rel S o' o := by
  cases h with
  | none => exact .none
  | some h => exact .some (hS _ _ h)

theorem option_rel_cases :
    (o = none ∧ o' = none) ∨ ∃ a b, o = some a ∧ o' = some b ∧ R a b := by
  cases h with
  | none => exact .inl ⟨rfl, rfl⟩
  | some h => exact .inr ⟨_, _, rfl, rfl, h⟩

theorem option_rel_of_some {a : α} (ha : o = some a) : ∃ b, o' = some b ∧ R a b := by
  subst ha
  cases h with
  | some h => exact ⟨_, rfl, h⟩

end

theorem option_rel_forall {α β : Type} {R : Nat → α → β → Prop} {o : Option α} {o' : Option β}
    (h : ∀ n, Option.Rel (R n) o o') : Option.Rel (fun a b => ∀ n, R n a b) o o' := by
  have hfirst := h 0
  cases o with
  | none =>
    cases hfirst
    exact .none
  | some a =>
    obtain ⟨b, rfl, -⟩ := option_rel_of_some hfirst rfl
    refine .some fun n => ?_
    cases h n with
    | some hab => exact hab

/-- A relation that is transitive on `P` is so on optional values with `P`. -/
theorem option_rel_trans {α : Type} {R : α → α → Prop} {P : α → Prop}
    (hR : ∀ x y z, P x → P y → P z → R x y → R y z → R x z) {a b c : Option α}
    (ha : ∀ x, a = some x → P x) (hb : ∀ x, b = some x → P x) (hc : ∀ x, c = some x → P x)
    (hab : Option.Rel R a b) (hbc : Option.Rel R b c) : Option.Rel R a c := by
  cases hab with
  | none => exact hbc
  | some hxy =>
    cases hbc with
    | some hyz => exact .some (hR _ _ _ (ha _ rfl) (hb _ rfl) (hc _ rfl) hxy hyz)

/-! ## Arrays -/

/-- Two arrays are related at each position if they have one size and are related pairwise. -/
theorem array_rel_iff {α : Type} {R : α → α → Prop} {as bs : Array α} :
    (∀ i : Nat, Option.Rel R as[i]? bs[i]?) ↔
      as.size = bs.size ∧ ∀ p ∈ as.toList.zip bs.toList, R p.1 p.2 := by
  simp only [← Array.length_toList, ← Array.getElem?_toList]
  generalize as.toList = as
  generalize bs.toList = bs
  induction as generalizing bs with
  | nil =>
    cases bs with
    | nil => exact iff_of_true (fun _ => .none) ⟨rfl, nofun⟩
    | cons b bs => exact iff_of_false (fun hrel => nomatch hrel 0) (fun hzip => nomatch hzip.1)
  | cons a as ih =>
    cases bs with
    | nil => exact iff_of_false (fun hrel => nomatch hrel 0) (fun hzip => nomatch hzip.1)
    | cons b bs =>
      rw [List.zip_cons_cons, List.forall_mem_cons, List.length_cons, List.length_cons,
        Nat.succ_inj, and_left_comm, ← ih]
      constructor
      · intro hrel
        obtain ⟨_, hb, hab⟩ := option_rel_of_some (hrel 0) rfl
        cases hb
        exact ⟨hab, fun i => hrel (i + 1)⟩
      · rintro ⟨hab, hrel⟩ (_ | i)
        · exact .some hab
        · exact hrel i

/-! ## Maps -/

namespace OrderedMap

variable {α : Type} {m m' : OrderedMap α}

theorem get?_of_mem {e : String × α} (he : e ∈ m.entries) : m.get? e.1 = some e.2 := by
  obtain ⟨entries, hnodup⟩ := m
  rw [OrderedMap.get?]
  dsimp only at he ⊢
  induction entries with
  | nil => cases he
  | cons e' rest ih =>
    rw [List.map_cons, List.nodup_cons] at hnodup
    obtain ⟨k, v⟩ := e'
    obtain rfl | he := List.mem_cons.mp he
    · exact List.lookup_cons_self
    · have hmem : e.1 ∈ rest.map Prod.fst := List.mem_map_of_mem he
      have hne : e.1 ≠ k := fun heq => hnodup.1 (heq ▸ hmem)
      rw [List.lookup_cons, beq_false_of_ne hne]
      exact ih hnodup.2 he

theorem mem_of_get? {key : String} {a : α} (ha : m.get? key = some a) : (key, a) ∈ m.entries := by
  obtain ⟨before, after, hentries, -⟩ := List.lookup_eq_some_iff.mp ha
  rw [hentries]
  exact List.mem_append_right before List.mem_cons_self

theorem mem_keys_iff {key : String} : key ∈ m.keys ↔ ∃ a, m.get? key = some a := by
  constructor
  · intro hkey
    obtain ⟨e, he, rfl⟩ := List.mem_map.mp hkey
    exact ⟨e.2, get?_of_mem he⟩
  · rintro ⟨a, ha⟩
    exact List.mem_map.mpr ⟨(key, a), mem_of_get? ha, rfl⟩

theorem length_keys : m.keys.length = m.size := List.length_map Prod.fst

/-- A map with all names of another one, and no more of them, has the same names. -/
theorem keys_subset (hsize : m.size = m'.size) (hkeys : m.keys ⊆ m'.keys) : m'.keys ⊆ m.keys := by
  have hsubperm : m.keys.Subperm m'.keys := List.subperm_of_subset m.nodup hkeys
  have hlength : m'.keys.length = m.keys.length := by
    rw [length_keys, length_keys, hsize]
  exact (hsubperm.perm_of_length_le (Nat.le_of_eq hlength)).symm.subset

/-- Two maps are related at each name if they have one size, and one has all names of the other with
related values. -/
theorem rel_iff {R : α → α → Prop} :
    (∀ key, Option.Rel R (m.get? key) (m'.get? key)) ↔
      m.size = m'.size ∧ ∀ e ∈ m.entries, ∃ y, m'.get? e.1 = some y ∧ R e.2 y := by
  constructor
  · intro hrel
    have hkeys (key : String) : key ∈ m.keys ↔ key ∈ m'.keys := by
      have hkey := hrel key
      rw [mem_keys_iff, mem_keys_iff]
      constructor
      · rintro ⟨a, ha⟩
        obtain ⟨b, hb, -⟩ := option_rel_of_some hkey ha
        exact ⟨b, hb⟩
      · rintro ⟨b, hb⟩
        obtain ⟨a, ha, -⟩ := option_rel_of_some (option_rel_swap (S := flip R) hkey fun _ _ => id) hb
        exact ⟨a, ha⟩
    have hperm : m.keys.Perm m'.keys := (List.perm_ext_iff_of_nodup m.nodup m'.nodup).mpr hkeys
    refine ⟨?_, fun e he => option_rel_of_some (hrel e.1) (get?_of_mem he)⟩
    rw [← length_keys, ← length_keys, hperm.length_eq]
  · rintro ⟨hsize, hvalues⟩ key
    have hkeys : m.keys ⊆ m'.keys := by
      intro key hkey
      obtain ⟨e, he, rfl⟩ := List.mem_map.mp hkey
      obtain ⟨y, hy, -⟩ := hvalues e he
      exact mem_keys_iff.mpr ⟨y, hy⟩
    cases hx : m.get? key with
    | some x =>
      obtain ⟨y, hy, hxy⟩ := hvalues (key, x) (mem_of_get? hx)
      rw [hy]
      exact .some hxy
    | none =>
      cases hy : m'.get? key with
      | none => exact .none
      | some y =>
        obtain ⟨x, hx'⟩ := mem_keys_iff.mp (keys_subset hsize hkeys (mem_keys_iff.mpr ⟨y, hy⟩))
        rw [hx] at hx'
        cases hx'

end OrderedMap

end Scriptlet
