import Mathlib.Data.List.Nodup
import Scriptlet.Environment

/-!
# Scopes and their bindings

What the operations on environments do to the bindings of each scope and to where it
lies, and how a name is found: `find?` goes outward from a scope to the first one that
binds the name, and binding the name there is seen from the scope it started in
(`findWithin_defineIn`).

`Kept names grows b b'` compares the bindings of a scope before and after: the names stay
in their order, and a name not in `names` keeps its mode, and its value if it is a
constant. New names stand behind the others; they are in `names`, or, if `grows`, bound
as mutable.
-/

namespace Scriptlet

namespace Environment

variable (e : Environment)

theorem bindings_defineIn {r : Ref .scope} (hr : r.index < e.scopes.size) (x : String) (v : Value)
    (mode : Mode) (r' : Ref .scope) : (e.defineIn r x v mode).bindings r' =
      if r' = r then (e.bindings r).insert x ⟨v, mode⟩ else e.bindings r' := by
  unfold bindings defineIn
  rw [Store.get?_modify]
  split
  · next h =>
    subst h
    have hcell : ∃ s, e.scopes.get? r' = some s := ⟨_, Array.getElem?_eq_getElem hr⟩
    obtain ⟨s, hs⟩ := hcell
    rw [hs]
    rfl
  · rfl

theorem parent?_defineIn (r : Ref .scope) (x : String) (v : Value) (mode : Mode)
    (r' : Ref .scope) : (e.defineIn r x v mode).parent? r' = e.parent? r' := by
  unfold parent? defineIn
  rw [Store.get?_modify]
  split
  · cases e.scopes.get? r' <;> rfl
  · rfl

theorem size_defineIn (r : Ref .scope) (x : String) (v : Value) (mode : Mode) :
    (e.defineIn r x v mode).scopes.size = e.scopes.size :=
  Store.size_modify e.scopes r _

theorem get?_next : e.scopes.get? e.scopes.next = none :=
  Array.getElem?_eq_none (Nat.le_refl _)

/-- A new scope binds nothing, as a scope that there is not. -/
theorem bindings_newScope (parent : Option (Ref .scope)) (r : Ref .scope) :
    (e.newScope parent).2.bindings r = e.bindings r := by
  unfold bindings newScope
  rw [Store.get?_alloc]
  split
  · next h =>
    rw [h, get?_next]
    rfl
  · rfl

theorem parent?_newScope (parent : Option (Ref .scope)) (r : Ref .scope) :
    (e.newScope parent).2.parent? r = if r = e.scopes.next then parent else e.parent? r := by
  unfold parent? newScope
  rw [Store.get?_alloc]
  split
  · rfl
  · rfl

theorem size_newScope (parent : Option (Ref .scope)) :
    (e.newScope parent).2.scopes.size = e.scopes.size + 1 :=
  Store.size_alloc e.scopes _

variable {e}

/-! ## Finding a name -/

/-- What is found is bound in the scope where it is found. -/
theorem get?_of_findWithin {x : String} {fuel : Nat} {r owner : Ref .scope} {b : Binding}
    (h : e.findWithin x fuel r = some (owner, b)) : (e.bindings owner).get? x = some b := by
  induction fuel generalizing r with
  | zero => cases h
  | succ fuel ih =>
    unfold findWithin at h
    split at h
    · rename_i b' hb
      cases h
      exact hb
    · split at h
      · exact ih h
      · cases h

/-- Binding a name where it is found replaces what is found. -/
theorem findWithin_defineIn {x : String} {fuel : Nat} {r owner : Ref .scope} {b : Binding}
    (howner : owner.index < e.scopes.size) (h : e.findWithin x fuel r = some (owner, b)) (v : Value)
    (mode : Mode) :
    (e.defineIn owner x v mode).findWithin x fuel r = some (owner, ⟨v, mode⟩) := by
  have hbound := get?_of_findWithin h
  induction fuel generalizing r with
  | zero => cases h
  | succ fuel ih =>
    unfold findWithin at h ⊢
    rw [bindings_defineIn e howner, parent?_defineIn]
    by_cases hr : r = owner
    · rw [if_pos hr, OrderedMap.get?_insert, if_pos rfl, hr]
    · rw [if_neg hr]
      split at h
      · cases h
        exact absurd rfl hr
      · split at h
        · exact ih h
        · cases h

theorem find?_defineIn {x : String} {r owner : Ref .scope} {b : Binding}
    (howner : owner.index < e.scopes.size) (h : e.find? r x = some (owner, b)) (v : Value)
    (mode : Mode) : (e.defineIn owner x v mode).find? r x = some (owner, ⟨v, mode⟩) := by
  unfold find?
  rw [size_defineIn]
  exact findWithin_defineIn howner h v mode

end Environment

/-! ## Going outward -/

/-- Going outward from a scope, each time to an older one, leads to `last`. -/
inductive Environment.LeadsTo (e : Environment) (last : Ref .scope) : Ref .scope → Prop
  | here : e.LeadsTo last last
  | outward {r p : Ref .scope} : e.parent? r = some p → p.index < r.index → e.LeadsTo last p →
    e.LeadsTo last r

namespace Environment.LeadsTo

variable {e e' : Environment} {last r : Ref .scope}

/-- Where scopes lie depends on nothing but `parent?`. -/
theorem of_parents (h : e.LeadsTo last r)
    (hparent : ∀ r p, e.parent? r = some p → e'.parent? r = some p) : e'.LeadsTo last r := by
  induction h with
  | here => exact .here
  | outward hp hlt _ ih => exact .outward (hparent _ _ hp) hlt ih

/-- As many scopes as there are are enough to go all the way. -/
theorem chainWithin (h : e.LeadsTo last r) (hlast : e.parent? last = none) {fuel : Nat}
    (hfuel : r.index < fuel) : (e.chainWithin fuel r).getLast? = some last := by
  induction h generalizing fuel with
  | here =>
    obtain ⟨fuel, rfl⟩ : ∃ n, fuel = n + 1 := ⟨fuel - 1, by omega⟩
    unfold Environment.chainWithin
    rw [hlast]
    rfl
  | @outward r p hp hlt _ ih =>
    obtain ⟨fuel, rfl⟩ : ∃ n, fuel = n + 1 := ⟨fuel - 1, by omega⟩
    unfold Environment.chainWithin
    rw [hp, List.getLast?_cons, ih (by omega)]
    rfl

/-- A name that is not found is not bound at the end of the way, and is found there once it is. -/
theorem findWithin_defineIn (h : e.LeadsTo last r) (hlast : last.index < e.scopes.size)
    {x : String} {fuel : Nat} (hfuel : r.index < fuel) (hnone : e.findWithin x fuel r = none)
    (v : Value) (mode : Mode) : (e.bindings last).get? x = none ∧
      (e.defineIn last x v mode).findWithin x fuel r = some (last, ⟨v, mode⟩) := by
  induction h generalizing fuel with
  | here =>
    obtain ⟨fuel, rfl⟩ : ∃ n, fuel = n + 1 := ⟨fuel - 1, by omega⟩
    unfold Environment.findWithin at hnone ⊢
    rw [bindings_defineIn e hlast, if_pos rfl, OrderedMap.get?_insert, if_pos rfl]
    split at hnone
    · cases hnone
    · exact ⟨‹_›, rfl⟩
  | @outward r p hp hlt _ ih =>
    obtain ⟨fuel, rfl⟩ : ∃ n, fuel = n + 1 := ⟨fuel - 1, by omega⟩
    unfold Environment.findWithin at hnone ⊢
    rw [hp] at hnone
    rw [bindings_defineIn e hlast, parent?_defineIn, hp]
    split at hnone
    · cases hnone
    · rename_i hunbound
      obtain ⟨hglobal, hfound⟩ := ih (by omega) hnone
      refine ⟨hglobal, ?_⟩
      by_cases hr : r = last
      · rw [if_pos hr, OrderedMap.get?_insert, if_pos rfl, hr]
      · rw [if_neg hr, hunbound]
        exact hfound

theorem find?_defineIn (h : e.LeadsTo last r) (hlast : last.index < e.scopes.size)
    (hr : r.index < e.scopes.size) {x : String} (hnone : e.find? r x = none) (v : Value)
    (mode : Mode) : (e.bindings last).get? x = none ∧
      (e.defineIn last x v mode).find? r x = some (last, ⟨v, mode⟩) := by
  unfold Environment.find?
  rw [Environment.size_defineIn]
  exact h.findWithin_defineIn hlast hr hnone v mode

end Environment.LeadsTo

/-! ## Bindings that are kept -/

theorem OrderedMap.get?_eq_none_iff {α : Type} {m : OrderedMap α} {x : String} :
    m.get? x = none ↔ x ∉ m.keys := by
  unfold OrderedMap.get? OrderedMap.keys
  rw [List.lookup_eq_none_iff]
  constructor
  · rintro h hx
    obtain ⟨e, he, rfl⟩ := List.mem_map.mp hx
    simpa using h e he
  · intro h e he
    rw [bne_iff_ne]
    rintro rfl
    exact h (List.mem_map_of_mem he)

theorem OrderedMap.mem_keys {α : Type} {m : OrderedMap α} {x : String} {a : α}
    (h : m.get? x = some a) : x ∈ m.keys := by
  by_contra hx
  rw [OrderedMap.get?_eq_none_iff.mpr hx] at h
  cases h

/-- The bindings of a scope before and after. -/
structure Kept (names : List String) (grows : Prop) (b b' : OrderedMap Binding) : Prop where
  keys : b.keys <+: b'.keys
  binding {x : String} {c : Binding} : b.get? x = some c → x ∉ names →
    ∃ c', b'.get? x = some c' ∧ c'.mode = c.mode ∧ (c.mode = .constant → c' = c)
  fresh {x : String} {c' : Binding} : b'.get? x = some c' → b.get? x = none →
    x ∈ names ∨ (grows ∧ c'.mode = .mutable)

namespace Kept

variable {names names' : List String} {grows : Prop} {b b' b'' : OrderedMap Binding}

theorem refl (names : List String) (grows : Prop) (b : OrderedMap Binding) :
    Kept names grows b b where
  keys := List.prefix_rfl
  binding hc _ := ⟨_, hc, rfl, fun _ => rfl⟩
  fresh hc hnone := by
    rw [hnone] at hc
    cases hc

theorem trans (h : Kept names grows b b') (h' : Kept names grows b' b'') :
    Kept names grows b b'' where
  keys := h.keys.trans h'.keys
  binding hc hx := by
    obtain ⟨c', hc', hmode, hvalue⟩ := h.binding hc hx
    obtain ⟨c'', hc'', hmode', hvalue'⟩ := h'.binding hc' hx
    refine ⟨c'', hc'', hmode'.trans hmode, fun hconst => ?_⟩
    rw [hvalue' (hmode.trans hconst), hvalue hconst]
  fresh {x c''} hc'' hnone := by
    cases hc' : b'.get? x with
    | none => exact h'.fresh hc'' hc'
    | some c' =>
      by_cases hx : x ∈ names
      · exact .inl hx
      · obtain ⟨d, hd, hmode, -⟩ := h'.binding hc' hx
        rw [hc''] at hd
        cases hd
        refine (h.fresh hc' hnone).imp_right fun ⟨hgrows, hmutable⟩ => ⟨hgrows, ?_⟩
        exact hmode.trans hmutable

theorem mono (h : Kept names grows b b') (hnames : names ⊆ names') : Kept names' grows b b' where
  keys := h.keys
  binding hc hx := h.binding hc fun hmem => hx (hnames hmem)
  fresh hc hnone := (h.fresh hc hnone).imp_left fun hmem => hnames hmem

/-- Declaring a name. -/
theorem insert_declared {x : String} (hx : x ∈ names) (c : Binding) :
    Kept names grows b (b.insert x c) where
  keys := by
    rw [OrderedMap.keys_insert]
    split
    · exact List.prefix_rfl
    · exact List.prefix_append _ _
  binding {y d} hd hy := by
    refine ⟨d, ?_, rfl, fun _ => rfl⟩
    have hne : y ≠ x := fun h => hy (h ▸ hx)
    rw [OrderedMap.get?_insert, if_neg hne]
    exact hd
  fresh {y d} hd hnone := by
    rw [OrderedMap.get?_insert] at hd
    split at hd
    · rename_i h
      exact .inl (h ▸ hx)
    · rw [hnone] at hd
      cases hd

/-- Assigning to a name that is bound as mutable. -/
theorem insert_mutable {x : String} {c : Binding} (hc : b.get? x = some c)
    (hmode : c.mode = .mutable) (v : Value) :
    Kept names grows b (b.insert x ⟨v, .mutable⟩) where
  keys := by
    have hkeys : (b.insert x ⟨v, .mutable⟩).keys = b.keys := by
      rw [OrderedMap.keys_insert, if_pos (OrderedMap.mem_keys hc)]
    exact hkeys ▸ List.prefix_rfl
  binding {y d} hd _ := by
    rw [OrderedMap.get?_insert]
    split
    · rename_i h
      rw [h, hc] at hd
      cases hd
      refine ⟨_, rfl, hmode.symm, fun hconst => ?_⟩
      rw [hmode] at hconst
      cases hconst
    · exact ⟨d, hd, rfl, fun _ => rfl⟩
  fresh {y d} hd hnone := by
    rw [OrderedMap.get?_insert] at hd
    split at hd
    · rename_i h
      rw [h, hc] at hnone
      cases hnone
    · rw [hnone] at hd
      cases hd

/-- Assigning to a name that is bound nowhere. -/
theorem insert_fresh {x : String} (hgrows : grows) (hx : b.get? x = none) (v : Value) :
    Kept names grows b (b.insert x ⟨v, .mutable⟩) where
  keys := by
    rw [OrderedMap.keys_insert]
    split
    · exact List.prefix_rfl
    · exact List.prefix_append _ _
  binding {y d} hd _ := by
    refine ⟨d, ?_, rfl, fun _ => rfl⟩
    rw [OrderedMap.get?_insert, if_neg]
    · exact hd
    · rintro rfl
      rw [hx] at hd
      cases hd
  fresh {y d} hd hnone := by
    rw [OrderedMap.get?_insert] at hd
    split at hd
    · cases hd
      exact .inr ⟨hgrows, rfl⟩
    · rw [hnone] at hd
      cases hd

/-- The new names stand behind the old ones. -/
theorem exists_keys (h : Kept [] grows b b') : ∃ new, b'.keys = b.keys ++ new ∧
    ∀ x ∈ new, grows ∧ ∃ c, b'.get? x = some c ∧ c.mode = .mutable := by
  obtain ⟨new, hnew⟩ := h.keys
  refine ⟨new, hnew.symm, fun x hx => ?_⟩
  -- The names are distinct, so a new name is not an old one.
  have hdistinct : (b.keys ++ new).Nodup := hnew ▸ b'.nodup
  have hx' : x ∉ b.keys := fun hold => List.disjoint_of_nodup_append hdistinct hold hx
  have hbound : x ∈ b'.keys := hnew ▸ List.mem_append_right b.keys hx
  cases hc : b'.get? x with
  | none => exact absurd hbound (OrderedMap.get?_eq_none_iff.mp hc)
  | some c =>
    obtain ⟨hgrows, hmode⟩ := (h.fresh hc (OrderedMap.get?_eq_none_iff.mpr hx')).resolve_left
      List.not_mem_nil
    exact ⟨hgrows, c, rfl, hmode⟩

/-- Where nothing may be declared and nothing grows, the names are the same. -/
theorem keys_eq (h : Kept [] False b b') : b'.keys = b.keys := by
  obtain ⟨new, hnew, hgrows⟩ := h.exists_keys
  cases new with
  | nil => rw [hnew, List.append_nil]
  | cons x new => exact (hgrows x List.mem_cons_self).1.elim

end Kept

end Scriptlet
