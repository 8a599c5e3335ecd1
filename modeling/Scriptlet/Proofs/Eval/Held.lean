import Scriptlet.Access
import Scriptlet.Machine
import Scriptlet.Operator

/-!
# The routines that a machine holds

A function can be kept anywhere: bound in a scope, in an array, an object or a
field of an instance; and a class keeps the routines of its methods. `Machine.Holds
P m` says that the routine of everything kept in `m` satisfies `P`. Every way to
read a machine gives values with such routines, and every change that stores only
such values keeps it.

A function holds its own routine and those of the value that it is bound to. Values
other than functions hold no routine: an array or an instance is a reference, and what
it refers to is part of the machine.
-/

namespace Scriptlet

/-- Everything in the store satisfies `P`. -/
def Store.All {s : CellSort} {α : Type} (P : α → Prop) (st : Store s α) : Prop :=
  ∀ r a, st.get? r = some a → P a

namespace Store.All

variable {s : CellSort} {α : Type} {P : α → Prop} {st : Store s α}

theorem empty : (Store.empty : Store s α).All P := by
  intro r a h
  simp [Store.get?, Store.empty] at h

theorem alloc (h : st.All P) {a : α} (ha : P a) : (st.alloc a).All P := by
  intro r b hb
  rw [Store.get?_alloc] at hb
  split at hb
  · cases hb
    exact ha
  · exact h r b hb

theorem modify (h : st.All P) {r : Ref s} {f : α → α} (hf : ∀ a, P a → P (f a)) :
    (st.modify r f).All P := by
  intro r' b hb
  rw [Store.get?_modify] at hb
  split at hb
  · obtain ⟨a, ha, rfl⟩ := Option.map_eq_some_iff.mp hb
    exact hf a (h r' a ha)
  · exact h r' b hb

/-- What is read from a cell, or instead of one that does not exist. -/
theorem getD (h : st.All P) (r : Ref s) {d : α} (hd : P d) : P ((st.get? r).getD d) := by
  cases hr : st.get? r with
  | none => exact hd
  | some a => exact h r a hr

end Store.All

/-- Every value in the map satisfies `P`. -/
def OrderedMap.All {α : Type} (P : α → Prop) (m : OrderedMap α) : Prop :=
  ∀ key a, m.get? key = some a → P a

namespace OrderedMap.All

variable {α : Type} {P : α → Prop} {m : OrderedMap α}

theorem empty : (OrderedMap.empty : OrderedMap α).All P := by
  intro key a h
  cases h

theorem insert (h : m.All P) (key : String) {a : α} (ha : P a) : (m.insert key a).All P := by
  intro other b hb
  rw [OrderedMap.get?_insert] at hb
  split at hb
  · cases hb
    exact ha
  · exact h other b hb

theorem ofList {pairs : List (String × α)} (h : ∀ p ∈ pairs, P p.2) :
    (OrderedMap.ofList pairs).All P := by
  have hfold : ∀ (pairs : List (String × α)) (m : OrderedMap α), (∀ p ∈ pairs, P p.2) → m.All P →
      (pairs.foldl (fun m p => m.insert p.1 p.2) m).All P := by
    intro pairs
    induction pairs with
    | nil => exact fun m _ hm => hm
    | cons p pairs ih =>
      intro m hp hm
      obtain ⟨hp, hps⟩ := List.forall_mem_cons.mp hp
      exact ih _ hps (hm.insert p.1 hp)
  exact hfold pairs _ h empty

end OrderedMap.All

/-- If the value is a function, its routine and those of the value it is bound to satisfy `P`. -/
def Value.Has (P : Routine → Prop) : Value → Prop
  | .function ⟨_, r, _, receiver, _⟩ =>
    P r ∧ match receiver with
      | some v => v.Has P
      | none => True
  | _ => True

theorem Value.has_function {P : Routine → Prop} {f : Function} :
    (Value.function f).Has P ↔ P f.routine ∧ ∀ v, f.receiver = some v → v.Has P := by
  obtain ⟨p, r, s, _ | v, n⟩ := f <;> simp [Value.Has]

theorem Value.has_undefined {P : Routine → Prop} : Value.undefined.Has P := trivial

/-- The routines of all functions and methods kept in the heap satisfy `P`. -/
structure Heap.Holds (P : Routine → Prop) (h : Heap) : Prop where
  arrays : h.arrays.All fun items => ∀ v ∈ items, v.Has P
  objects : h.objects.All fun entries => entries.All (Value.Has P)
  instances : h.instances.All fun i => i.fields.All (Value.Has P)
  classes : h.classes.All fun c => c.methods.All P

/-- The routines of all functions bound in a scope satisfy `P`. -/
def Environment.Holds (P : Routine → Prop) (e : Environment) : Prop :=
  e.scopes.All fun s => s.bindings.All fun b => b.value.Has P

/-- The routines of all functions and methods that the machine keeps satisfy `P`. -/
structure Machine.Holds (P : Routine → Prop) (m : Machine) : Prop where
  env : m.env.Holds P
  heap : m.heap.Holds P

variable {P : Routine → Prop}

/-! ## Environments -/

namespace Environment.Holds

variable {e : Environment}

theorem defineIn (h : e.Holds P) (r : Ref .scope) (x : String) {v : Value} (hv : v.Has P)
    (mode : Mode) : (e.defineIn r x v mode).Holds P :=
  Store.All.modify h fun _ hs => hs.insert x hv

theorem newScope (h : e.Holds P) (parent : Option (Ref .scope)) : (e.newScope parent).2.Holds P :=
  Store.All.alloc h OrderedMap.All.empty

theorem new (limit : Nat) : (Environment.new limit).Holds P :=
  Store.All.alloc Store.All.empty OrderedMap.All.empty

theorem install (h : e.Holds P) (p : Primitive) : (e.install p).Holds P :=
  Store.All.modify h fun _ hs => hs.insert p.name trivial

/-- Built-in functions have no routines. -/
theorem installAll (h : e.Holds P) (ps : List Primitive) :
    (ps.foldl Environment.install e).Holds P := by
  induction ps generalizing e with
  | nil => exact h
  | cons p ps ih => exact ih (h.install p)

theorem withPrelude (limit : Nat) : (Environment.withPrelude limit).Holds P :=
  (new limit).installAll Environment.standardPrimitives

theorem findWithin (h : e.Holds P) {x : String} {fuel : Nat} {r r' : Ref .scope} {b : Binding}
    (hb : e.findWithin x fuel r = some (r', b)) : b.value.Has P := by
  induction fuel generalizing r with
  | zero => cases hb
  | succ fuel ih =>
    have hs : (e.bindings r).All fun b => b.value.Has P := by
      unfold Environment.bindings
      cases hr : e.scopes.get? r with
      | none => exact OrderedMap.All.empty
      | some s => exact h r s hr
    unfold Environment.findWithin at hb
    split at hb
    · rename_i hx
      cases hb
      exact hs x b hx
    · split at hb
      · exact ih hb
      · cases hb

theorem lookup (h : e.Holds P) {x : String} {v : Value} (hv : e.lookup? x = some v) : v.Has P := by
  obtain ⟨⟨r, b⟩, hb, rfl⟩ := Option.map_eq_some_iff.mp hv
  exact h.findWithin hb

end Environment.Holds

/-! ## Heaps -/

namespace Heap.Holds

variable {h : Heap}

theorem empty : Heap.empty.Holds P where
  arrays := Store.All.empty
  objects := Store.All.empty
  instances := Store.All.empty
  classes := Store.All.empty

theorem items (hh : h.Holds P) (r : Ref .array) : ∀ v ∈ h.items r, v.Has P :=
  hh.arrays.getD r fun _ hv => absurd hv (Array.not_mem_empty _)

theorem entries (hh : h.Holds P) (r : Ref .object) : (h.entries r).All (Value.Has P) :=
  hh.objects.getD r OrderedMap.All.empty

theorem fields (hh : h.Holds P) (r : Ref .inst) : (h.inst r).fields.All (Value.Has P) :=
  hh.instances.getD r OrderedMap.All.empty

theorem methods (hh : h.Holds P) (r : Ref .klass) : (h.klass r).methods.All P :=
  hh.classes.getD r OrderedMap.All.empty

/-- A method that is bound to a value is one of the class. -/
theorem method (hh : h.Holds P) {r : Ref .klass} {x : String} {v : Value} (hv : v.Has P)
    {f : Function} (hf : (h.klass r).method? x v = some f) : (Value.function f).Has P := by
  obtain ⟨routine, hr, rfl⟩ := Option.map_eq_some_iff.mp hf
  exact ⟨hh.methods r x routine hr, hv⟩

theorem newArray (hh : h.Holds P) {items : Array Value} (hi : ∀ v ∈ items, v.Has P) :
    (h.newArray items).2.Holds P :=
  { hh with arrays := hh.arrays.alloc hi }

theorem newObject (hh : h.Holds P) {entries : OrderedMap Value} (he : entries.All (Value.Has P)) :
    (h.newObject entries).2.Holds P :=
  { hh with objects := hh.objects.alloc he }

theorem newInstance (hh : h.Holds P) (c : Ref .klass) : (h.newInstance c).2.Holds P :=
  { hh with instances := hh.instances.alloc OrderedMap.All.empty }

theorem newClass (hh : h.Holds P) {c : Class} (hc : c.methods.All P) : (h.newClass c).2.Holds P :=
  { hh with classes := hh.classes.alloc hc }

theorem write (hh : h.Holds P) (place : Place) {v : Value} (hv : v.Has P) :
    (h.write place v).Holds P := by
  cases place with
  | item r i =>
    refine { hh with arrays := hh.arrays.modify fun items hi w hw => ?_ }
    rcases Array.mem_or_eq_of_mem_setIfInBounds hw with hw | rfl
    · exact hi w hw
    · exact hv
  | behind r =>
    refine { hh with arrays := hh.arrays.modify fun items hi w hw => ?_ }
    rcases Array.mem_push.mp hw with hw | rfl
    · exact hi w hw
    · exact hv
  | entry r key => exact { hh with objects := hh.objects.modify fun _ he => he.insert key hv }
  | field r x => exact { hh with instances := hh.instances.modify fun _ hi => hi.insert x hv }

end Heap.Holds

end Scriptlet
