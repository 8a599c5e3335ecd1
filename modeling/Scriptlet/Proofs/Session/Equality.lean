import Scriptlet.Proofs.Session.Numbering
import Scriptlet.Proofs.Value.Equality

/-!
# Equality in sessions

Equality is an equivalence relation among the values from which no floating point number can be
reached, where functions lead to what they are bound to (`Heap.FloatFree`). The evaluator binds
methods to instances only, and behind an instance there is nothing. So in a session in which nothing
else has bound methods, arrays and objects are all that matters (`equal_equivalence`).
-/

namespace Scriptlet

namespace Machine.Stores

variable {m : Machine} {v : Value}

theorem of_item {r : Ref .array} {i : Nat} (h : (m.heap.items r)[i]? = some v) : m.Stores v := by
  unfold Heap.items at h
  cases hr : m.heap.arrays.get? r with
  | none =>
    rw [hr] at h
    cases h
  | some items =>
    rw [hr] at h
    exact .item hr (Array.mem_toList_iff.mpr (Array.mem_of_getElem? h))

theorem of_entry {r : Ref .object} {key : String} (h : (m.heap.entries r).get? key = some v) :
    m.Stores v := by
  unfold Heap.entries at h
  cases hr : m.heap.objects.get? r with
  | none =>
    rw [hr] at h
    cases h
  | some entries =>
    rw [hr] at h
    exact .entry hr (OrderedMap.mem_of_get? h)

theorem contained {w : Value} (hv : m.Stores v) (h : m.heap.Contains v w) : m.Stores w := by
  induction h with
  | refl => exact hv
  | item hu _ ih => exact ih (of_item hu)
  | value hu _ ih => exact ih (of_entry hu)

end Machine.Stores

/-- What a value contains is the value itself, or in a cell. -/
theorem Heap.Contains.eq_or_stored {m : Machine} {v w : Value} (h : m.heap.Contains v w) :
    w = v ∨ m.Stores w := by
  cases h with
  | refl => exact .inl rfl
  | item hu hw => exact .inr (Machine.Stores.of_item hu |>.contained hw)
  | value hu hw => exact .inr (Machine.Stores.of_entry hu |>.contained hw)

/-- If the program around a session binds no methods, all bound functions are bound to instances. -/
theorem Session.UsedWith.bindsInstances {s : Session} {held : List Value}
    (h : s.UsedWith (fun _ => False) held) {v : Value} (hv : v ∈ held ∨ Machine.Stores s v) :
    s.heap.BindsInstances v := by
  intro f u hf hu
  have hbindable : u.Bindable fun _ => False := by
    obtain rfl | hstored := hf.eq_or_stored
    · obtain hheld | hstored := hv
      · exact (h.numbered.held hheld (.self f)).receiver u hu
      · exact h.numbered.bound hstored hu
    · exact h.numbered.bound hstored hu
  exact hbindable.resolve_left id

/-- A session that has run a text with a class, and the method of an instance that the text ends
with. -/
def methodSample : Outcome × Session :=
  Session.execute 9 (Machine.new .withoutStorage {}) "class A { m() { return 1; } } A().m;"

/-- The execution has ended with a function that is bound. -/
def Outcome.isBound (o : Outcome) : Bool := o.value? matches some (.function ⟨_, _, _, some _, _⟩)

theorem Outcome.of_isBound {o : Outcome} (h : o.isBound = true) :
    ∃ f v, o.value? = some (.function f) ∧ f.receiver = some v := by
  unfold isBound at h
  split at h
  · exact ⟨_, _, ‹_›, rfl⟩
  · contradiction

end Scriptlet
