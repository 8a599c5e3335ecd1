import Scriptlet.Builtin
import Scriptlet.Proofs.Eval.Held
import Scriptlet.Proofs.Value.Contents

/-!
# What operations on values give

Arithmetic and comparison make plain values, which refer to nothing (`Value.Plain`).
Reading an item, an entry, a field or a method gives what the machine keeps, so what can
be said of the values that are kept and of what they refer to can be said of the result
(`Heap.Closed`). An operation may also fail, but never because of a jump (`Gives`).
-/

namespace Scriptlet

/-- The value is no function and no reference to a cell. -/
def Value.Plain : Value → Prop
  | .undefined | .null | .boolean _ | .integer _ | .float _ | .string _ => True
  | _ => False

theorem Datum.plain (d : Datum) : d.value.Plain := by
  cases d <;> exact trivial

/-! ## Operations that may fail -/

/-- Whether the program fails because of a jump that nothing takes. -/
def Cause.isJump : Cause → Bool
  | .breakOutsideLoop | .continueOutsideLoop => true
  | _ => false

/-- The result satisfies `Q`, unless there is none for a reason other than a jump. -/
def Gives {α : Type} (Q : α → Prop) : Except Cause α → Prop
  | .ok a => Q a
  | .error c => c.isJump = false

/-- Whether an operation on values may fail for this reason. -/
def Cause.isOperation : Cause → Bool
  | .wrongType _ | .invalidOperands .. | .invalidOperand .. | .integerOverflow | .divisionByZero
  | .undefinedField .. | .indexOutOfBounds .. => true
  | _ => false

/-- The result satisfies `Q`, unless the operation cannot be done. -/
def Computes {α : Type} (Q : α → Prop) : Except Cause α → Prop
  | .ok a => Q a
  | .error c => c.isOperation = true

theorem Computes.gives {α : Type} {Q : α → Prop} : ∀ {r : Except Cause α}, Computes Q r → Gives Q r
  | .ok _, h => h
  | .error c, h => by cases c <;> first | rfl | cases h

namespace Computes

theorem exactly (n : Option Int64) : Computes (Value.Plain) (exactly n) := by
  cases n with
  | none => exact rfl
  | some n => exact trivial

theorem arithmetic (op : BinaryOp) (onInts : Int → Int → Int) (onFloats : Float → Float → Float)
    (l r : Value) : Computes (Value.Plain) (arithmetic op onInts onFloats l r) := by
  unfold Scriptlet.arithmetic
  split
  · exact exactly _
  · split
    · exact trivial
    · exact rfl

theorem add (h : Heap) (l r : Value) : Computes (Value.Plain) (h.add l r) := by
  unfold Heap.add
  split
  · exact trivial
  · exact trivial
  · exact arithmetic _ _ _ _ _

theorem divide (l r : Value) : Computes (Value.Plain) (divide l r) := by
  unfold Scriptlet.divide
  split
  · split
    · exact rfl
    · split
      · exact exactly _
      · exact trivial
  · split
    · split
      · exact rfl
      · exact trivial
    · exact rfl

theorem remainder (l r : Value) : Computes (Value.Plain) (remainder l r) := by
  unfold Scriptlet.remainder
  split
  · split
    · exact rfl
    · split
      · exact exactly _
      · exact rfl
  · split
    · split
      · exact rfl
      · exact trivial
    · exact rfl

theorem power (l r : Value) : Computes (Value.Plain) (power l r) := by
  unfold Scriptlet.power
  dsimp only
  split
  · split
    · exact exactly _
    · split
      · exact trivial
      · exact rfl
  · split
    · exact trivial
    · exact rfl

theorem ordered (op : BinaryOp) (test : Ordering → Bool) (l r : Value) :
    Computes (Value.Plain) (ordered op test l r) := by
  unfold Scriptlet.ordered
  split
  · exact trivial
  · exact trivial
  · split
    · exact trivial
    · exact rfl

theorem applyBinary (h : Heap) (op : BinaryOp) (l r : Value) :
    Computes (Value.Plain) (h.applyBinary op l r) := by
  cases op with
  | add => exact add h l r
  | subtract => exact arithmetic _ _ _ l r
  | multiply => exact arithmetic _ _ _ l r
  | divide => exact divide l r
  | remainder => exact remainder l r
  | power => exact power l r
  | equal => exact trivial
  | notEqual => exact trivial
  | greater => exact ordered _ _ l r
  | greaterEqual => exact ordered _ _ l r
  | less => exact ordered _ _ l r
  | lessEqual => exact ordered _ _ l r

theorem applyUnary (op : UnaryOp) (v : Value) : Computes (Value.Plain) (applyUnary op v) := by
  unfold Scriptlet.applyUnary
  split
  · exact trivial
  · split
    · exact exactly _
    · exact trivial
    · exact rfl

theorem memberPlace (v : Value) (x : String) : Computes (fun _ => True) (memberPlace v x) := by
  unfold Scriptlet.memberPlace
  split
  · exact trivial
  · exact trivial
  · exact rfl

theorem indexPlace (h : Heap) (v key : Value) : Computes (fun _ => True) (h.indexPlace v key) := by
  unfold Heap.indexPlace
  split
  · dsimp only
    split
    · exact rfl
    · split
      · exact trivial
      · split
        · exact trivial
        · exact rfl
  · exact trivial
  · exact rfl

end Computes

namespace Gives

theorem applyBinary (h : Heap) (op : BinaryOp) (l r : Value) :
    Gives (Value.Plain) (h.applyBinary op l r) :=
  (Computes.applyBinary h op l r).gives

theorem applyUnary (op : UnaryOp) (v : Value) : Gives (Value.Plain) (applyUnary op v) :=
  (Computes.applyUnary op v).gives

theorem memberPlace (v : Value) (x : String) : Gives (fun _ => True) (memberPlace v x) :=
  (Computes.memberPlace v x).gives

theorem indexPlace (h : Heap) (v key : Value) : Gives (fun _ => True) (h.indexPlace v key) :=
  (Computes.indexPlace h v key).gives

end Gives

/-! ## Reading -/

/-- What is read off a value with `Q`, other than plain values, satisfies `Q`. -/
structure Heap.Closed (h : Heap) (Q : Value → Prop) : Prop where
  items {r : Ref .array} : Q (.array r) → ∀ v ∈ h.items r, Q v
  entries {r : Ref .object} : Q (.object r) → (h.entries r).All Q
  fields {r : Ref .inst} : Q (.inst r) → (h.inst r).fields.All Q
  ownClass {r : Ref .inst} : Q (.inst r) → Q (.klass (h.inst r).klass)
  /-- A method of a class, bound to a value. -/
  method {c : Ref .klass} {v : Value} {x : String} {f : Function} : Q (.klass c) → Q v →
    (h.klass c).method? x v = some f → Q (.function f)

/-- Whatever a heap keeps and gives is a value. -/
theorem Heap.closed_any (h : Heap) : h.Closed fun _ => True :=
  ⟨fun _ _ _ => trivial, fun _ _ _ _ => trivial, fun _ _ _ _ => trivial, fun _ => trivial,
    fun _ _ _ => trivial⟩

namespace Heap.Closed

variable {h : Heap} {Q : Value → Prop} {v : Value}

theorem getIndex (hh : h.Closed Q) (hp : ∀ v : Value, v.Plain → Q v) (hv : Q v) (key : Value) :
    Computes Q (h.getIndex v key) := by
  have position (n : Nat) {f : Nat → Value} (hf : ∀ i, Q (f i)) :
      Computes Q (positionIn v key n >>= fun i => pure (f i)) := by
    unfold positionIn
    split
    · exact rfl
    · split
      · exact hf _
      · exact rfl
  unfold Heap.getIndex
  split
  · refine position _ fun i => ?_
    rw [Array.getD_eq_getD_getElem?]
    cases hi : (h.items _)[i]? with
    | none => exact hp _ trivial
    | some w => exact hh.items hv w (Array.mem_of_getElem? hi)
  · exact position _ fun _ => hp _ trivial
  · split
    · rename_i hx
      exact hh.entries hv _ _ hx
    · exact rfl
  · exact rfl

theorem getMember (hh : h.Closed Q) (hp : ∀ v : Value, v.Plain → Q v) (hv : Q v) (x : String) :
    Computes Q (h.getMember v x) := by
  unfold Heap.getMember
  dsimp only
  split
  · rename_i w hw
    split at hw
    · rename_i r
      cases hf : (h.inst r).fields.get? x with
      | some u =>
        rw [hf, Option.some_or] at hw
        cases hw
        exact hh.fields hv x _ hf
      | none =>
        rw [hf, Option.none_or] at hw
        obtain ⟨f, hf, rfl⟩ := Option.map_eq_some_iff.mp hw
        exact hh.method (hh.ownClass hv) hv hf
    · exact hh.entries hv x w hw
    · split at hw
      · cases hw
        exact hp _ trivial
      · cases hw
    · split at hw
      · cases hw
        exact hp _ trivial
      · cases hw
    · cases hw
  · exact rfl

theorem loopItems (hh : h.Closed Q) (hp : ∀ v : Value, v.Plain → Q v) (hv : Q v) :
    Computes (fun items => ∀ w ∈ items, Q w) (h.loopItems v) := by
  unfold Heap.loopItems
  split
  · exact fun w hw => hh.items hv w (Array.mem_toList_iff.mp hw)
  · intro w hw
    obtain ⟨c, -, rfl⟩ := List.mem_map.mp hw
    exact hp _ trivial
  · intro w hw
    obtain ⟨x, -, rfl⟩ := List.mem_map.mp hw
    exact hp _ trivial
  · exact rfl

theorem part (hh : h.Closed Q) (hv : Q v) {w : Value} (hw : w ∈ h.parts v) : Q w := by
  unfold Heap.parts at hw
  split at hw
  · exact hh.items hv w (Array.mem_toList_iff.mp hw)
  · obtain ⟨e, he, rfl⟩ := List.mem_map.mp hw
    exact hh.entries hv e.1 e.2 (OrderedMap.get?_of_mem he)
  · cases hw

theorem reached (hh : h.Closed Q) {path : List Nat} (hv : Q v) {w : Value}
    (hw : h.reached? path v = some w) : Q w := by
  induction path generalizing v with
  | nil =>
    cases hw
    exact hv
  | cons i path ih =>
    obtain ⟨u, hu, hw⟩ := Option.bind_eq_some_iff.mp hw
    exact ih (hh.part hv (List.mem_of_getElem? hu)) hw

theorem yielded (hh : h.Closed Q) (hp : ∀ v : Value, v.Plain → Q v) {args : List Value}
    (ha : ∀ a ∈ args, Q a) (y : Yield) : Q (h.yielded args y) := by
  cases y with
  | datum d => exact hp _ d.plain
  | part i path =>
    show Q ((args[i]?.bind (h.reached? path)).getD .undefined)
    cases hw : args[i]?.bind (h.reached? path) with
    | none => exact hp _ trivial
    | some w =>
      obtain ⟨a, hmem, hw⟩ := Option.bind_eq_some_iff.mp hw
      exact hh.reached (ha a (List.mem_of_getElem? hmem)) hw

end Heap.Closed

end Scriptlet
