import Scriptlet.Proofs.Eval.Limits
import Scriptlet.Proofs.Eval.Parts

/-!
# Steps in which nothing begins

Most steps of an evaluation look something up, bind a name, change a cell or stop. They
evaluate no expression or statement and call nothing, and what a watcher of the machine could see
of them is little: the place, the limit on calls, the host, the flag that asks to stop, the
settings and the events stay (`Machine.Beside`). Such a step is `Quiet`. It may fail, but not
because too many calls are in progress, and it does not say where (`Stop.Slight`).

There is one instance for each such step of the evaluator.
-/

namespace Scriptlet

/-- The second machine differs from the first in its cells, in what its scopes bind and in the
numbers given out, and in nothing else. -/
structure Machine.Beside (m n : Machine) : Prop where
  place : m.env.SamePlace n.env
  callLimit : n.env.callLimit = m.env.callLimit
  host : n.host = m.host
  interrupted : n.interrupted = m.interrupted
  settings : n.settings = m.settings
  events : n.events = m.events

namespace Machine.Beside

theorem refl (m : Machine) : m.Beside m := ⟨.refl _, rfl, rfl, rfl, rfl, rfl⟩

theorem trans {m n o : Machine} (h : m.Beside n) (h' : n.Beside o) : m.Beside o where
  place := h.place.trans h'.place
  callLimit := h'.callLimit.trans h.callLimit
  host := h'.host.trans h.host
  interrupted := h'.interrupted.trans h.interrupted
  settings := h'.settings.trans h.settings
  events := h'.events.trans h.events

instance : Std.Refl Machine.Beside := ⟨refl⟩

instance : IsTrans Machine Machine.Beside := ⟨fun _ _ _ => trans⟩

end Machine.Beside

/-- A failure that does not know its position, and is no overflow of calls; or no failure. -/
def Stop.Slight : Stop → Prop
  | .failure f => f.position = none ∧ f.cause.isOverflow = false
  | .signal _ | .unfinished _ => True

theorem Cause.isOverflow_of_isOperation {c : Cause} (h : c.isOperation = true) :
    c.isOverflow = false := by
  cases c <;> first | rfl | cases h

namespace Eval

variable {α β : Type}

/-- However the step ends, the machine after it is in the relation to the one before, and a failure
is slight. -/
def Moves (R : Machine → Machine → Prop) (act : Eval α) : Prop :=
  ∀ m, ∃ r n, act m = ending r n ∧ R m n ∧ ∀ e, r = .error e → e.Slight

namespace Moves

variable {R : Machine → Machine → Prop}

theorem throw [Std.Refl R] {e : Stop} (he : e.Slight) : Moves R (MonadExcept.throw e : Eval α) := by
  refine fun m => ⟨.error e, m, rfl, Std.Refl.refl m, fun e' h => ?_⟩
  cases h
  exact he

theorem fail [Std.Refl R] {c : Cause} (hc : c.isOverflow = false) :
    Moves R (Eval.fail c : Eval α) :=
  throw ⟨rfl, hc⟩

theorem pure [Std.Refl R] (a : α) : Moves R (Pure.pure a : Eval α) :=
  fun m => ⟨.ok a, m, rfl, Std.Refl.refl m, nofun⟩

theorem bind [IsTrans Machine R] {act : Eval α} {f : α → Eval β} (h : act.Moves R)
    (hf : ∀ a, (f a).Moves R) : (act >>= f).Moves R := by
  intro m
  obtain ⟨r, n, hr, hmove, hslight⟩ := h m
  cases r with
  | error e =>
    refine ⟨.error e, n, bind_error hr, hmove, fun e' he => ?_⟩
    cases he
    exact hslight e rfl
  | ok a =>
    obtain ⟨r, o, hr', hmove', hslight'⟩ := hf a n
    exact ⟨r, o, (bind_ok hr).trans hr', IsTrans.trans _ _ _ hmove hmove', hslight'⟩

/-- Reading the machine, and going on with what was read. -/
theorem get {f : Machine → Eval β} (h : ∀ m, (f m).Moves R) :
    Moves R (MonadState.get >>= f : Eval β) :=
  fun m => h m m

theorem modifyGet {f : Machine → α × Machine} (h : ∀ m, R m (f m).2) :
    Moves R (MonadState.modifyGet f : Eval α) :=
  fun m => ⟨.ok (f m).1, (f m).2, rfl, h m, nofun⟩

end Moves

/-- In the step nothing begins that a watcher could see. -/
class Quiet {α : Type} (act : Eval α) : Prop where
  moves : act.Moves Machine.Beside

instance quiet_pure (a : α) : Quiet (pure a : Eval α) := ⟨.pure a⟩

instance quiet_signal (s : Signal) : Quiet (throw (.signal s) : Eval α) := ⟨.throw trivial⟩

instance quiet_unfinished (why : Unfinished) : Quiet (throw (.unfinished why) : Eval α) :=
  ⟨.throw trivial⟩

theorem quiet_fail {c : Cause} (hc : c.isOverflow = false) : Quiet (fail c : Eval α) := ⟨.fail hc⟩

instance (name : String) (expected got : Nat) :
    Quiet (fail (.arityMismatch name expected got) : Eval α) := quiet_fail rfl

instance (fault : TypeFault) : Quiet (fail (.wrongType fault) : Eval α) := quiet_fail rfl

theorem quiet_ofExcept {Q : α → Prop} {r : Except Cause α} (h : Computes Q r) :
    Quiet (ofExcept r) := by
  cases r with
  | ok a => exact quiet_pure a
  | error c => exact quiet_fail (Cause.isOverflow_of_isOperation h)

theorem Quiet.bind {act : Eval α} {f : α → Eval β} (h : act.Quiet) (hf : ∀ a, (f a).Quiet) :
    (act >>= f).Quiet :=
  ⟨h.moves.bind fun a => (hf a).moves⟩

theorem quiet_modifyGet {f : Machine → α × Machine} (h : ∀ m : Machine, m.Beside (f m).2) :
    Quiet (modifyGet f : Eval α) :=
  ⟨.modifyGet h⟩

theorem quiet_get {f : Machine → Eval β} (h : ∀ m, (f m).Quiet) :
    Quiet (MonadState.get >>= f : Eval β) :=
  ⟨.get fun m => (h m).moves⟩

/-! ## Steps of the machine -/

/-- The current scope. -/
def currentScope : Eval (Ref .scope) := do
  return (← get).env.current

/-- A class of the heap. -/
def classAt (r : Ref .klass) : Eval Class := do
  return (← get).heap.klass r

/-- An operation on the heap that changes nothing and may fail. -/
def reading (f : Heap → Except Cause α) : Eval α := do
  let heap := (← get).heap
  ofExcept (f heap)

instance : Quiet currentScope := quiet_get fun m => quiet_pure m.env.current

instance (r : Ref .klass) : Quiet (classAt r) := quiet_get fun m => quiet_pure (m.heap.klass r)

theorem quiet_reading {Q : α → Prop} {f : Heap → Except Cause α}
    (h : ∀ heap, Computes Q (f heap)) : Quiet (reading f) :=
  quiet_get fun m => quiet_ofExcept (h m.heap)

instance : Quiet checkInterrupt := by
  refine quiet_get fun m => ?_
  split
  · exact quiet_fail rfl
  · exact quiet_pure ()

instance (x : String) : Quiet (lookup x) := by
  rw [lookup_eq]
  refine quiet_get fun m => ?_
  cases m.env.lookup? x with
  | some v => exact quiet_pure v
  | none => exact quiet_fail rfl

theorem quiet_defineIn (r : Environment → Ref .scope) (x : String) (v : Value) (mode : Mode) :
    Quiet (modifyEnv fun e => e.defineIn (r e) x v mode) :=
  quiet_modifyGet fun _ => ⟨⟨rfl, rfl, rfl⟩, rfl, rfl, rfl, rfl, rfl⟩

instance (x : String) (v : Value) (mode : Mode) : Quiet (define x v mode) :=
  quiet_defineIn (fun e => e.current) x v mode

instance (x : String) (v : Value) : Quiet (assign x v) := by
  rw [assign_eq]
  refine quiet_get fun m => ?_
  unfold store
  split
  · exact quiet_defineIn (fun _ => _) x v .mutable
  · exact quiet_defineIn (fun e => e.globals) x v .mutable
  · rename_i c hother hc
    refine quiet_fail ?_
    unfold Environment.assignable at hc
    split at hc <;> cases hc
    · exact absurd rfl (hother x)
    · rfl

theorem quiet_setHeap (f : Heap → α × Heap) :
    Quiet (modifyGet fun m => ((f m.heap).1, { m with heap := (f m.heap).2 }) : Eval α) :=
  quiet_modifyGet fun _ => ⟨.refl _, rfl, rfl, rfl, rfl, rfl⟩

instance (place : Place) (v : Value) : Quiet (write place v) :=
  quiet_setHeap fun h => ((), h.write place v)

instance (items : List Value) : Quiet (newArray items) :=
  quiet_setHeap fun h => h.newArray items.toArray

instance (entries : OrderedMap Value) : Quiet (newObject entries) :=
  quiet_setHeap fun h => h.newObject entries

/-- A new instance of a class, before it is passed to the constructor. -/
def newInstance (r : Ref .klass) : Eval (Ref .inst) :=
  modifyGet fun m =>
    let (i, heap) := m.heap.newInstance r
    (i, { m with heap := heap })

instance (r : Ref .klass) : Quiet (newInstance r) := quiet_setHeap fun h => h.newInstance r

instance (g : Engine) (r : Routine) : Quiet (newFunction g r) :=
  quiet_get fun m => quiet_pure (Value.function ⟨g.program, r, m.env.current, none, 0⟩)

instance (g : Engine) (x : String) (methods : List Routine) : Quiet (defineClass g x methods) :=
  quiet_get fun _ => (quiet_setHeap fun h => h.newClass _).bind fun _ => inferInstance

instance (parent : Ref .scope) : Quiet (newScope parent) :=
  quiet_modifyGet fun _ => ⟨⟨rfl, rfl, rfl⟩, rfl, rfl, rfl, rfl, rfl⟩

instance (parent : Ref .scope) (v : Value) : Quiet (newReceiverScope parent v) :=
  Quiet.bind (inferInstanceAs (Quiet (newScope parent))) fun scope =>
    (quiet_defineIn (fun _ => scope) "this" _ .constant).bind fun _ => quiet_pure scope

instance (params : List String) (args : List Value) : Quiet (bindParams params args) := by
  unfold bindParams
  induction params.zip args with
  | nil => exact quiet_pure PUnit.unit
  | cons p ps ih => exact Quiet.bind (inferInstanceAs (Quiet (define p.1 p.2 .mutable))) fun _ => ih

/-! ## Operations on values -/

instance (op : UnaryOp) (v : Value) : Quiet (ofExcept (applyUnary op v)) :=
  quiet_ofExcept (.applyUnary op v)

instance (op : BinaryOp) (l r : Value) : Quiet (reading fun h => h.applyBinary op l r) :=
  quiet_reading fun h => .applyBinary h op l r

instance (v : Value) (x : String) : Quiet (ofExcept (memberPlace v x)) :=
  quiet_ofExcept (.memberPlace v x)

instance (v key : Value) : Quiet (reading fun h => h.indexPlace v key) :=
  quiet_reading fun h => .indexPlace h v key

instance (v key : Value) : Quiet (reading fun h => h.getIndex v key) :=
  quiet_reading fun h => h.closed_any.getIndex (fun _ _ => trivial) trivial key

instance (v : Value) (x : String) : Quiet (reading fun h => h.getMember v x) :=
  quiet_reading fun h => h.closed_any.getMember (fun _ _ => trivial) trivial x

instance (v : Value) : Quiet (reading fun h => h.loopItems v) :=
  quiet_reading fun h => h.closed_any.loopItems (fun _ _ => trivial) trivial

end Eval

end Scriptlet
