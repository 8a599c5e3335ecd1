import Mathlib.Order.Basic
import Scriptlet.Proofs.Eval.Parts
import Scriptlet.Proofs.Eval.Results
import Scriptlet.Proofs.Eval.Routines

/-!
# Calculi for evaluations

What can be said of every evaluation is said in the same way each time: of the smallest
evaluations and of the ways to put them together, and then of the evaluator by recursion
on the syntax. A `Calculus` is what the first part must provide. Its `Meets w k names S
act Q` is about an evaluation `act` that may nest `k` more calls and may declare the
names of `names` in the current scope; if `act` has a result, the result satisfies `Q`,
and if it stops early with a signal, the signal satisfies `S`.

What a value refers to exists from some moment on. A calculus therefore says what is
known of the cells in a *world* `w`; worlds are ordered, and what holds of a value in one
world holds in all that come after it. `Q` and `S` are about the world that the
evaluation ends in.

The theorems here derive the rules for what the evaluator is made of. The walk over the
evaluator is in the next module.
-/

namespace Scriptlet

/-- What an evaluation reads off the machine, besides the bindings of names and the settings. -/
structure View where
  heap : Heap
  current : Ref .scope
  callDepth : Nat
  interrupted : Bool

/-- What an evaluation can see of the machine. -/
def Machine.view (m : Machine) : View :=
  ⟨m.heap, m.env.current, m.env.callDepth, m.interrupted⟩

/-- What leaves statements with the jumps `js`, if the values with `Q` are allowed: a `return` with
an allowed value, or one of the jumps. -/
def Signal.Leaving (Q : Value → Prop) (js : List Jump) : Signal → Prop
  | .returned v => Q v
  | .broke p => .broke p ∈ js
  | .continued p => .continued p ∈ js

theorem Signal.Leaving.mono {Q : Value → Prop} {js js' : List Jump} (h : js ⊆ js') :
    ∀ s, Signal.Leaving Q js s → Signal.Leaving Q js' s
  | .returned _, hs => hs
  | .broke _, hs => h hs
  | .continued _, hs => h hs

/-- A way to reason about evaluations. -/
structure Calculus where
  /-- What is known of the cells. -/
  World : Type
  [order : Preorder World]
  /-- The routines that may be called. -/
  routine : Routine → Prop
  /-- The expressions and statements that may be evaluated. -/
  node : Node → Prop
  /-- The jumps that may leave the body of a routine or a program, which then fails. -/
  jump : Jump → Prop
  /-- The values that there may be. -/
  value : World → Value → Prop
  /-- The scopes in which code may run. -/
  scope : World → Ref .scope → Prop
  /-- The heaps that there may be. -/
  heap : World → Heap → Prop
  Meets {α : Type} (w : World) (level : Nat) (names : List String) (signals : World → Signal → Prop)
    (act : Eval α) (result : World → α → Prop) : Prop
  made {x : Node} : node x → ∀ r ∈ x.routines, routine r
  body {r : Routine} : routine r → ∀ x ∈ stmtsNodes r.body, node x
  bodyJump {r : Routine} : routine r → ∀ j ∈ stmtsJumps r.body, jump j
  value_mono {w w' : World} {v : Value} : w ≤ w' → value w v → value w' v
  scope_mono {w w' : World} {r : Ref .scope} : w ≤ w' → scope w r → scope w' r
  plain {w : World} {v : Value} : v.Plain → value w v
  closed {w : World} {h : Heap} : heap w h → h.Closed (value w)
  /-- A function that is made where code runs. -/
  closure {w : World} {r : Routine} {s : Ref .scope} (n : Nat) : routine r → scope w s →
    value w (.function ⟨n, r, s, none, 0⟩)
  calledRoutine {w : World} {f : Function} : value w (.function f) → routine f.routine
  calledScope {w : World} {f : Function} : value w (.function f) → scope w f.scope
  calledReceiver {w : World} {f : Function} {v : Value} : value w (.function f) →
    f.receiver = some v → value w v
  pure {α : Type} {w : World} {k : Nat} {names : List String} {S : World → Signal → Prop} {a : α}
    {Q : World → α → Prop} : (∀ w', w ≤ w' → Q w' a) → Meets w k names S (Pure.pure a) Q
  bind {α β : Type} {w : World} {k : Nat} {names : List String} {S : World → Signal → Prop}
    {act : Eval α} {f : α → Eval β} {Q : World → α → Prop} {R : World → β → Prop} :
    Meets w k names S act Q → (∀ w', w ≤ w' → ∀ a, Q w' a → Meets w' k names S (f a) R) →
    Meets w k names S (act >>= f) R
  mono {α : Type} {w : World} {k : Nat} {names names' : List String}
    {S S' : World → Signal → Prop} {act : Eval α} {Q Q' : World → α → Prop} :
    Meets w k names S act Q → names ⊆ names' → (∀ w' s, S w' s → S' w' s) →
    (∀ w' a, Q w' a → Q' w' a) → Meets w k names' S' act Q'
  signal {α : Type} {w : World} {k : Nat} {names : List String} {S : World → Signal → Prop}
    {s : Signal} {Q : World → α → Prop} : (∀ w', w ≤ w' → S w' s) →
    Meets w k names S (throw (.signal s)) Q
  fail {α : Type} {w : World} {k : Nat} {names : List String} {S : World → Signal → Prop}
    {c : Cause} {Q : World → α → Prop} : c.isJump = false → Meets w k names S (Eval.fail c) Q
  /-- Looking at the machine. -/
  look {β : Type} {w : World} {k : Nat} {names : List String} {S : World → Signal → Prop}
    {f : View → Eval β} {R : World → β → Prop} :
    (∀ w', w ≤ w' → ∀ x : View, heap w' x.heap → scope w' x.current →
      Meets w' k names S (f x) R) →
    Meets w k names S (MonadState.get >>= fun m => f m.view) R
  log {w : World} {k : Nat} {names : List String} {S : World → Signal → Prop} {e : Event} :
    e.isStatement = false → Meets w k names S (Eval.log e) fun _ _ => True
  /-- Logging a statement that begins, if the settings ask for it. -/
  begun {w : World} {k : Nat} {names : List String} {S : World → Signal → Prop} (s : Stmt) :
    Meets w k names S (modify s.begun) fun _ _ => True
  lookup {w : World} {k : Nat} {names : List String} {S : World → Signal → Prop} (x : String) :
    Meets w k names S (Eval.lookup x) value
  assign {w : World} {k : Nat} {names : List String} {S : World → Signal → Prop} (x : String)
    {v : Value} : value w v → Meets w k names S (Eval.assign x v) fun _ _ => True
  define {w : World} {k : Nat} {names : List String} {S : World → Signal → Prop} {x : String}
    {v : Value} (mode : Mode) : x ∈ names → value w v →
    Meets w k names S (Eval.define x v mode) fun _ _ => True
  write {w : World} {k : Nat} {names : List String} {S : World → Signal → Prop} (place : Place)
    {v : Value} : value w v → Meets w k names S (Eval.write place v) fun _ _ => True
  newArray {w : World} {k : Nat} {names : List String} {S : World → Signal → Prop}
    {items : List Value} : (∀ v ∈ items, value w v) → Meets w k names S (Eval.newArray items) value
  newObject {w : World} {k : Nat} {names : List String} {S : World → Signal → Prop}
    {entries : OrderedMap Value} : entries.All (value w) →
    Meets w k names S (Eval.newObject entries) value
  newClass {w : World} {k : Nat} {names : List String} {S : World → Signal → Prop} {c : Class} :
    c.methods.All routine → scope w c.scope → Meets w k names S (MonadState.modifyGet fun m =>
      ((m.heap.newClass c).1, { m with heap := (m.heap.newClass c).2 })) value
  newInstance {w : World} {k : Nat} {names : List String} {S : World → Signal → Prop}
    {c : Ref .klass} : value w (.klass c) → Meets w k names S (MonadState.modifyGet fun m =>
      ((m.heap.newInstance c).1, { m with heap := (m.heap.newInstance c).2 }))
      fun w i => value w (.inst i)
  print {w : World} {k : Nat} {names : List String} {S : World → Signal → Prop} (line : String) :
    Meets w k names S (Eval.ask fun host => host.print line) fun _ _ => True
  fetch {w : World} {k : Nat} {names : List String} {S : World → Signal → Prop} (path : String) :
    Meets w k names S (Eval.ask fun host => host.fetch path) fun _ _ => True
  save {w : World} {k : Nat} {names : List String} {S : World → Signal → Prop}
    (path text : String) :
    Meets w k names S (Eval.ask fun host => host.save path text) fun _ _ => True
  interrupt {w : World} {k : Nat} {names : List String} {S : World → Signal → Prop} :
    Meets w k names S (modify fun m => { m with interrupted := true }) fun _ _ => True
  numbered {w : World} {k : Nat} {names : List String} {S : World → Signal → Prop} :
    Meets w k names S numberProgram fun _ _ => True
  located {α : Type} {w : World} {k : Nat} {names : List String} {S : World → Signal → Prop}
    {act : Eval α} {Q : World → α → Prop} {x : Node} : node x → Meets w k names S act Q →
    Meets w k names S (Eval.located x.position act) Q
  newReceiverScope {w : World} {k : Nat} {names : List String} {S : World → Signal → Prop}
    {parent : Ref .scope} {v : Value} : scope w parent → value w v →
    Meets w k names S (Eval.newReceiverScope parent v) scope
  /-- In a new scope, any names may be declared. -/
  within {α : Type} {w : World} {k : Nat} {names : List String} {S : World → Signal → Prop}
    {act : Eval α} {Q : World → α → Prop} {parent : Ref .scope} (names' : List String) :
    scope w parent → (∀ w', w ≤ w' → Meets w' k names' S act Q) →
    Meets w k names S (Eval.newScope parent >>= fun r => Eval.inScope r act) Q
  /-- Within a call, one call fewer can nest. -/
  inCall {α : Type} {w : World} {k : Nat} {names : List String} {S : World → Signal → Prop}
    {act : Eval α} {Q : World → α → Prop} : Meets w k names S act Q →
    Meets w (k + 1) names S (Eval.inCall act) Q
  /-- No signal gets through the end of a call or of a program. -/
  settling {w : World} {k : Nat} {names : List String} {S : World → Signal → Prop}
    {act : Eval Value} {js : List Jump} {settle : Except Stop Value → Except Stop Value} :
    settle = callResult ∨ settle = programResult → (∀ j ∈ js, jump j) →
    Meets w k names (fun w => Signal.Leaving (value w) js) act value →
    Meets w k names S (Eval.settling settle act) value
  /-- Of the signals that leave its body, a loop lets only a `return` through. -/
  loopBody {w : World} {k : Nat} {names : List String} {body : Eval Value}
    {Q : World → Value → Prop} {js : List Jump} (js' : List Jump) :
    Meets w k names (fun w => Signal.Leaving (value w) js) (Eval.inNewScope body) Q →
    Meets w k names (fun w => Signal.Leaving (value w) js') (Eval.loopBody body) fun _ _ => True
  /-- Where no call can nest, none is begun. -/
  uncalled {α : Type} {w : World} {names : List String} {S : World → Signal → Prop}
    {Q : World → α → Prop} : Meets w 0 names S (throw (.unfinished .outOfFuel)) Q
  /-- Only a loop whose test says how often it runs can run too often. -/
  repeated {α : Type} {w : World} {k : Nat} {names : List String} {S : World → Signal → Prop}
    {Q : World → α → Prop} {x : Node} : node x → x.repeats = true →
    Meets w k names S (throw (.unfinished .outOfFuel)) Q

namespace Calculus

attribute [instance] Calculus.order

variable (C : Calculus) {α β : Type} {w : C.World} {k : Nat} {names : List String}
  {S : C.World → Signal → Prop} {act : Eval α} {Q : C.World → α → Prop}

/-! ## Choices and checks -/

theorem ite {c : Prop} [Decidable c] {act act' : Eval α} (h : C.Meets w k names S act Q)
    (h' : C.Meets w k names S act' Q) : C.Meets w k names S (if c then act else act') Q := by
  split
  · exact h
  · exact h'

/-- A check that stops the evaluation if it fails. -/
theorem failIf {p : Prop} [Decidable p] {c : Cause} {rest : Unit → Eval α} (hc : c.isJump = false)
    (h : C.Meets w k names S (rest ()) Q) :
    C.Meets w k names S (if p then Eval.fail c >>= rest else rest ()) Q := by
  refine C.ite (C.bind (Q := fun _ _ => False) (C.fail hc) ?_) h
  exact fun _ _ _ hfalse => hfalse.elim

theorem ofExcept {P : α → Prop} {r : Except Cause α} (h : Gives P r)
    (hP : ∀ w', w ≤ w' → ∀ a, P a → Q w' a) : C.Meets w k names S (Eval.ofExcept r) Q := by
  cases r with
  | ok a => exact C.pure fun w' hw => hP w' hw a h
  | error c => exact C.fail h

/-- An operation that makes a value. -/
theorem ofGives {r : Except Cause Value} (h : Gives (C.value w) r) :
    C.Meets w k names S (Eval.ofExcept r) C.value :=
  C.ofExcept h fun _ hw _ hv => C.value_mono hw hv

/-- An operation that makes a plain value. -/
theorem ofPlain {r : Except Cause Value} (h : Gives Value.Plain r) :
    C.Meets w k names S (Eval.ofExcept r) C.value :=
  C.ofExcept h fun _ _ _ hv => C.plain hv

theorem pureValue {v : Value} (hv : C.value w v) :
    C.Meets w k names S (Pure.pure v) C.value :=
  C.pure fun _ hw => C.value_mono hw hv

theorem undefined : C.Meets w k names S (Pure.pure Value.undefined) C.value :=
  C.pureValue (C.plain trivial)

theorem done (a : α) : C.Meets w k names S (Pure.pure a) fun _ _ => True :=
  C.pure fun _ _ => trivial

/-- What follows a step that makes nothing. -/
theorem next {act : Eval α} {rest : α → Eval β} {R : C.World → β → Prop}
    (h : C.Meets w k names S act fun _ _ => True)
    (hrest : ∀ w', w ≤ w' → ∀ a, C.Meets w' k names S (rest a) R) :
    C.Meets w k names S (act >>= rest) R :=
  C.bind h fun w' hw a _ => hrest w' hw a

/-! ## Steps of the machine -/

theorem checkInterrupt : C.Meets w k names S Eval.checkInterrupt fun _ _ => True :=
  C.look (f := fun x => if x.interrupted then Eval.fail .interrupted else Pure.pure ())
    fun _ _ _ _ _ => C.ite (C.fail rfl) (C.done ())

theorem step {x : Node} (hx : C.node x) (h : ∀ w', w ≤ w' → C.Meets w' k names S act Q) :
    C.Meets w k names S (Eval.step x.position act) Q :=
  C.located hx (C.next C.checkInterrupt fun w' hw _ => h w' hw)

/-- A statement is logged, if the settings ask for it, before it begins. -/
theorem traced {s : Stmt} (hs : C.node (.stmt s))
    (h : ∀ w', w ≤ w' → C.Meets w' k names S act Q) : C.Meets w k names S (do
      if (← MonadState.get).settings.tracing then Eval.log (.statement s.kindName s.position)
      Eval.step s.position act) Q := by
  have hbegun : C.Meets w k names S (modify s.begun >>= fun _ => Eval.step s.position act) Q :=
    C.next (C.begun s) fun w' hw _ => C.step hs fun w'' hw' => h w'' (le_trans hw hw')
  rw [funext (Eval.traced_eq s act)]
  exact hbegun

theorem inNewScope (names' : List String) (h : ∀ w', w ≤ w' → C.Meets w' k names' S act Q) :
    C.Meets w k names S (Eval.inNewScope act) Q := by
  refine C.look (f := fun view => Eval.newScope view.current >>= fun r => Eval.inScope r act)
    fun w' hw view _ hcurrent => ?_
  exact C.within names' hcurrent fun w'' hw' => h w'' (le_trans hw hw')

theorem newFunction (g : Engine) {r : Routine} (hr : C.routine r) :
    C.Meets w k names S (Eval.newFunction g r) C.value := by
  refine C.look (f := fun view => Pure.pure (Value.function ⟨g.program, r, view.current, none, 0⟩))
    fun w' hw view _ hcurrent => ?_
  exact C.pureValue (C.closure g.program hr hcurrent)

theorem defineClass (g : Engine) {x : String} (hx : x ∈ names) {methods : List Routine}
    (hr : ∀ r ∈ methods, C.routine r) :
    C.Meets w k names S (Eval.defineClass g x methods) fun _ _ => True := by
  have hmethods : (OrderedMap.ofList (methods.map fun r => (r.name, r))).All C.routine := by
    refine OrderedMap.All.ofList fun p hp => ?_
    obtain ⟨r, hmem, rfl⟩ := List.mem_map.mp hp
    exact hr r hmem
  refine C.look (f := fun view => (MonadState.modifyGet fun m =>
    ((m.heap.newClass ⟨x, g.program, .ofList (methods.map fun r => (r.name, r)), view.current⟩).1,
      { m with heap := (m.heap.newClass
        ⟨x, g.program, .ofList (methods.map fun r => (r.name, r)), view.current⟩).2 })) >>=
    fun v => Eval.define x v .mutable) fun w' hw view _ hcurrent => ?_
  exact C.bind (C.newClass hmethods hcurrent) fun w'' _ v hv => C.define .mutable hx hv

theorem bindParams {params : List String} (hp : params ⊆ names) {args : List Value}
    (ha : ∀ v ∈ args, C.value w v) :
    C.Meets w k names S (Scriptlet.bindParams params args) fun _ _ => True := by
  induction params generalizing w args with
  | nil => exact C.done ()
  | cons x params ih =>
    cases args with
    | nil => exact C.done ()
    | cons v args =>
      obtain ⟨hx, hparams⟩ := List.cons_subset.mp hp
      obtain ⟨hv, hargs⟩ := List.forall_mem_cons.mp ha
      refine C.next (C.define .mutable hx hv) fun w' hw _ => ?_
      exact ih hparams fun v hv => C.value_mono hw (hargs v hv)

/-! ## Loops -/

theorem repeatRound {x : Node} (hx : C.node x) (hr : x.repeats = true) {round : Eval Bool}
    (h : ∀ w', w ≤ w' → C.Meets w' k names S round fun _ _ => True) (n : Nat) :
    C.Meets w k names S (Eval.repeatRound round n) fun _ _ => True := by
  induction n generalizing w with
  | zero => exact C.repeated hx hr
  | succ n ih =>
    refine C.next (h w le_rfl) fun w' hw _ => C.ite (ih fun w'' hw' => ?_) (C.done ())
    exact h w'' (le_trans hw hw')

theorem visit {round : Value → Eval Bool} {items : List Value}
    (h : ∀ w', w ≤ w' → ∀ v, C.value w' v → C.Meets w' k names S (round v) fun _ _ => True)
    (hi : ∀ v ∈ items, C.value w v) :
    C.Meets w k names S (Eval.visit round items) fun _ _ => True := by
  induction items generalizing w with
  | nil => exact C.done ()
  | cons v items ih =>
    obtain ⟨hv, hitems⟩ := List.forall_mem_cons.mp hi
    refine C.next (h w le_rfl v hv) fun w' hw _ => C.ite (ih ?_ ?_) (C.done ())
    · exact fun w'' hw' => h w'' (le_trans hw hw')
    · exact fun v hv => C.value_mono hw (hitems v hv)

end Calculus

end Scriptlet
