import Scriptlet.Proofs.Eval.Evaluation

/-!
# Judgements on evaluations

Where only the routines of the values matter, and not what the values refer to, a
calculus is easier to give. A `Judgement` is what must be provided then. Its `Passes k S
act Q` is about an evaluation `act` that may nest `k` more calls; if `act` has a result,
the result satisfies `Q`, and if it stops early with a signal, the signal satisfies `S`.
The fields are the rules for the smallest evaluations and for the ways to compose them.
The theorems here derive the rules of a calculus with a single world
(`Judgement.calculus`), and so what the walk over the evaluator gives.

A rule for what reads or changes the machine may assume that the machine holds routines
that are allowed, and must allow for answers of the world outside that come later
(`Machine.feed`).
-/

namespace Scriptlet

/-! ## Machines -/

/-- The storage with more answers of the world outside, if that is where the files are. -/
def Storage.feed (s : Storage) (answers : List FileAnswer) : Storage :=
  match s with
  | .external given lines => .external (given ++ answers) lines
  | s => s

/-- The host with more answers of the world outside. -/
def Host.feed (h : Host) (answers : List FileAnswer) : Host :=
  { h with storage := h.storage.feed answers }

/-- A line does not wait for the world outside. -/
theorem Host.print_feed (h : Host) (line : String) (answers : List FileAnswer) :
    (h.feed answers).print line = ((h.print line).1, (h.print line).2.feed answers) := by
  obtain ⟨output, storage⟩ := h
  cases storage with
  | external given lines => obtain _ | ⟨_ | e, lines⟩ := lines <;> rfl
  | _ => rfl

/-- The machine with more answers of the world outside. -/
def Machine.feed (m : Machine) (answers : List FileAnswer) : Machine :=
  { m with host := m.host.feed answers }

theorem Stmt.begun_feed (s : Stmt) (m : Machine) (answers : List FileAnswer) :
    s.begun (m.feed answers) = (s.begun m).feed answers := by
  rw [s.begun_eq, s.begun_eq]
  rfl

/-- The environments are at the same place: the current scope and the global scope are the same, and
as many calls are in progress. -/
structure Environment.SamePlace (e e' : Environment) : Prop where
  current : e'.current = e.current
  globals : e'.globals = e.globals
  callDepth : e'.callDepth = e.callDepth

theorem Environment.SamePlace.refl (e : Environment) : e.SamePlace e := ⟨rfl, rfl, rfl⟩

theorem Environment.SamePlace.trans {e₁ e₂ e₃ : Environment} (h : e₁.SamePlace e₂)
    (h' : e₂.SamePlace e₃) : e₁.SamePlace e₃ :=
  ⟨h'.current.trans h.current, h'.globals.trans h.globals, h'.callDepth.trans h.callDepth⟩

/-- The second machine is at the place of the first, with the same limit on calls, and its routines
satisfy `P`. -/
structure Machine.Keeps (P : Routine → Prop) (m m' : Machine) : Prop where
  place : m.env.SamePlace m'.env
  callLimit : m'.env.callLimit = m.env.callLimit
  holds : m'.Holds P

namespace Machine.Keeps

variable {P : Routine → Prop} {m : Machine}

theorem refl (hm : m.Holds P) : m.Keeps P m := ⟨.refl _, rfl, hm⟩

theorem trans {m₁ m₂ m₃ : Machine} (h : m₁.Keeps P m₂) (h' : m₂.Keeps P m₃) : m₁.Keeps P m₃ :=
  ⟨h.place.trans h'.place, h'.callLimit.trans h.callLimit, h'.holds⟩

/-- What a machine keeps besides the environment and the heap may change. -/
theorem aside (hm : m.Holds P) {m' : Machine} (henv : m'.env = m.env) (hheap : m'.heap = m.heap) :
    m.Keeps P m' := by
  refine ⟨?_, ?_, ?_, ?_⟩
  · rw [henv]
    exact .refl _
  · rw [henv]
  · rw [henv]
    exact hm.env
  · rw [hheap]
    exact hm.heap

theorem begun (s : Stmt) (hm : m.Holds P) : m.Keeps P (s.begun m) := by
  rw [s.begun_eq]
  exact aside hm rfl rfl

theorem newHeap (hm : m.Holds P) {h : Heap} (hh : h.Holds P) : m.Keeps P { m with heap := h } :=
  ⟨.refl _, rfl, hm.env, hh⟩

theorem newEnv (hm : m.Holds P) {e : Environment} (he : e.Holds P) (hp : m.env.SamePlace e)
    (hl : e.callLimit = m.env.callLimit) : m.Keeps P { m with env := e } :=
  ⟨hp, hl, he, hm.heap⟩

end Machine.Keeps

/-- What leaves statements with the jumps `js`: a `return` with an allowed value, or one of the
jumps. -/
def Signal.Leaves (P : Routine → Prop) (js : List Jump) : Signal → Prop :=
  Signal.Leaving (Value.Has P) js

/-- Values with allowed routines are closed under reading. -/
theorem Heap.Holds.closed {P : Routine → Prop} {h : Heap} (hh : h.Holds P) :
    h.Closed (Value.Has P) where
  items _ := hh.items _
  entries _ := hh.entries _
  fields _ := hh.fields _
  ownClass _ := trivial
  method _ hv hf := hh.method hv hf

/-! ## What a judgement provides -/

/-- A way to judge evaluations. -/
structure Judgement where
  /-- The routines that may be called. -/
  routine : Routine → Prop
  /-- The expressions and statements that may be evaluated. -/
  node : Node → Prop
  /-- The jumps that may leave the body of a routine or a program, which then fails. -/
  jump : Jump → Prop
  Passes {α : Type} (level : Nat) (signals : Signal → Prop) (act : Eval α) (result : α → Prop) : Prop
  made {x : Node} : node x → ∀ r ∈ x.routines, routine r
  body {r : Routine} : routine r → ∀ x ∈ stmtsNodes r.body, node x
  bodyJump {r : Routine} : routine r → ∀ j ∈ stmtsJumps r.body, jump j
  pure {α : Type} {k : Nat} {S : Signal → Prop} {a : α} {Q : α → Prop} : Q a →
    Passes k S (Pure.pure a) Q
  bind {α β : Type} {k : Nat} {S : Signal → Prop} {act : Eval α} {f : α → Eval β} {Q : α → Prop}
    {R : β → Prop} : Passes k S act Q → (∀ a, Q a → Passes k S (f a) R) → Passes k S (act >>= f) R
  mono {α : Type} {k : Nat} {S S' : Signal → Prop} {act : Eval α} {Q Q' : α → Prop} :
    Passes k S act Q → (∀ s, S s → S' s) → (∀ a, Q a → Q' a) → Passes k S' act Q'
  signal {α : Type} {k : Nat} {S : Signal → Prop} {s : Signal} {Q : α → Prop} : S s →
    Passes k S (throw (.signal s)) Q
  fail {α : Type} {k : Nat} {S : Signal → Prop} {c : Cause} {Q : α → Prop} : c.isJump = false →
    Passes k S (Eval.fail c) Q
  /-- What is read off the machine does not depend on answers that come later. -/
  get {β : Type} {k : Nat} {S : Signal → Prop} {f : Machine → Eval β} {R : β → Prop} :
    (∀ m answers, f (m.feed answers) = f m) → (∀ m, m.Holds routine → Passes k S (f m) R) →
    Passes k S (MonadState.get >>= f) R
  modifyGet {α : Type} {k : Nat} {S : Signal → Prop} {f : Machine → α × Machine} {Q : α → Prop} :
    (∀ m answers, f (m.feed answers) = ((f m).1, (f m).2.feed answers)) →
    (∀ m, m.Holds routine → m.Keeps routine (f m).2 ∧ Q (f m).1) →
    Passes k S (MonadState.modifyGet f) Q
  fetch {k : Nat} {S : Signal → Prop} (path : String) :
    Passes k S (Eval.ask fun host => host.fetch path) fun _ => True
  save {k : Nat} {S : Signal → Prop} (path text : String) :
    Passes k S (Eval.ask fun host => host.save path text) fun _ => True
  located {α : Type} {k : Nat} {S : Signal → Prop} {act : Eval α} {Q : α → Prop} {x : Node} :
    node x → Passes k S act Q → Passes k S (Eval.located x.position act) Q
  inScope {α : Type} {k : Nat} {S : Signal → Prop} {act : Eval α} {Q : α → Prop} (r : Ref .scope) :
    Passes k S act Q → Passes k S (Eval.inScope r act) Q
  /-- Within a call, one call fewer can nest. -/
  inCall {α : Type} {k : Nat} {S : Signal → Prop} {act : Eval α} {Q : α → Prop} :
    Passes k S act Q → Passes (k + 1) S (Eval.inCall act) Q
  /-- No signal gets through the end of a call or of a program. -/
  settling {k : Nat} {S : Signal → Prop} {act : Eval Value} {js : List Jump}
    {settle : Except Stop Value → Except Stop Value} :
    settle = callResult ∨ settle = programResult → (∀ j ∈ js, jump j) →
    Passes k (Signal.Leaves routine js) act (Value.Has routine) →
    Passes k S (Eval.settling settle act) (Value.Has routine)
  /-- Of the signals that leave its body, a loop lets only a `return` through. -/
  loopBody {k : Nat} {body : Eval Value} {Q : Value → Prop} {js : List Jump} (js' : List Jump) :
    Passes k (Signal.Leaves routine js) (Eval.inNewScope body) Q →
    Passes k (Signal.Leaves routine js') (Eval.loopBody body) fun _ => True
  /-- Where no call can nest, none is begun. -/
  uncalled {α : Type} {S : Signal → Prop} {Q : α → Prop} :
    Passes 0 S (throw (.unfinished .outOfFuel)) Q
  /-- Only a loop whose test says how often it runs can run too often. -/
  repeated {α : Type} {k : Nat} {S : Signal → Prop} {Q : α → Prop} {x : Node} : node x →
    x.repeats = true → Passes k S (throw (.unfinished .outOfFuel)) Q

namespace Judgement

variable (J : Judgement) {α β : Type} {k : Nat} {S : Signal → Prop} {act : Eval α} {Q : α → Prop}

/-! ## Steps of the machine -/

theorem modify {f : Machine → Machine}
    (hf : ∀ (m : Machine) answers, f (m.feed answers) = (f m).feed answers)
    (h : ∀ m : Machine, m.Holds J.routine → m.Keeps J.routine (f m)) :
    J.Passes k S (modify f) fun _ => True :=
  J.modifyGet (fun m answers => congrArg (Prod.mk ()) (hf m answers)) fun m hm => ⟨h m hm, trivial⟩

theorem log (e : Event) : J.Passes k S (Eval.log e) fun _ => True :=
  J.modify (fun _ _ => rfl) fun _ hm => .aside hm rfl rfl

theorem newScope (parent : Ref .scope) : J.Passes k S (Eval.newScope parent) fun _ => True :=
  J.modifyGet (fun _ _ => rfl) fun _ hm =>
    ⟨.newEnv hm (hm.env.newScope _) ⟨rfl, rfl, rfl⟩ rfl, trivial⟩

theorem inNewScope (h : J.Passes k S act Q) : J.Passes k S (Eval.inNewScope act) Q :=
  J.get (fun _ _ => rfl) fun _ _ => J.bind (J.newScope _) fun r _ => J.inScope r h

theorem lookup (x : String) : J.Passes k S (Eval.lookup x) (Value.Has J.routine) := by
  refine J.get (fun _ _ => rfl) fun m hm => ?_
  split
  · rename_i v hv
    exact J.pure (hm.env.lookup hv)
  · exact J.fail rfl

/-- Binding a name, also in a scope that the environment determines. -/
theorem defineIn (r : Environment → Ref .scope) (x : String) {v : Value} (hv : v.Has J.routine)
    (mode : Mode) :
    J.Passes k S (Eval.modifyEnv fun e => e.defineIn (r e) x v mode) fun _ => True :=
  J.modify (fun _ _ => rfl) fun _ hm =>
    .newEnv hm (hm.env.defineIn _ x hv mode) ⟨rfl, rfl, rfl⟩ rfl

theorem assign (x : String) {v : Value} (hv : v.Has J.routine) :
    J.Passes k S (Eval.assign x v) fun _ => True := by
  refine J.get (fun _ _ => rfl) fun m _ => ?_
  dsimp only
  cases ha : m.env.assignable m.env.current x with
  | ok owner => exact J.defineIn (fun _ => owner) x hv .mutable
  | error c =>
    unfold Environment.assignable at ha
    split at ha <;> cases ha
    · exact J.defineIn (fun e => e.globals) x hv .mutable
    · exact J.fail rfl

theorem write (place : Place) {v : Value} (hv : v.Has J.routine) :
    J.Passes k S (Eval.write place v) fun _ => True :=
  J.modify (fun _ _ => rfl) fun _ hm => .newHeap hm (hm.heap.write place hv)

theorem newArray {items : List Value} (hi : ∀ v ∈ items, v.Has J.routine) :
    J.Passes k S (Eval.newArray items) (Value.Has J.routine) :=
  J.modifyGet (fun _ _ => rfl) fun _ hm =>
    ⟨.newHeap hm (hm.heap.newArray fun v hv => hi v (List.mem_toArray.mp hv)), trivial⟩

theorem newObject {entries : OrderedMap Value} (he : entries.All (Value.Has J.routine)) :
    J.Passes k S (Eval.newObject entries) (Value.Has J.routine) :=
  J.modifyGet (fun _ _ => rfl) fun _ hm => ⟨.newHeap hm (hm.heap.newObject he), trivial⟩

theorem numbered : J.Passes k S numberProgram fun _ => True :=
  J.modifyGet (fun _ _ => rfl) fun _ hm => ⟨.newEnv hm hm.env ⟨rfl, rfl, rfl⟩ rfl, trivial⟩

theorem print (line : String) :
    J.Passes k S (Eval.ask fun host => host.print line) fun _ => True := by
  rw [Eval.ask_print]
  refine J.modifyGet (fun m answers => ?_) fun _ hm => ⟨.aside hm rfl rfl, trivial⟩
  have hprint : (m.feed answers).host.print line = _ := m.host.print_feed line answers
  rw [Host.printed, Host.printed, hprint]
  rfl

/-! ## The calculus of a judgement -/

/-- A judgement as a calculus: of the cells nothing is known, and any names may be declared. -/
def calculus : Calculus where
  World := Unit
  order := PUnit.instLinearOrder.toPartialOrder.toPreorder
  routine := J.routine
  node := J.node
  jump := J.jump
  value _ := Value.Has J.routine
  scope _ _ := True
  heap _ h := h.Holds J.routine
  Meets _ k _ S act Q := J.Passes k (S ()) act (Q ())
  made := J.made
  body := J.body
  bodyJump := J.bodyJump
  value_mono _ hv := hv
  scope_mono _ _ := trivial
  plain {_ v} hv := by cases v <;> trivial
  closed hh := hh.closed
  closure _ hr _ := ⟨hr, trivial⟩
  calledRoutine hf := (Value.has_function.mp hf).1
  calledScope _ := trivial
  calledReceiver hf := (Value.has_function.mp hf).2 _
  pure h := J.pure (h () le_rfl)
  bind h hf := J.bind h fun a ha => hf () le_rfl a ha
  mono h _ hS hQ := J.mono h (hS ()) (hQ ())
  signal h := J.signal (h () le_rfl)
  fail := J.fail
  look {_ _ _ _ _ f _} h := J.get (f := fun m => f m.view) (fun _ _ => rfl) fun m hm =>
    h () le_rfl m.view hm.heap trivial
  log _ := J.log _
  begun s := J.modify s.begun_feed fun _ hm => .begun s hm
  lookup := J.lookup
  assign x _ hv := J.assign x hv
  define mode _ hv := J.defineIn (fun e => e.current) _ hv mode
  write place _ hv := J.write place hv
  newArray := J.newArray
  newObject := J.newObject
  newClass hc _ := J.modifyGet (fun _ _ => rfl) fun _ hm =>
    ⟨.newHeap hm (hm.heap.newClass hc), trivial⟩
  newInstance _ := J.modifyGet (fun _ _ => rfl) fun _ hm =>
    ⟨.newHeap hm (hm.heap.newInstance _), trivial⟩
  print := J.print
  fetch := J.fetch
  save := J.save
  interrupt := J.modify (fun _ _ => rfl) fun _ hm => .aside hm rfl rfl
  numbered := J.numbered
  located := J.located
  newReceiverScope _ hv := J.bind (J.newScope _) fun scope _ =>
    J.bind (J.defineIn (fun _ => scope) "this" hv .constant) fun _ _ => J.pure trivial
  within _ _ h := J.bind (J.newScope _) fun r _ => J.inScope r (h () le_rfl)
  inCall := J.inCall
  settling := J.settling
  loopBody := J.loopBody
  uncalled := J.uncalled
  repeated := J.repeated

/-- Calls of values with allowed routines pass. -/
def Calls (J : Judgement) (k : Nat) (call : Value → List Value → Eval Value) : Prop :=
  ∀ (S : Signal → Prop) {v : Value} {args : List Value}, v.Has J.routine →
    (∀ a ∈ args, a.Has J.routine) → J.Passes k S (call v args) (Value.Has J.routine)

variable {J} {g : Engine}

theorem Calls.meets (hg : J.Calls k g.call) : J.calculus.Calls k g.call :=
  fun _ _ S _ _ hv ha => hg (S ()) hv ha

theorem expr (hg : J.Calls k g.call) (e : Expr) (h : ∀ x ∈ e.nodes, J.node x) :
    J.Passes k S (evalExpr g e) (Value.Has J.routine) :=
  have meets : J.calculus.Meets () k [] (fun _ => S) (evalExpr g e) J.calculus.value :=
    Calculus.expr hg.meets e h
  meets

theorem stmt (hg : J.Calls k g.call) (s : Stmt) (h : ∀ x ∈ s.nodes, J.node x) :
    J.Passes k (Signal.Leaves J.routine s.jumps) (evalStmt g s) (Value.Has J.routine) :=
  Calculus.stmt (C := J.calculus) hg.meets s h (w := ())

theorem stmts (hg : J.Calls k g.call) (ss : List Stmt) (h : ∀ x ∈ stmtsNodes ss, J.node x)
    {last : Value} (hlast : last.Has J.routine) :
    J.Passes k (Signal.Leaves J.routine (stmtsJumps ss)) (evalStmts g last ss)
      (Value.Has J.routine) :=
  Calculus.stmts (C := J.calculus) hg.meets ss h (w := ()) hlast

variable (J)

/-- Calls pass, where as many can nest as there is fuel. -/
theorem calls (fuel : Nat) : J.Calls fuel (callValue fuel) :=
  fun S _ _ hv ha => J.calculus.calls fuel () [] (fun _ => S) hv ha

/-- A program passes once its limit on calls is set. -/
theorem settled (fuel : Nat) {p : Program} (h : ∀ x ∈ stmtsNodes p.statements, J.node x)
    (hjs : ∀ j ∈ stmtsJumps p.statements, J.jump j) : J.Passes fuel S (do
      let n ← numberProgram
      Eval.settling programResult (evalStmts (.of fuel n) .undefined p.statements))
      (Value.Has J.routine) :=
  J.calculus.settled (w := ()) (S := fun _ => S) fuel h hjs

end Judgement

end Scriptlet
