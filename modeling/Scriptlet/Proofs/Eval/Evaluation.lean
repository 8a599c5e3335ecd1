import Scriptlet.Proofs.Eval.Calculus

/-!
# Every evaluation meets the calculus

The walk over the evaluator, for any calculus: expressions and statements by recursion on
the syntax, given what calls of values do, and calls by induction on the fuel. An
expression, a call and a program declare no names in the current scope and let no signal
through, whatever `names` and `S` are; a statement declares the names of its text, and
lets through the jumps of its text that leave it, and `return`.
-/

namespace Scriptlet

namespace Calculus

/-- Calls of values meet the calculus. -/
def Calls (C : Calculus) (k : Nat) (call : Value → List Value → Eval Value) : Prop :=
  ∀ (w : C.World) (names : List String) (S : C.World → Signal → Prop) {v : Value}
    {args : List Value}, C.value w v → (∀ a ∈ args, C.value w a) →
    C.Meets w k names S (call v args) C.value

/-- The statements of an allowed routine meet the calculus, in each program. -/
def RunsBodies (C : Calculus) (k : Nat) (run : Nat → List Stmt → Eval Value) : Prop :=
  ∀ (w : C.World) (n : Nat) {r : Routine}, C.routine r →
    C.Meets w k (r.params ++ stmtsDeclared r.body)
      (fun w => Signal.Leaving (C.value w) (stmtsJumps r.body)) (run n r.body) C.value

variable {C : Calculus} {k : Nat} {g : Engine}

/-! ## Expressions -/

mutual

theorem expr (hg : C.Calls k g.call) (e : Expr) (h : ∀ x ∈ e.nodes, C.node x) {w : C.World}
    {names : List String} {S : C.World → Signal → Prop} :
    C.Meets w k names S (evalExpr g e) C.value := by
  cases e with
  | integer p n | float p x | string p s | boolean p b | null p | undefined p =>
    rw [evalExpr]
    exact C.step (h _ List.mem_cons_self) fun w' _ => C.pureValue (C.plain trivial)
  | identifier p x =>
    rw [evalExpr]
    exact C.step (h _ List.mem_cons_self) fun w' _ => C.lookup x
  | unary p op x =>
    obtain ⟨hself, hx⟩ := List.forall_mem_cons.mp h
    rw [evalExpr]
    refine C.step hself fun w' _ => ?_
    exact C.bind (expr hg x hx) fun w' _ v _ => C.ofPlain (.applyUnary op v)
  | binary p op l r =>
    obtain ⟨hself, h⟩ := List.forall_mem_cons.mp h
    obtain ⟨hl, hr⟩ := List.forall_mem_append.mp h
    rw [evalExpr]
    refine C.step hself fun w' _ => ?_
    refine C.bind (expr hg l hl) fun w' _ a _ => C.bind (expr hg r hr) fun w' _ b _ => ?_
    exact C.look (f := fun view => Eval.ofExcept (view.heap.applyBinary op a b))
      fun w' _ view _ _ => C.ofPlain (.applyBinary view.heap op a b)
  | logical p op l r =>
    obtain ⟨hself, h⟩ := List.forall_mem_cons.mp h
    obtain ⟨hl, hr⟩ := List.forall_mem_append.mp h
    rw [evalExpr]
    refine C.step hself fun w' _ => C.bind (expr hg l hl) fun w' _ a ha => ?_
    exact C.ite (C.pureValue ha) (expr hg r hr)
  | assign p target value =>
    cases target with
    | name x =>
      obtain ⟨hself, hvalue⟩ := List.forall_mem_cons.mp h
      rw [evalExpr]
      refine C.step hself fun w' _ => C.bind (expr hg value hvalue) fun w' _ v hv => ?_
      exact C.next (C.assign x hv) fun w'' hw _ => C.pureValue (C.value_mono hw hv)
    | member owner x =>
      obtain ⟨hself, h⟩ := List.forall_mem_cons.mp h
      obtain ⟨ho, hvalue⟩ := List.forall_mem_append.mp h
      rw [evalExpr]
      refine C.step hself fun w' _ => C.bind (expr hg owner ho) fun w' _ o _ => ?_
      refine C.bind (expr hg value hvalue) fun w₁ _ v hv => ?_
      refine C.next (C.ofExcept (.memberPlace o x) fun _ _ _ _ => trivial) fun w₂ hw place => ?_
      have hv := C.value_mono hw hv
      exact C.next (C.write place hv) fun w₃ hw' _ => C.pureValue (C.value_mono hw' hv)
    | index owner key =>
      obtain ⟨hself, h⟩ := List.forall_mem_cons.mp h
      obtain ⟨ho, h⟩ := List.forall_mem_append.mp h
      obtain ⟨hk, hvalue⟩ := List.forall_mem_append.mp h
      rw [evalExpr]
      refine C.step hself fun w' _ => C.bind (expr hg owner ho) fun w' _ o _ => ?_
      refine C.bind (expr hg key hk) fun w' _ key _ => ?_
      refine C.bind (expr hg value hvalue) fun w₁ _ v hv => ?_
      refine C.look (f := fun view => Eval.ofExcept (view.heap.indexPlace o key) >>= fun place =>
        Eval.write place v >>= fun _ => Pure.pure v) fun w₂ hw view _ _ => ?_
      have hv := C.value_mono hw hv
      refine C.next (C.ofExcept (.indexPlace view.heap o key) fun _ _ _ _ => trivial)
        fun w₃ hw' place => ?_
      have hv := C.value_mono hw' hv
      exact C.next (C.write place hv) fun w₄ hw'' _ => C.pureValue (C.value_mono hw'' hv)
  | call p callee args =>
    obtain ⟨hself, h⟩ := List.forall_mem_cons.mp h
    obtain ⟨hc, ha⟩ := List.forall_mem_append.mp h
    rw [evalExpr]
    refine C.step hself fun w' _ => C.bind (expr hg callee hc) fun w₁ _ f hf => ?_
    exact C.bind (exprs hg args ha) fun w₂ hw vs hvs => hg w₂ names S (C.value_mono hw hf) hvs
  | group p x =>
    obtain ⟨hself, hx⟩ := List.forall_mem_cons.mp h
    rw [evalExpr]
    exact C.step hself fun w' _ => expr hg x hx
  | array p items =>
    obtain ⟨hself, hitems⟩ := List.forall_mem_cons.mp h
    rw [evalExpr]
    refine C.step hself fun w' _ => ?_
    exact C.bind (exprs hg items hitems) fun w' _ vs hvs => C.newArray hvs
  | object p es =>
    obtain ⟨hself, hes⟩ := List.forall_mem_cons.mp h
    rw [evalExpr]
    refine C.step hself fun w' _ => ?_
    exact C.bind (entries hg es hes OrderedMap.All.empty) fun w' _ map hmap => C.newObject hmap
  | member p owner x =>
    obtain ⟨hself, ho⟩ := List.forall_mem_cons.mp h
    rw [evalExpr]
    refine C.step hself fun w' _ => C.bind (expr hg owner ho) fun w₁ _ o hv => ?_
    refine C.look (f := fun view => Eval.ofExcept (view.heap.getMember o x))
      fun w₂ hw view hh _ => ?_
    exact C.ofGives ((C.closed hh).getMember (fun _ => C.plain) (C.value_mono hw hv) x).gives
  | index p owner key =>
    obtain ⟨hself, h⟩ := List.forall_mem_cons.mp h
    obtain ⟨ho, hk⟩ := List.forall_mem_append.mp h
    rw [evalExpr]
    refine C.step hself fun w' _ => C.bind (expr hg owner ho) fun w₁ _ o hv => ?_
    refine C.bind (expr hg key hk) fun w₂ hw key _ => ?_
    refine C.look (f := fun view => Eval.ofExcept (view.heap.getIndex o key))
      fun w₃ hw' view hh _ => ?_
    have hv := C.value_mono (le_trans hw hw') hv
    exact C.ofGives ((C.closed hh).getIndex (fun _ => C.plain) hv key).gives
  | lambda p r =>
    have hself := h _ List.mem_cons_self
    rw [evalExpr]
    refine C.step hself fun w' _ => ?_
    exact C.newFunction g (C.made hself r (List.mem_singleton_self r))

theorem exprs (hg : C.Calls k g.call) (es : List Expr) (h : ∀ x ∈ exprsNodes es, C.node x)
    {w : C.World} {names : List String} {S : C.World → Signal → Prop} :
    C.Meets w k names S (evalArgs g es) fun w vs => ∀ v ∈ vs, C.value w v := by
  cases es with
  | nil => exact C.pure fun _ _ v hv => nomatch hv
  | cons e es =>
    obtain ⟨he, hes⟩ := List.forall_mem_append.mp h
    rw [evalArgs]
    refine C.bind (expr hg e he) fun w₁ _ v hv => C.bind (exprs hg es hes) fun w₂ hw vs hvs => ?_
    refine C.pure fun w₃ hw' => List.forall_mem_cons.mpr ⟨?_, fun v hv => ?_⟩
    · exact C.value_mono (le_trans hw hw') hv
    · exact C.value_mono hw' (hvs v hv)

theorem entries (hg : C.Calls k g.call) (es : List Entry) (h : ∀ x ∈ entriesNodes es, C.node x)
    {w : C.World} {names : List String} {S : C.World → Signal → Prop} {map : OrderedMap Value}
    (hmap : map.All (C.value w)) :
    C.Meets w k names S (evalEntries g map es) fun w map => map.All (C.value w) := by
  have later {w w' : C.World} (hw : w ≤ w') {map : OrderedMap Value} (hmap : map.All (C.value w)) :
      map.All (C.value w') := fun key v hv => C.value_mono hw (hmap key v hv)
  cases es with
  | nil =>
    rw [evalEntries]
    exact C.pure fun w' hw => later hw hmap
  | cons entry es =>
    obtain ⟨key, value⟩ := entry
    obtain ⟨hvalue, hes⟩ := List.forall_mem_append.mp h
    rw [evalEntries]
    refine C.bind (expr hg value hvalue) fun w' hw v hv => ?_
    exact entries hg es hes ((later hw hmap).insert key hv)

end

/-! ## Statements -/

mutual

theorem stmt (hg : C.Calls k g.call) (s : Stmt) (h : ∀ x ∈ s.nodes, C.node x) {w : C.World} :
    C.Meets w k s.declared (fun w => Signal.Leaving (C.value w) s.jumps) (evalStmt g s)
      C.value := by
  cases s with
  | expression p e =>
    obtain ⟨hself, he⟩ := List.forall_mem_cons.mp h
    rw [evalStmt]
    exact C.traced hself fun w' _ => expr hg e he
  | declare p mode x init =>
    obtain ⟨hself, hinit⟩ := List.forall_mem_cons.mp h
    have hx : x ∈ (Stmt.declare p mode x init).declared := List.mem_singleton_self x
    cases init with
    | none =>
      rw [evalStmt]
      refine C.traced hself fun w' _ => ?_
      exact C.next (C.define mode hx (C.plain (v := .undefined) trivial)) fun _ _ _ => C.undefined
    | some init =>
      rw [evalStmt]
      refine C.traced hself fun w' _ => ?_
      refine C.bind (expr hg init hinit) fun w' _ v hv => ?_
      exact C.next (C.define mode hx hv) fun _ _ _ => C.undefined
  | block p body =>
    obtain ⟨hself, hbody⟩ := List.forall_mem_cons.mp h
    rw [evalStmt]
    refine C.traced hself fun w' _ => C.inNewScope (stmtsDeclared body) fun w'' _ => ?_
    exact stmts hg body hbody (C.plain trivial)
  | conditional p test yes no =>
    obtain ⟨hself, h⟩ := List.forall_mem_cons.mp h
    obtain ⟨htest, h⟩ := List.forall_mem_append.mp h
    obtain ⟨hyes, hno⟩ := List.forall_mem_append.mp h
    have yes_meets (w' : C.World) := C.mono (stmt (w := w') hg yes hyes)
      (List.subset_append_left yes.declared (branchDeclared no))
      (fun _ => Signal.Leaving.mono (List.subset_append_left yes.jumps (branchJumps no)))
      fun _ _ hv => hv
    cases no with
    | none =>
      rw [evalStmt]
      refine C.traced hself fun w' _ => ?_
      exact C.bind (expr hg test htest) fun w' _ c _ => C.ite (yes_meets w') C.undefined
    | some no =>
      have no_meets (w' : C.World) := C.mono (stmt (w := w') hg no hno)
        (List.subset_append_right yes.declared no.declared)
        (fun _ => Signal.Leaving.mono (List.subset_append_right yes.jumps no.jumps))
        fun _ _ hv => hv
      rw [evalStmt]
      refine C.traced hself fun w' _ => ?_
      exact C.bind (expr hg test htest) fun w' _ c _ => C.ite (yes_meets w') (no_meets w')
  | whileLoop p test body =>
    obtain ⟨hself, h⟩ := List.forall_mem_cons.mp h
    obtain ⟨htest, hbody⟩ := List.forall_mem_append.mp h
    rw [evalStmt]
    refine C.traced hself fun w' _ => ?_
    refine C.next (C.repeatRound hself rfl (fun w' _ => ?_) g.rounds) fun _ _ _ => C.undefined
    refine C.next C.checkInterrupt fun w' _ _ => C.bind (expr hg test htest) fun w' _ c _ => ?_
    exact C.ite (C.loopBody _ (C.inNewScope _ fun w' _ => stmt hg body hbody)) (C.done false)
  | forLoop p init test next body =>
    obtain ⟨hself, h⟩ := List.forall_mem_cons.mp h
    obtain ⟨hinit, h⟩ := List.forall_mem_append.mp h
    obtain ⟨htest, h⟩ := List.forall_mem_append.mp h
    obtain ⟨hnext, hbody⟩ := List.forall_mem_append.mp h
    -- The loop takes the jumps of its body; those of what it starts with are not in the body.
    have body_meets (w : C.World) : C.Meets w k (branchDeclared init)
        (fun w => Signal.Leaving (C.value w) (branchJumps init))
        (Eval.loopBody (evalStmt g body)) fun _ _ => True :=
      C.loopBody _ (C.inNewScope body.declared fun w' _ => stmt hg body hbody)
    have round (w : C.World) (holds : Bool) : C.Meets w k (branchDeclared init)
        (fun w => Signal.Leaving (C.value w) (branchJumps init)) (do
        if holds then
          if ← Eval.loopBody (evalStmt g body) then
            match next with
            | some next => let _ ← evalExpr g next
            | none => Pure.pure ()
            return true
          else return false
        else return false) fun _ _ => True := by
      refine C.ite (C.next (body_meets w) fun w' _ _ => C.ite ?_ (C.done false)) (C.done false)
      cases next with
      | none => exact C.done true
      | some next => exact C.bind (expr hg next hnext) fun _ _ _ _ => C.done true
    rw [evalStmt]
    refine C.traced hself fun w' _ => ?_
    dsimp only
    generalize hrounds : Eval.repeatRound _ g.rounds = rounds
    have rounds_meet (w : C.World) : C.Meets w k (branchDeclared init)
        (fun w => Signal.Leaving (C.value w) (branchJumps init)) rounds fun _ _ => True := by
      rw [← hrounds]
      refine C.repeatRound hself rfl (fun w' _ => C.next C.checkInterrupt fun w' _ _ => ?_) g.rounds
      cases test with
      | none => exact round w' true
      | some test => exact C.bind (expr hg test htest) fun w' _ c _ => round w' c.truthy
    refine C.next (C.inNewScope (branchDeclared init) fun w' _ => ?_) fun _ _ _ => C.undefined
    cases init with
    | none => exact rounds_meet w'
    | some init => exact C.bind (stmt hg init hinit) fun w' _ _ _ => rounds_meet w'
  | foreachLoop p x items body =>
    obtain ⟨hself, h⟩ := List.forall_mem_cons.mp h
    obtain ⟨hitems, hbody⟩ := List.forall_mem_append.mp h
    rw [evalStmt]
    refine C.traced hself fun w' _ => C.bind (expr hg items hitems) fun w₁ _ v hv => ?_
    refine C.look (f := fun view => Eval.ofExcept (view.heap.loopItems v) >>= fun visited =>
      Eval.visit (fun item => do
        Eval.checkInterrupt
        Eval.inNewScope do
          Eval.define x item .mutable
          Eval.loopBody (evalStmt g body)) visited >>= fun _ => Pure.pure Value.undefined)
      fun w₂ hw view hh _ => ?_
    refine C.bind (Q := fun w items => ∀ v ∈ items, C.value w v) (C.ofExcept
      ((C.closed hh).loopItems (fun _ => C.plain) (C.value_mono hw hv)).gives
      fun w₃ hw' items hitems v hv => C.value_mono hw' (hitems v hv))
      fun w₃ _ visited hvisited => ?_
    refine C.next (C.visit (fun w' _ item hitem => ?_) hvisited) fun _ _ _ => C.undefined
    refine C.next C.checkInterrupt fun w₁ hw₁ _ => C.inNewScope [x] fun w₂ hw₂ => ?_
    have hitem := C.value_mono (le_trans hw₁ hw₂) hitem
    refine C.next (C.define .mutable (List.mem_singleton_self x) hitem) fun w₃ _ _ => ?_
    exact C.loopBody _ (C.inNewScope _ fun w' _ => stmt hg body hbody)
  | function p r =>
    have hself := h _ List.mem_cons_self
    rw [evalStmt]
    refine C.traced hself fun w' _ => ?_
    refine C.bind (C.newFunction g (C.made hself r (List.mem_singleton_self r)))
      fun w' _ f hf => ?_
    exact C.next (C.define .mutable (List.mem_singleton_self r.name) hf) fun _ _ _ => C.undefined
  | classDef p x methods =>
    have hself := h _ List.mem_cons_self
    rw [evalStmt]
    refine C.traced hself fun w' _ => ?_
    exact C.next (C.defineClass g (List.mem_singleton_self x) (C.made hself))
      fun _ _ _ => C.undefined
  | returnStmt p value =>
    obtain ⟨hself, hvalue⟩ := List.forall_mem_cons.mp h
    cases value with
    | none =>
      rw [evalStmt]
      refine C.traced hself fun w' _ => ?_
      exact C.signal fun _ _ => C.plain trivial
    | some value =>
      rw [evalStmt]
      refine C.traced hself fun w' _ => ?_
      exact C.bind (expr hg value hvalue) fun w' _ v hv => C.signal fun _ hw => C.value_mono hw hv
  | breakStmt p =>
    rw [evalStmt]
    refine C.traced (h _ List.mem_cons_self) fun w' _ => ?_
    exact C.signal fun _ _ => List.mem_singleton_self _
  | continueStmt p =>
    rw [evalStmt]
    refine C.traced (h _ List.mem_cons_self) fun w' _ => ?_
    exact C.signal fun _ _ => List.mem_singleton_self _

theorem stmts (hg : C.Calls k g.call) (ss : List Stmt) (h : ∀ x ∈ stmtsNodes ss, C.node x)
    {w : C.World} {last : Value} (hlast : C.value w last) :
    C.Meets w k (stmtsDeclared ss) (fun w => Signal.Leaving (C.value w) (stmtsJumps ss))
      (evalStmts g last ss) C.value := by
  cases ss with
  | nil =>
    rw [evalStmts]
    exact C.pureValue hlast
  | cons s ss =>
    obtain ⟨hs, hss⟩ := List.forall_mem_append.mp h
    rw [evalStmts]
    refine C.bind (C.mono (stmt hg s hs) ?_ (fun _ => Signal.Leaving.mono ?_) fun _ _ hv => hv)
      fun w' _ v hv => C.mono (stmts hg ss hss hv) ?_ (fun _ => Signal.Leaving.mono ?_)
        fun _ _ hv => hv
    · exact List.subset_append_left s.declared (stmtsDeclared ss)
    · exact List.subset_append_left s.jumps (stmtsJumps ss)
    · exact List.subset_append_right s.declared (stmtsDeclared ss)
    · exact List.subset_append_right s.jumps (stmtsJumps ss)

end

/-! ## Calls -/

variable {w : C.World} {names : List String} {S : C.World → Signal → Prop}
  {run : Nat → List Stmt → Eval Value}

theorem enterBody (hrun : C.RunsBodies k run) {f : Function} (hroutine : C.routine f.routine)
    {args : List Value} (ha : ∀ a ∈ args, C.value w a)
    {outer : Ref .scope} (houter : C.scope w outer) :
    C.Meets w k names (fun w => Signal.Leaving (C.value w) (stmtsJumps f.routine.body))
      (Eval.enterBody run f args outer) C.value := by
  refine C.within (f.routine.params ++ stmtsDeclared f.routine.body) houter fun w' hw => ?_
  refine C.next (C.bindParams (List.subset_append_left _ _) fun a hmem => ?_) fun w'' _ _ => ?_
  · exact C.value_mono hw (ha a hmem)
  · exact hrun w'' f.program hroutine

theorem runBody (hrun : C.RunsBodies k run) {f : Function} (hf : C.value w (.function f))
    {args : List Value} (ha : ∀ a ∈ args, C.value w a) :
    C.Meets w k names (fun w => Signal.Leaving (C.value w) (stmtsJumps f.routine.body))
      (Eval.runBody run f args) C.value := by
  have hroutine := C.calledRoutine hf
  unfold Eval.runBody
  split
  · rename_i r hr
    refine C.bind (C.newReceiverScope (C.calledScope hf) (C.calledReceiver hf hr))
      fun w' hw outer houter => ?_
    exact enterBody hrun hroutine (fun a hmem => C.value_mono hw (ha a hmem)) houter
  · exact enterBody hrun hroutine ha (C.calledScope hf)

theorem function (hrun : C.RunsBodies k run) {f : Function} (hf : C.value w (.function f))
    {args : List Value} (ha : ∀ a ∈ args, C.value w a) :
    C.Meets w (k + 1) names S (callFunction run f args) C.value := by
  rw [callFunction_eq]
  refine C.failIf rfl (C.settling (.inl rfl) (C.bodyJump (C.calledRoutine hf)) (C.inCall ?_))
  refine C.look (f := fun view => do
    Eval.log (.functionCalled f.routine.name view.callDepth)
    Eval.runBody run f args) fun w₁ hw₁ view _ _ => C.next (C.log rfl) fun w₂ hw₂ _ => ?_
  have hw := le_trans hw₁ hw₂
  exact runBody hrun (C.value_mono hw hf) fun a hmem => C.value_mono hw (ha a hmem)

/-- Each service of the host that the body of a built-in function asks for meets the calculus, so the
body does. -/
theorem action (name : String) {args : List Value} (ha : ∀ v ∈ args, C.value w v) (a : Action) :
    C.Meets w k names S (a.run name args) C.value := by
  have later {w w' : C.World} (hw : w ≤ w') (ha : ∀ v ∈ args, C.value w v) :
      ∀ v ∈ args, C.value w' v := fun v hv => C.value_mono hw (ha v hv)
  induction a generalizing w with
  | give result =>
    refine C.look (f := fun view => Pure.pure (view.heap.yielded args result))
      fun w' hw view hh _ => ?_
    exact C.pureValue ((C.closed hh).yielded (fun _ => C.plain) (later hw ha) result)
  | complain message => exact C.fail rfl
  | relay e => exact C.fail rfl
  | print line next ih => exact C.next (C.print line) fun w' hw reply => ih reply (later hw ha)
  | read path next ih => exact C.next (C.fetch path) fun w' hw reply => ih reply (later hw ha)
  | write path text next ih =>
    exact C.next (C.save path text) fun w' hw reply => ih reply (later hw ha)
  | interrupt next ih => exact C.next C.interrupt fun w' hw _ => ih (later hw ha)

theorem primitive (p : Primitive) {args : List Value} (ha : ∀ v ∈ args, C.value w v) :
    C.Meets w k names S (p.run args) C.value :=
  C.look (f := fun view => (p.body (args.map view.heap.sight)).run p.name args)
    fun _ hw _ _ _ => action p.name (fun v hv => C.value_mono hw (ha v hv)) _

theorem builtin (b : Builtin) {args : List Value} (ha : ∀ v ∈ args, C.value w v) :
    C.Meets w k names S (callBuiltin b args) C.value := by
  have body_meets : C.Meets w k names S (do
      Eval.log (.builtinCalled b.primitive.name args.length)
      b.primitive.run args) C.value :=
    C.next (C.log rfl) fun _ hw _ => primitive b.primitive fun v hv => C.value_mono hw (ha v hv)
  unfold callBuiltin
  dsimp only
  split
  · exact C.failIf rfl body_meets
  · exact body_meets

theorem instantiated (hrun : C.RunsBodies k run) {r : Ref .klass} (hr : C.value w (.klass r))
    {args : List Value} (ha : ∀ a ∈ args, C.value w a) :
    C.Meets w (k + 1) names S (instantiate run r args) C.value := by
  rw [instantiate_eq]
  refine C.bind (C.newInstance hr) fun w₁ hw₁ i hi => ?_
  refine C.look (f := fun view => Eval.construct run args i (view.heap.klass r))
    fun w₂ hw₂ view hh _ => ?_
  have hi := C.value_mono hw₂ hi
  have hr := C.value_mono (le_trans hw₁ hw₂) hr
  have ha : ∀ a ∈ args, C.value w₂ a := fun a hmem =>
    C.value_mono (le_trans hw₁ hw₂) (ha a hmem)
  unfold Eval.construct
  dsimp only
  split
  · rename_i f hf
    refine C.bind (function hrun ((C.closed hh).method hr hi hf) ha) fun w₃ hw₃ _ _ => ?_
    exact C.pureValue (C.value_mono hw₃ hi)
  · exact C.failIf rfl (C.pureValue hi)

theorem applied (hrun : C.RunsBodies k run) : C.Calls (k + 1) (applyValue run) := by
  intro w names S v args hv ha
  unfold applyValue
  split
  · exact function hrun hv ha
  · exact builtin _ ha
  · exact instantiated hrun hv ha
  · exact C.fail rfl

/-! ## Evaluation with fuel -/

variable (C)

/-- Calls meet the calculus, where as many can nest as there is fuel. -/
theorem calls (fuel : Nat) : C.Calls fuel (callValue fuel) := by
  induction fuel with
  | zero =>
    intro w names S v args _ _
    exact C.uncalled
  | succ fuel ih =>
    -- The body of the called routine is evaluated with less fuel, as part of its own program.
    refine applied fun w n r hr => ?_
    refine C.mono (stmts (g := ⟨n, callValue fuel, fuel⟩) ih r.body (C.body hr) (C.plain trivial))
      ?_ (fun _ _ hs => hs) fun _ _ hv => hv
    exact List.subset_append_right r.params (stmtsDeclared r.body)

/-- A program meets the calculus once its limit on calls is set. -/
theorem settled (fuel : Nat) {p : Program} (h : ∀ x ∈ stmtsNodes p.statements, C.node x)
    (hjs : ∀ j ∈ stmtsJumps p.statements, C.jump j) :
    C.Meets w fuel (stmtsDeclared p.statements) S (do
      let n ← numberProgram
      Eval.settling programResult (evalStmts (.of fuel n) .undefined p.statements)) C.value := by
  refine C.next C.numbered fun w' _ n => C.settling (.inr rfl) hjs ?_
  exact stmts (C.calls fuel) p.statements h (C.plain trivial)

end Calculus

end Scriptlet
