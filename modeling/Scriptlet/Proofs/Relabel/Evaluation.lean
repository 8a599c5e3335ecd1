import Scriptlet.Proofs.Relabel.Twins

/-!
# Relabelled code on a relabelled machine

The evaluator hands references, program numbers and positions on, and looks at them only to compare
values; it creates cells, but never asks how many there are. So code and its image are twins: the
walk over the syntax takes for granted that calls of values are, and these are by induction on the
fuel (`Relabeling.callValue`). The code must be of the program that the engine names, since that
says where its image stands.
-/

namespace Scriptlet

namespace Relabeling

variable {κ : Relabeling}

/-- Calls of values that stand for each other are twins. -/
def Calls (κ : Relabeling) (call call' : Value → List Value → Eval Value) : Prop :=
  ∀ n v v' args args', κ.Relates n v v' → List.Forall₂ (κ.Relates n) args args' →
    κ.Twins n (call v args) (call' v' args') κ.Relates

/-- The engines are for a program and its image. -/
structure Engines (κ : Relabeling) (g g' : Engine) : Prop where
  program : g'.program = κ.number g.program
  rounds : g'.rounds = g.rounds
  call : κ.Calls g.call g'.call

/-- The nodes are of the program with the number `a`. -/
def Has (κ : Relabeling) (a : Nat) (xs : List Node) : Prop := ∀ x ∈ xs, κ.node a x

namespace Has

variable {a : Nat} {x : Node} {xs ys : List Node}

theorem cons (h : κ.Has a (x :: xs)) : κ.node a x ∧ κ.Has a xs := List.forall_mem_cons.mp h

theorem append (h : κ.Has a (xs ++ ys)) : κ.Has a xs ∧ κ.Has a ys := List.forall_mem_append.mp h

end Has

theorem placed {a : Nat} {x : Node} (h : κ.node a x) : κ.Placed x.position (κ.place a x.position) :=
  ⟨a, x, h, rfl, rfl⟩

namespace Twins

variable {g g' : Engine}

theorem newFunction {n : Nat} (hg : κ.Engines g g') {r : Routine} (hr : κ.routine g.program r) :
    κ.Twins n (Eval.newFunction g r) (Eval.newFunction g' (move (κ.place g.program) r))
      κ.Relates :=
  look fun m m' hm _ => by
    rw [hg.program, hm.env.current]
    exact value (.unbound ⟨hr, nofun, rfl, rfl, rfl, rfl⟩ rfl rfl)

theorem defineClass {n : Nat} (hg : κ.Engines g g') (x : String) {methods : List Routine}
    (h : ∀ r ∈ methods, κ.routine g.program r) :
    κ.Twins n (Eval.defineClass g x methods)
      (Eval.defineClass g' x (move (κ.place g.program) methods)) Same := by
  have hmethods : (OrderedMap.ofList (methods.map fun r => (r.name, r))).Matches
      (fun r r' => κ.routine g.program r ∧ r' = move (κ.place g.program) r ∧
        g'.program = κ.number g.program)
      (OrderedMap.ofList ((move (κ.place g.program) methods).map fun r => (r.name, r))) := by
    refine .ofList ?_
    show List.Forall₂ _ _ ((methods.map (move (κ.place g.program))).map fun r => (r.name, r))
    rw [List.map_map, List.forall₂_map_left_iff, List.forall₂_map_right_iff, List.forall₂_same]
    exact fun r hr => ⟨r.name_move _, h r hr, rfl, hg.program⟩
  refine look fun m m' hm _ => ?_
  have hclass : κ.Classes
      ⟨x, g.program, .ofList (methods.map fun r => (r.name, r)), m.env.current⟩
      ⟨x, g'.program, .ofList ((move (κ.place g.program) methods).map fun r => (r.name, r)),
        m'.env.current⟩ := ⟨rfl, hmethods, hm.env.current⟩
  refine bind (Q := κ.Relates) (modifyGet fun m m' hm _ => ?_) fun _ _ _ _ hv => define x hv .mutable
  have hcell := hm.heap.newClass hclass
  exact ⟨{ hm with heap := hcell.2 }, Nat.le_refl _, hcell.1⟩

/-! ## Expressions -/

mutual

theorem expr {n : Nat} (hg : κ.Engines g g') (e : Expr) (h : κ.Has g.program e.nodes) :
    κ.Twins n (evalExpr g e) (evalExpr g' (move (κ.place g.program) e)) κ.Relates := by
  cases e with
  | integer p i =>
    show κ.Twins n _ (evalExpr g' (.integer (κ.place g.program p) i)) _
    unfold evalExpr
    exact step (placed h.cons.1) (value (.integer i))
  | float p x =>
    show κ.Twins n _ (evalExpr g' (.float (κ.place g.program p) x)) _
    unfold evalExpr
    exact step (placed h.cons.1) (value (.float x))
  | string p s =>
    show κ.Twins n _ (evalExpr g' (.string (κ.place g.program p) s)) _
    unfold evalExpr
    exact step (placed h.cons.1) (value (.string s))
  | boolean p b =>
    show κ.Twins n _ (evalExpr g' (.boolean (κ.place g.program p) b)) _
    unfold evalExpr
    exact step (placed h.cons.1) (value (.boolean b))
  | null p =>
    show κ.Twins n _ (evalExpr g' (.null (κ.place g.program p))) _
    unfold evalExpr
    exact step (placed h.cons.1) (value .null)
  | undefined p =>
    show κ.Twins n _ (evalExpr g' (.undefined (κ.place g.program p))) _
    unfold evalExpr
    exact step (placed h.cons.1) undefined
  | identifier p x =>
    show κ.Twins n _ (evalExpr g' (.identifier (κ.place g.program p) x)) _
    unfold evalExpr
    exact step (placed h.cons.1) (lookup x)
  | unary p op x =>
    obtain ⟨hself, hx⟩ := h.cons
    show κ.Twins n _ (evalExpr g' (.unary (κ.place g.program p) op (move (κ.place g.program) x))) _
    unfold evalExpr
    refine step (placed hself) ((expr hg x hx).bind fun k _ v v' hv => ?_)
    exact operation (applyUnary hv op)
  | binary p op l r =>
    obtain ⟨hself, h⟩ := h.cons
    obtain ⟨hl, hr⟩ := h.append
    show κ.Twins n _ (evalExpr g' (.binary (κ.place g.program p) op (move (κ.place g.program) l)
      (move (κ.place g.program) r))) _
    unfold evalExpr
    refine step (placed hself) ((expr hg l hl).bind fun k _ v v' hv => ?_)
    refine (expr hg r hr).bind fun k hk w w' hw => look fun m m' hm hsize => ?_
    exact operation (applyBinary (hv.mono (Nat.le_trans hk hsize)) (hw.mono hsize) hm.heap
      (Nat.le_refl _) op)
  | logical p op l r =>
    obtain ⟨hself, h⟩ := h.cons
    obtain ⟨hl, hr⟩ := h.append
    show κ.Twins n _ (evalExpr g' (.logical (κ.place g.program p) op (move (κ.place g.program) l)
      (move (κ.place g.program) r))) _
    unfold evalExpr
    refine step (placed hself) ((expr hg l hl).bind fun k _ v v' hv => ?_)
    rw [hv.truthy]
    exact ite (value hv) (expr hg r hr)
  | assign p target init =>
    cases target with
    | name x =>
      obtain ⟨hself, hinit⟩ := h.cons
      show κ.Twins n _ (evalExpr g' (.assign (κ.place g.program p) (.name x)
        (move (κ.place g.program) init))) _
      unfold evalExpr
      refine step (placed hself) ((expr hg init hinit).bind fun k _ v v' hv => ?_)
      exact (assign x hv).next fun k hk => value (hv.mono hk)
    | member owner x =>
      obtain ⟨hself, h⟩ := h.cons
      obtain ⟨ho, hinit⟩ := h.append
      show κ.Twins n _ (evalExpr g' (.assign (κ.place g.program p)
        (.member (move (κ.place g.program) owner) x) (move (κ.place g.program) init))) _
      unfold evalExpr
      refine step (placed hself) ((expr hg owner ho).bind fun k _ o o' ho => ?_)
      refine (expr hg init hinit).bind fun k _ v v' hv => ?_
      refine (ofExcept (memberPlace ho x) fun _ _ _ _ hspot => hspot).bind fun k hk spot _ hspot => ?_
      subst hspot
      have hv := hv.mono hk
      exact (write spot hv).next fun k hk => value (hv.mono hk)
    | index owner key =>
      obtain ⟨hself, h⟩ := h.cons
      obtain ⟨ho, h⟩ := h.append
      obtain ⟨hk, hinit⟩ := h.append
      show κ.Twins n _ (evalExpr g' (.assign (κ.place g.program p)
        (.index (move (κ.place g.program) owner) (move (κ.place g.program) key))
        (move (κ.place g.program) init))) _
      unfold evalExpr
      refine step (placed hself) ((expr hg owner ho).bind fun k _ o o' ho => ?_)
      refine (expr hg key hk).bind fun k₁ hk₁ key key' hkey => ?_
      refine (expr hg init hinit).bind fun k₂ hk₂ v v' hv => look fun m m' hm hsize => ?_
      have hv := hv.mono hsize
      have hkey := hkey.mono (Nat.le_trans hk₂ hsize)
      have ho := ho.mono (Nat.le_trans hk₁ (Nat.le_trans hk₂ hsize))
      refine (ofExcept (hm.heap.indexPlace ho hkey) fun _ _ _ _ hspot => hspot).bind
        fun k hk spot _ hspot => ?_
      subst hspot
      have hv := hv.mono hk
      exact (write spot hv).next fun k hk => value (hv.mono hk)
  | call p callee xs =>
    obtain ⟨hself, h⟩ := h.cons
    obtain ⟨hc, ha⟩ := h.append
    rw [Expr.move_call]
    unfold evalExpr
    refine step (placed hself) ((expr hg callee hc).bind fun k _ f f' hf => ?_)
    exact (args hg xs ha).bind fun k hk vs vs' hvs => hg.call k f f' vs vs' (hf.mono hk) hvs
  | group p x =>
    obtain ⟨hself, hx⟩ := h.cons
    show κ.Twins n _ (evalExpr g' (.group (κ.place g.program p) (move (κ.place g.program) x))) _
    unfold evalExpr
    exact step (placed hself) (expr hg x hx)
  | array p items =>
    obtain ⟨hself, hitems⟩ := h.cons
    rw [Expr.move_array]
    unfold evalExpr
    exact step (placed hself) ((args hg items hitems).bind fun _ _ _ _ hvs => newArray hvs)
  | object p es =>
    obtain ⟨hself, hes⟩ := h.cons
    rw [Expr.move_object]
    unfold evalExpr
    exact step (placed hself)
      ((entries hg es hes .empty).bind fun _ _ _ _ hmap => newObject hmap)
  | member p owner x =>
    obtain ⟨hself, ho⟩ := h.cons
    show κ.Twins n _
      (evalExpr g' (.member (κ.place g.program p) (move (κ.place g.program) owner) x)) _
    unfold evalExpr
    refine step (placed hself) ((expr hg owner ho).bind fun k _ o o' ho => ?_)
    exact look fun m m' hm hsize =>
      operation (hm.heap.getMember (Nat.le_refl _) (ho.mono hsize) x)
  | index p owner key =>
    obtain ⟨hself, h⟩ := h.cons
    obtain ⟨ho, hk⟩ := h.append
    show κ.Twins n _ (evalExpr g' (.index (κ.place g.program p) (move (κ.place g.program) owner)
      (move (κ.place g.program) key))) _
    unfold evalExpr
    refine step (placed hself) ((expr hg owner ho).bind fun k _ o o' ho => ?_)
    refine (expr hg key hk).bind fun k hk key key' hkey => look fun m m' hm hsize => ?_
    exact operation (hm.heap.getIndex (ho.mono (Nat.le_trans hk hsize)) (hkey.mono hsize))
  | lambda p r =>
    have hself := h.cons.1
    show κ.Twins n _ (evalExpr g' (.lambda (κ.place g.program p) (move (κ.place g.program) r))) _
    unfold evalExpr
    exact step (placed hself) (newFunction hg (κ.made hself r (List.mem_singleton_self r)))

theorem args {n : Nat} (hg : κ.Engines g g') (es : List Expr) (h : κ.Has g.program (exprsNodes es)) :
    κ.Twins n (evalArgs g es) (evalArgs g' (move (κ.place g.program) es))
      fun k => List.Forall₂ (κ.Relates k) := by
  match es with
  | [] => exact pure fun _ _ => .nil
  | e :: es =>
    obtain ⟨he, hes⟩ := h.append
    show κ.Twins n _
      (evalArgs g' (move (κ.place g.program) e :: move (κ.place g.program) es)) _
    unfold evalArgs
    refine (expr hg e he).bind fun k _ v v' hv => (args hg es hes).bind fun k hk vs vs' hvs => ?_
    refine pure fun k' hk' => .cons (hv.mono (Nat.le_trans hk hk')) ?_
    exact hvs.imp fun _ _ hv => hv.mono hk'

theorem entries {n : Nat} (hg : κ.Engines g g') (es : List Entry) (h : κ.Has g.program (entriesNodes es))
    {map map' : OrderedMap Value} (hmap : map.Matches (κ.Relates n) map') :
    κ.Twins n (evalEntries g map es) (evalEntries g' map' (move (κ.place g.program) es))
      fun k => OrderedMap.Matches (κ.Relates k) := by
  match es with
  | [] => exact pure fun k hk => hmap.mono fun _ _ hv => hv.mono hk
  | ⟨key, init⟩ :: es =>
    obtain ⟨hinit, hes⟩ := h.append
    show κ.Twins n _ (evalEntries g' map'
      (⟨key, move (κ.place g.program) init⟩ :: move (κ.place g.program) es)) _
    unfold evalEntries
    refine (expr hg init hinit).bind fun k hk v v' hv => ?_
    exact entries hg es hes ((hmap.mono fun _ _ hv => hv.mono hk).insert key hv)

end

/-! ## Statements -/

mutual

theorem stmt {n : Nat} (hg : κ.Engines g g') (s : Stmt) (h : κ.Has g.program s.nodes) :
    κ.Twins n (evalStmt g s) (evalStmt g' (move (κ.place g.program) s)) κ.Relates := by
  cases s with
  | expression p e =>
    obtain ⟨hself, he⟩ := h.cons
    show κ.Twins n _
      (evalStmt g' (.expression (κ.place g.program p) (move (κ.place g.program) e))) _
    unfold evalStmt
    exact traced _ (placed hself) (expr hg e he)
  | declare p mode x init =>
    obtain ⟨hself, hinit⟩ := h.cons
    rw [Stmt.move_declare]
    cases init with
    | none =>
      unfold evalStmt
      exact traced _ (placed hself) ((define x .undefined mode).next fun _ _ => undefined)
    | some init =>
      rw [move_some]
      unfold evalStmt
      refine traced _ (placed hself) ((expr hg init hinit).bind fun k _ v v' hv => ?_)
      exact (define x hv mode).next fun _ _ => undefined
  | block p body =>
    obtain ⟨hself, hbody⟩ := h.cons
    rw [Stmt.move_block]
    unfold evalStmt
    exact traced _ (placed hself) (inNewScope (stmts hg body hbody .undefined))
  | conditional p test yes no =>
    obtain ⟨hself, h⟩ := h.cons
    obtain ⟨htest, h⟩ := h.append
    obtain ⟨hyes, hno⟩ := h.append
    rw [Stmt.move_conditional]
    unfold evalStmt
    refine traced _ (placed hself) ((expr hg test htest).bind fun k _ c c' hc => ?_)
    rw [hc.truthy]
    refine ite (stmt hg yes hyes) ?_
    cases no with
    | none => exact undefined
    | some no => exact stmt hg no hno
  | whileLoop p test body =>
    obtain ⟨hself, h⟩ := h.cons
    obtain ⟨htest, hbody⟩ := h.append
    show κ.Twins n _ (evalStmt g' (.whileLoop (κ.place g.program p)
      (move (κ.place g.program) test) (move (κ.place g.program) body))) _
    unfold evalStmt
    rw [hg.rounds]
    refine traced _ (placed hself) ((repeatRound ?_ g.rounds).next fun _ _ => undefined)
    refine checkInterrupt.next fun k _ => (expr hg test htest).bind fun k _ c c' hc => ?_
    rw [hc.truthy]
    exact ite (loopBody (stmt hg body hbody)) (same false)
  | forLoop p init test after body =>
    obtain ⟨hself, h⟩ := h.cons
    obtain ⟨hinit, h⟩ := h.append
    obtain ⟨htest, h⟩ := h.append
    obtain ⟨hafter, hbody⟩ := h.append
    have round (k : Nat) (holds : Bool) : κ.Twins k (do
        if holds then
          if ← Eval.loopBody (evalStmt g body) then
            match after with
            | some after => let _ ← evalExpr g after
            | none => Pure.pure ()
            return true
          else return false
        else return false) (do
        if holds then
          if ← Eval.loopBody (evalStmt g' (move (κ.place g.program) body)) then
            match move (κ.place g.program) after with
            | some after => let _ ← evalExpr g' after
            | none => Pure.pure ()
            return true
          else return false
        else return false) Same := by
      refine ite ((loopBody (stmt hg body hbody)).bind fun k _ goesOn goesOn' heq => ?_) (same false)
      cases heq
      refine ite ?_ (same false)
      cases after with
      | none => exact same true
      | some after => exact (expr hg after hafter).bind fun _ _ _ _ _ => same true
    rw [Stmt.move_forLoop]
    unfold evalStmt
    rw [hg.rounds]
    refine traced _ (placed hself) ((inNewScope ?_).next fun _ _ => undefined)
    generalize hrounds : Eval.repeatRound _ g.rounds = rounds
    generalize hrounds' : Eval.repeatRound _ g.rounds = rounds'
    have rounds_twins (k : Nat) : κ.Twins k rounds rounds' Same := by
      subst hrounds hrounds'
      refine repeatRound (checkInterrupt.next fun k _ => ?_) g.rounds
      cases test with
      | none => exact round k true
      | some test =>
        refine (expr hg test htest).bind fun k _ c c' hc => ?_
        show κ.Twins k _ (do
          let holds ← Pure.pure c'.truthy
          _) _
        rw [hc.truthy]
        exact round k c.truthy
    cases init with
    | none => exact rounds_twins n
    | some init => exact (stmt hg init hinit).bind fun k _ _ _ _ => rounds_twins k
  | foreachLoop p x items body =>
    obtain ⟨hself, h⟩ := h.cons
    obtain ⟨hitems, hbody⟩ := h.append
    show κ.Twins n _ (evalStmt g' (.foreachLoop (κ.place g.program p) x
      (move (κ.place g.program) items) (move (κ.place g.program) body))) _
    unfold evalStmt
    refine traced _ (placed hself) ((expr hg items hitems).bind fun k _ v v' hv => ?_)
    refine look fun m m' hm hsize => ?_
    refine bind (Q := fun k => List.Forall₂ (κ.Relates k)) (ofExcept
      (hm.heap.loopItems (hv.mono hsize)) fun k hk _ _ hvs => hvs.imp fun _ _ hv => hv.mono hk)
      fun k _ visited visited' hvisited => ?_
    refine (visit (fun k _ item item' hitem => ?_) hvisited).next fun _ _ => undefined
    refine checkInterrupt.next fun k hk => inNewScope ?_
    exact (define x (hitem.mono hk) .mutable).next fun _ _ => loopBody (stmt hg body hbody)
  | function p r =>
    have hself := h.cons.1
    show κ.Twins n _ (evalStmt g' (.function (κ.place g.program p) (move (κ.place g.program) r))) _
    unfold evalStmt
    refine traced _ (placed hself) ?_
    refine (newFunction hg (κ.made hself r (List.mem_singleton_self r))).bind fun k _ f f' hf => ?_
    rw [Routine.name_move]
    exact (define r.name hf .mutable).next fun _ _ => undefined
  | classDef p x methods =>
    have hself := h.cons.1
    rw [Stmt.move_classDef]
    unfold evalStmt
    exact traced _ (placed hself)
      ((defineClass hg x (κ.made hself)).next fun _ _ => undefined)
  | returnStmt p init =>
    obtain ⟨hself, hinit⟩ := h.cons
    rw [Stmt.move_returnStmt]
    cases init with
    | none =>
      unfold evalStmt
      exact traced _ (placed hself) (raise fun _ _ => .returned .undefined)
    | some init =>
      rw [move_some]
      unfold evalStmt
      refine traced _ (placed hself) ((expr hg init hinit).bind fun k _ v v' hv => ?_)
      exact raise fun _ hk => .returned (hv.mono hk)
  | breakStmt p =>
    have hself := h.cons.1
    show κ.Twins n _ (evalStmt g' (.breakStmt (κ.place g.program p))) _
    unfold evalStmt
    exact traced _ (placed hself) (raise fun _ _ => .broke (placed hself))
  | continueStmt p =>
    have hself := h.cons.1
    show κ.Twins n _ (evalStmt g' (.continueStmt (κ.place g.program p))) _
    unfold evalStmt
    exact traced _ (placed hself) (raise fun _ _ => .continued (placed hself))

theorem stmts {n : Nat} (hg : κ.Engines g g') (ss : List Stmt) (h : κ.Has g.program (stmtsNodes ss))
    {last last' : Value} (hlast : κ.Relates n last last') :
    κ.Twins n (evalStmts g last ss) (evalStmts g' last' (move (κ.place g.program) ss))
      κ.Relates := by
  match ss with
  | [] => exact value hlast
  | s :: ss =>
    obtain ⟨hs, hss⟩ := h.append
    show κ.Twins n _ (evalStmts g' last'
      (move (κ.place g.program) s :: move (κ.place g.program) ss)) _
    unfold evalStmts
    exact (stmt hg s hs).bind fun k _ v v' hv => stmts hg ss hss hv

end

/-! ## Built-in functions -/

section

variable {n : Nat}

/-- By induction on what the body still does: the arguments of both runs look alike to it, so it
makes the same requests and gets the same replies, and what it gives comes from the same place. -/
theorem action (name : String) (a : Action) {vs vs' : List Value}
    (h : List.Forall₂ (κ.Relates n) vs vs') :
    κ.Twins n (a.run name vs) (a.run name vs') κ.Relates := by
  have hmono {k : Nat} (hk : n ≤ k) : List.Forall₂ (κ.Relates k) vs vs' :=
    h.imp fun _ _ hv => hv.mono hk
  induction a generalizing n with
  | give result =>
    exact look fun m m' hm hsize => value (hm.heap.yielded (hmono hsize) result)
  | complain message => exact fail _
  | relay e => exact fail _
  | print line next ih | read path next ih | write path text next ih =>
    refine (ask _).bind fun k hk _ reply heq => ?_
    subst heq
    exact ih reply (hmono hk) fun hk' => hmono (Nat.le_trans hk hk')
  | interrupt body ih =>
    exact next (change fun m m' hm _ => ⟨{ hm with interrupted := rfl }, rfl⟩) fun k hk =>
      ih (hmono hk) fun hk' => hmono (Nat.le_trans hk hk')

theorem builtinBody (p : Primitive) {vs vs' : List Value} (h : List.Forall₂ (κ.Relates n) vs vs') :
    κ.Twins n (p.run vs) (p.run vs') κ.Relates := by
  refine look fun m m' hm hsize => ?_
  have hsights : vs'.map m'.heap.sight = vs.map m.heap.sight :=
    (map_eq_map_of_forall₂ h fun v v' hv =>
      (hm.heap.sight (Nat.le_refl _) (hv.mono hsize)).symm).symm
  dsimp only
  rw [hsights]
  exact action p.name _ (h.imp fun _ _ hv => hv.mono hsize)

theorem builtin (p : Primitive) (i i' : Nat) {vs vs' : List Value}
    (h : List.Forall₂ (κ.Relates n) vs vs') :
    κ.Twins n (callBuiltin ⟨p, i⟩ vs) (callBuiltin ⟨p, i'⟩ vs') κ.Relates := by
  have body_twins {k : Nat} (hk : n ≤ k) : κ.Twins k (do
      Eval.log (.builtinCalled p.name vs.length)
      p.run vs) (do
      Eval.log (.builtinCalled p.name vs.length)
      p.run vs') κ.Relates :=
    (log (.same fun _ _ h => Event.noConfusion h)).next fun _ hk' =>
      (builtinBody p h).of_le (Nat.le_trans hk hk')
  unfold callBuiltin
  rw [← h.length_eq]
  cases p.arity with
  | none => exact body_twins (Nat.le_refl n)
  | some arity => exact ite (next (fail _) fun _ hk => body_twins hk) (body_twins (Nat.le_refl n))

end

/-! ## Calls -/

theorem bindParams {n : Nat} (params : List String) {vs vs' : List Value}
    (h : List.Forall₂ (κ.Relates n) vs vs') :
    κ.Twins n (Scriptlet.bindParams params vs) (Scriptlet.bindParams params vs') Same := by
  unfold Scriptlet.bindParams
  induction params generalizing n vs vs' with
  | nil => exact same ()
  | cons x params ih =>
    cases h with
    | nil => exact same ()
    | cons hv hvs =>
      exact (define x hv .mutable).next fun _ hk => ih (hvs.imp fun _ _ hv => hv.mono hk)

/-- The bodies of routines and of their images are twins. -/
def Bodies (κ : Relabeling) (run run' : Nat → List Stmt → Eval Value) : Prop :=
  ∀ n a r, κ.routine a r →
    κ.Twins n (run a r.body) (run' (κ.number a) (move (κ.place a) r.body)) κ.Relates

section

variable {n : Nat} {run run' : Nat → List Stmt → Eval Value} (hrun : Bodies κ run run')
  {vs vs' : List Value} (hvs : List.Forall₂ (κ.Relates n) vs vs')

theorem newReceiverScope (parent : Ref .scope) {v v' : Value} (hv : κ.Relates n v v') :
    κ.Twins n (Eval.newReceiverScope parent v) (Eval.newReceiverScope (κ.ref parent) v')
      fun _ scope scope' => scope' = κ.ref scope := by
  refine (newScope parent).bind fun k hk scope _ heq => ?_
  subst heq
  refine (modifyEnv fun _ _ _ hk' he => ?_).next fun _ _ => pure fun _ _ => rfl
  exact he.defineIn scope "this" (hv.mono (Nat.le_trans hk hk')) .constant

include hrun hvs

theorem enterBody {f f' : Function} (hcode : κ.Code f f') (outer : Ref .scope) :
    κ.Twins n (Eval.enterBody run f vs outer) (Eval.enterBody run' f' vs' (κ.ref outer))
      κ.Relates := by
  refine (newScope outer).bind fun k hk scope _ heq => ?_
  subst heq
  refine inScope scope ?_
  rw [hcode.program, hcode.routine, f.routine.params_move, f.routine.body_move]
  have hvs := hvs.imp fun _ _ hv => hv.mono hk
  exact (bindParams f.routine.params hvs).next fun k _ => hrun k f.program f.routine hcode.allowed

theorem runBody {f f' : Function} (hcode : κ.Code f f')
    (hreceiver : Option.Rel (κ.Relates n) f.receiver f'.receiver) :
    κ.Twins n (Eval.runBody run f vs) (Eval.runBody run' f' vs') κ.Relates := by
  unfold Eval.runBody
  rw [hcode.scope]
  obtain ⟨hf, hf'⟩ | ⟨v, v', hf, hf', hv⟩ := option_rel_cases hreceiver
  · rw [hf, hf']
    exact enterBody hrun hvs hcode f.scope
  · rw [hf, hf']
    refine (newReceiverScope f.scope hv).bind fun k hk outer _ heq => ?_
    subst heq
    exact enterBody hrun (hvs.imp fun _ _ hv => hv.mono hk) hcode outer

theorem function {f f' : Function} (hcode : κ.Code f f')
    (hreceiver : Option.Rel (κ.Relates n) f.receiver f'.receiver) :
    κ.Twins n (callFunction run f vs) (callFunction run' f' vs') κ.Relates := by
  have call_twins {k : Nat} (hk : n ≤ k) : κ.Twins k (Eval.settling callResult (Eval.inCall do
        let m ← MonadState.get
        Eval.log (.functionCalled f.routine.name m.env.callDepth)
        Eval.runBody run f vs)) (Eval.settling callResult (Eval.inCall do
        let m ← MonadState.get
        Eval.log (.functionCalled f.routine.name m.env.callDepth)
        Eval.runBody run' f' vs')) κ.Relates :=
    settlingCall (inCall (look fun m m' hm hsize => by
      rw [hm.env.callDepth]
      refine (log (.same fun _ _ h => Event.noConfusion h)).next fun k' hk' => ?_
      exact (runBody hrun hvs hcode hreceiver).of_le
        (Nat.le_trans hk (Nat.le_trans hsize hk'))))
  rw [callFunction_eq, callFunction_eq, ← hvs.length_eq, hcode.routine, f.routine.params_move,
    f.routine.name_move]
  exact ite (next (fail _) fun _ hk => call_twins hk) (call_twins (Nat.le_refl n))

theorem construct {r : Ref .inst} (hr : κ.Exists n r) {c c' : Class} (hname : c'.name = c.name)
    (hmethod : Option.Rel (fun f f' => κ.Relates n (.function f) (.function f'))
      (c.method? constructorName (.inst r)) (c'.method? constructorName (.inst (κ.ref r)))) :
    κ.Twins n (Eval.construct run vs r c) (Eval.construct run' vs' (κ.ref r) c') κ.Relates := by
  have hempty : vs'.isEmpty = vs.isEmpty := by cases hvs <;> rfl
  unfold Eval.construct
  rw [hname, hempty, ← hvs.length_eq]
  generalize c.method? constructorName (.inst r) = f at hmethod
  generalize c'.method? constructorName (.inst (κ.ref r)) = f' at hmethod
  cases hmethod with
  | some hf =>
    obtain ⟨f', heq, hcode, hreceiver⟩ := hf.of_function
    cases heq
    exact (function hrun hvs hcode hreceiver).bind fun k hk _ _ _ => value (.inst (hr.mono hk))
  | none =>
    exact ite (next (fail _) fun k hk => value (.inst (hr.mono hk))) (value (.inst hr))

theorem instantiated (r : Ref .klass) :
    κ.Twins n (instantiate run r vs) (instantiate run' (κ.ref r) vs') κ.Relates := by
  rw [instantiate_eq, instantiate_eq]
  refine bind (Q := fun k i i' => i' = κ.ref i ∧ κ.Exists k i) (modifyGet fun m m' hm hsize => ?_)
    fun k hk i _ hi => ?_
  · have hcell := hm.heap.newInstance r
    have hgrown : (m.heap.newInstance r).2.instances.size = m.heap.instances.size + 1 :=
      Store.size_alloc ..
    have hle : m.heap.instances.size ≤ (m.heap.newInstance r).2.instances.size := by
      rw [hgrown]
      exact Nat.le_succ _
    refine ⟨{ hm with env := hm.env.mono hle, heap := hcell.2.mono hle }, hle, hcell.1, .inr ?_⟩
    show m.heap.instances.size < (m.heap.newInstance r).2.instances.size
    rw [hgrown]
    exact Nat.lt_succ_self _
  · obtain ⟨rfl, hi⟩ := hi
    refine look fun m m' hm hsize => ?_
    have hi := hi.mono hsize
    refine construct hrun (hvs.imp fun _ _ hv => hv.mono (Nat.le_trans hk hsize)) hi
      (hm.heap.klass r).1 ?_
    exact hm.heap.method? r constructorName (.inst hi) (κ.bindable_inst i)

omit hrun hvs in
theorem applied (hrun : Bodies κ run run') : κ.Calls (applyValue run) (applyValue run') := by
  intro n v v' vs vs' hv hvs
  cases v with
  | function f =>
    obtain ⟨f', rfl, hcode, hreceiver⟩ := hv.of_function
    exact function hrun hvs hcode hreceiver
  | builtin b =>
    cases hv with
    | builtin p i => exact builtin p i _ hvs
  | klass r =>
    cases hv with
    | klass => exact instantiated hrun hvs r
  | _ =>
    cases hv
    exact fail _

end

end Twins

/-! ## Evaluation with fuel -/

theorem callValue (κ : Relabeling) (fuel : Nat) : κ.Calls (callValue fuel) (callValue fuel) := by
  induction fuel with
  | zero => exact fun _ _ _ _ _ _ _ => Twins.outOfFuel
  | succ fuel ih =>
    refine Twins.applied fun n a r hr => ?_
    have hg : κ.Engines (.of fuel a) (.of fuel (κ.number a)) := ⟨rfl, rfl, ih⟩
    exact Twins.stmts hg r.body (κ.body hr) .undefined

/-- The code of a program with the number `a` is a twin of its image. -/
theorem program (κ : Relabeling) (fuel : Nat) {n a : Nat} {ss : List Stmt}
    (h : κ.Has a (stmtsNodes ss)) {last last' : Value} (hlast : κ.Relates n last last') :
    κ.Twins n (evalStmts (.of fuel a) last ss)
      (evalStmts (.of fuel (κ.number a)) last' (move (κ.place a) ss)) κ.Relates :=
  have hg : κ.Engines (.of fuel a) (.of fuel (κ.number a)) := ⟨rfl, rfl, κ.callValue fuel⟩
  Twins.stmts hg ss h hlast

end Relabeling

end Scriptlet
