import Scriptlet.Proofs.Eval.Containers
import Scriptlet.Proofs.Eval.Insertions
import Scriptlet.Proofs.Eval.Scopes

/-!
# What declarations, assignments and literals insert

For each construct that writes to a table, what it inserts besides what its parts insert:
a declaration binds its name, a class gets its methods and is bound itself, an assignment
binds a name or writes a part of a container, and an object literal enters its entries into
a new object, once all of them have been evaluated from left to right
(`Eval.Entered`). How often a name has been written before does not matter.

So scopes, objects, instances and classes list their names in the order of their first
insertion, with the items of the last one, and so do the global names of a program
(`insertion_order_kept`).
-/

namespace Scriptlet

/-! ## Steps and statements -/

namespace Eval

namespace Inserts

variable {α β : Type} {act : Eval α} {m n : Machine} {ws : List Insertion} {a : α}
  {r : Except Stop α}

/-- What is done last is to give a value. -/
theorem giving (h : act.Inserts m ws (.ok a) n) (f : α → β) :
    (act >>= fun a => Pure.pure (f a)).Inserts m ws (.ok (f a)) n := by
  have hlast := h.next (f := fun a => Pure.pure (f a)) (pure (f a) n)
  rwa [List.append_nil] at hlast

theorem ofExcept {f : α → Eval β} {r : Except Stop β} (h : (f a).Inserts m ws r n) :
    (Eval.ofExcept (.ok a) >>= f).Inserts m ws r n :=
  .next (pure a m) h

theorem step (hm : m.interrupted = false) (p : Position) (h : act.Inserts m ws r n) :
    (Eval.step p act).Inserts m ws (locatedResult p r) n := by
  have hchecked : Eval.checkInterrupt m = ending (.ok ()) m := by
    rw [checkInterrupt_apply, hm]
    rfl
  exact .located p (.next (.idle .checkInterrupt hchecked) h)

/-- A statement is logged before it begins. -/
theorem traced {s : Stmt} (hm : m.interrupted = false) (h : act.Inserts (s.begun m) ws r n) :
    Inserts (do
      if (← MonadState.get).settings.tracing then Eval.log (.statement s.kindName s.position)
      Eval.step s.position act) m ws (locatedResult s.position r) n := by
  have hbegun : (modify s.begun : Eval Unit).Inserts m [] (.ok ()) (s.begun m) :=
    .idle (.begun s) rfl
  have hm : (s.begun m).interrupted = false := by
    rw [s.begun_eq]
    exact hm
  have hall : (modify s.begun >>= fun _ => Eval.step s.position act).Inserts m ws
      (locatedResult s.position r) n := .next hbegun (h.step hm s.position)
  rw [funext (traced_eq s act)]
  exact hall

end Inserts

end Eval

open Eval

section

variable {g : Engine} {m n : Machine} {ws : List Insertion} {v : Value}

theorem Eval.Inserts.not_interrupted {e : Expr} (h : (evalExpr g e).Inserts m ws (.ok v) n) :
    m.interrupted = false :=
  evalExpr_not_interrupted h.run

theorem Stmt.not_interrupted_of_begun {s : Stmt} (h : (s.begun m).interrupted = false) :
    m.interrupted = false := by
  rw [s.begun_eq] at h
  exact h

/-! ## Parts of assignments and literals -/

/-- The scope in which an assignment to the name binds it. -/
def Environment.assignee (e : Environment) (x : String) : Except Cause (Ref .scope) :=
  match e.assignable e.current x with
  | .error (.undefinedVariable _) => .ok e.globals
  | r => r

/-- The parts of an assignment to a part of a container have been evaluated: `v` is the value, and
it is said which place is meant. -/
inductive Eval.Aims (g : Engine) : Target → Expr → Machine → List Insertion → Except Cause Place →
    Value → Machine → Prop
  | member {owner value : Expr} {name : String} {m m' n : Machine} {ws ws' : List Insertion}
    {o v : Value} : (evalExpr g owner).Inserts m ws (.ok o) m' →
    (evalExpr g value).Inserts m' ws' (.ok v) n →
    Aims g (.member owner name) value m (ws ++ ws') (memberPlace o name) v n
  | index {owner key value : Expr} {m m₁ m₂ n : Machine} {ws ws₁ ws₂ : List Insertion}
    {o k v : Value} : (evalExpr g owner).Inserts m ws (.ok o) m₁ →
    (evalExpr g key).Inserts m₁ ws₁ (.ok k) m₂ → (evalExpr g value).Inserts m₂ ws₂ (.ok v) n →
    Aims g (.index owner key) value m (ws ++ (ws₁ ++ ws₂)) (n.heap.indexPlace o k) v n

/-- The entries of an object literal are evaluated from left to right, each on the machine that the
one before leaves, until one of them stops early. `pairs` are the keys with the values so far. -/
inductive Eval.Entered (g : Engine) : List Entry → Machine → List Insertion →
    List (String × Value) → Except Stop Unit → Machine → Prop
  | done {m : Machine} : Entered g [] m [] [] (.ok ()) m
  | next {e : Entry} {es : List Entry} {m m' n : Machine} {ws ws' : List Insertion} {v : Value}
    {pairs : List (String × Value)} {r : Except Stop Unit} :
    (evalExpr g e.value).Inserts m ws (.ok v) m' → Entered g es m' ws' pairs r n →
    Entered g (e :: es) m (ws ++ ws') ((e.key, v) :: pairs) r n
  | stopped {e : Entry} {es : List Entry} {m n : Machine} {ws : List Insertion} {stop : Stop} :
    (evalExpr g e.value).Inserts m ws (.error stop) n →
    Entered g (e :: es) m ws [] (.error stop) n

theorem evalEntries_cons (g : Engine) (map : OrderedMap Value) (e : Entry) (es : List Entry) :
    evalEntries g map (e :: es) =
      evalExpr g e.value >>= fun v => evalEntries g (map.insert e.key v) es := by
  obtain ⟨key, value⟩ := e
  rw [evalEntries]

namespace Eval.Entered

variable {es : List Entry} {pairs : List (String × Value)} {r : Except Stop Unit}

/-- All entries have been evaluated, also those whose key comes again. -/
theorem keys_eq (h : Entered g es m ws pairs (.ok ()) n) :
    pairs.map Prod.fst = es.map Entry.key := by
  generalize hr : Except.ok () = r at h
  induction h with
  | done => rfl
  | next _ _ ih => rw [List.map_cons, List.map_cons, ih hr]
  | stopped => cases hr

/-- The values are entered into the map in the order of the entries. -/
theorem evalEntries (h : Entered g es m ws pairs r n) (map : OrderedMap Value) :
    (evalEntries g map es).Inserts m ws (r.map fun _ => map.insertAll pairs) n := by
  induction h generalizing map with
  | done =>
    rw [Scriptlet.evalEntries]
    exact .pure map _
  | next hvalue _ ih =>
    rw [evalEntries_cons]
    exact hvalue.next (ih _)
  | stopped hvalue =>
    rw [evalEntries_cons]
    exact hvalue.stopped

end Eval.Entered

/-- The class that a class declaration makes on the machine. -/
def declaredClass (g : Engine) (x : String) (methods : List Routine) (m : Machine) : Class :=
  ⟨x, g.program, .ofList (methods.map fun r => (r.name, r)), m.env.current⟩

/-! ## What each construct inserts -/

/-- What the constructs that write to a table insert, in which order, and how they end, once their
parts have been evaluated. -/
inductive Eval.Adds (g : Engine) : Eval Value → Machine → List Insertion → Except Stop Value →
    Machine → Prop
  /-- A declaration binds its name in the current scope, whether it is bound there or not. -/
  | declare {p : Position} {mode : Mode} {x : String} {e : Expr} {m n : Machine}
    {ws : List Insertion} {v : Value} :
    (evalExpr g e).Inserts ((Stmt.declare p mode x (some e)).begun m) ws (.ok v) n →
    Adds g (evalStmt g (.declare p mode x (some e))) m
      (ws ++ n.insertion (.scope n.env.current) x ⟨v, mode⟩) (.ok .undefined)
      { n with env := n.env.define x v mode }
  | declareNone {p : Position} {mode : Mode} {x : String} {m b : Machine} :
    m.interrupted = false → b = (Stmt.declare p mode x none).begun m →
    Adds g (evalStmt g (.declare p mode x none)) m
      (b.insertion (.scope b.env.current) x ⟨.undefined, mode⟩) (.ok .undefined)
      { b with env := b.env.define x .undefined mode }
  | function {p : Position} {routine : Routine} {m b : Machine} {f : Value} :
    m.interrupted = false → b = (Stmt.function p routine).begun m →
    f = .function ⟨g.program, routine, b.env.current, none, 0⟩ →
    Adds g (evalStmt g (.function p routine)) m
      (b.insertion (.scope b.env.current) routine.name ⟨f, .mutable⟩) (.ok .undefined)
      { b with env := b.env.define routine.name f .mutable }
  /-- All methods of a class are entered into it, also those whose name comes again. -/
  | classDef {p : Position} {x : String} {methods : List Routine} {m b : Machine}
    {c : Ref .klass} : m.interrupted = false → b = (Stmt.classDef p x methods).begun m →
    c = b.heap.classes.next →
    Adds g (evalStmt g (.classDef p x methods)) m
      ((Table.klass c).insertions (methods.map fun r => (r.name, r)) ++
        b.insertion (.scope b.env.current) x ⟨.klass c, .mutable⟩) (.ok .undefined)
      { b with
        heap := (b.heap.newClass (declaredClass g x methods b)).2
        env := b.env.define x (.klass c) .mutable }
  /-- An assignment to a name binds it again where it is bound, or else as a global name. -/
  | assignName {p : Position} {x : String} {e : Expr} {owner : Ref .scope} {m n : Machine}
    {ws : List Insertion} {v : Value} : (evalExpr g e).Inserts m ws (.ok v) n →
    n.env.assignee x = .ok owner →
    Adds g (evalExpr g (.assign p (.name x) e)) m
      (ws ++ n.insertion (.scope owner) x ⟨v, .mutable⟩) (.ok v)
      { n with env := n.env.defineIn owner x v .mutable }
  /-- A write to `o.x` or `o[x]` gives the key of an object, or the field of an instance, a value. -/
  | assignPlace {p : Position} {target : Target} {e : Expr} {place : Place} {m n : Machine}
    {ws : List Insertion} {v : Value} : Aims g target e m ws (.ok place) v n →
    Adds g (evalExpr g (.assign p target e)) m (ws ++ n.insertions place v) (.ok v)
      { n with heap := n.heap.write place v }
  /-- A new object gets all entries, also those whose key comes again. -/
  | object {p : Position} {es : List Entry} {pairs : List (String × Value)} {m n : Machine}
    {ws : List Insertion} : m.interrupted = false → Entered g es m ws pairs (.ok ()) n →
    Adds g (evalExpr g (.object p es)) m
      (ws ++ (Table.object n.heap.objects.next).insertions pairs)
      (.ok (.object n.heap.objects.next))
      { n with heap := (n.heap.newObject (.ofList pairs)).2 }
  | objectStopped {p : Position} {es : List Entry} {pairs : List (String × Value)} {m n : Machine}
    {ws : List Insertion} {e : Stop} : m.interrupted = false →
    Entered g es m ws pairs (.error e) n →
    Adds g (evalExpr g (.object p es)) m ws (locatedResult p (.error e)) n

theorem inserts_define (x : String) (v : Value) (mode : Mode) (m : Machine) :
    (define x v mode).Inserts m (m.insertion (.scope m.env.current) x ⟨v, mode⟩) (.ok ())
      { m with env := m.env.define x v mode } :=
  .bound (fun e => e.current) x v mode m

theorem inserts_assign {x : String} {owner : Ref .scope} (howner : m.env.assignee x = .ok owner)
    (v : Value) :
    (assign x v).Inserts m (m.insertion (.scope owner) x ⟨v, .mutable⟩) (.ok ())
      { m with env := m.env.defineIn owner x v .mutable } := by
  rw [assign_eq]
  refine .get ?_
  unfold Environment.assignee at howner
  unfold store
  split at howner
  · next hundefined =>
    cases howner
    rw [hundefined]
    exact .bound (fun e => e.globals) x v .mutable m
  · rw [howner]
    exact .bound (fun _ => owner) x v .mutable m

theorem inserts_assign_place {p : Position} {target : Target} {e : Expr} {place : Place}
    (h : Aims g target e m ws (.ok place) v n) :
    (evalExpr g (.assign p target e)).Inserts m (ws ++ n.insertions place v) (.ok v)
      { n with heap := n.heap.write place v } := by
  have hwrite : (write place v >>= fun _ => Pure.pure v).Inserts n (n.insertions place v) (.ok v)
      { n with heap := n.heap.write place v } :=
    (Inserts.written place v n).giving fun _ => v
  -- The place is found by an operation that may fail, so it is named before the cases.
  generalize hplace : Except.ok place = found at h
  cases h with
  | member howner hvalue =>
    rw [evalExpr, List.append_assoc]
    refine Inserts.step (r := .ok _) howner.not_interrupted p (howner.next (hvalue.next ?_))
    rw [← hplace]
    exact .ofExcept hwrite
  | index howner hkey hvalue =>
    rw [evalExpr, List.append_assoc, List.append_assoc]
    refine Inserts.step (r := .ok _) howner.not_interrupted p
      (howner.next (hkey.next (hvalue.next (.get ?_))))
    dsimp only
    rw [← hplace]
    exact .ofExcept hwrite

theorem Eval.Adds.inserts {act : Eval Value} {r : Except Stop Value}
    (h : Adds g act m ws r n) : act.Inserts m ws r n := by
  cases h with
  | declare hvalue =>
    rw [evalStmt]
    refine Inserts.traced (r := .ok _) (Stmt.not_interrupted_of_begun hvalue.not_interrupted) ?_
    exact hvalue.next ((inserts_define _ _ _ _).giving fun _ => Value.undefined)
  | declareNone hm hb =>
    subst hb
    rw [evalStmt]
    exact Inserts.traced (r := .ok _) hm
      ((inserts_define _ _ _ _).giving fun _ => Value.undefined)
  | @function _ routine _ b f hm hb hf =>
    subst hb hf
    rw [evalStmt]
    have hmade (m : Machine) : (newFunction g routine).Inserts m [] (.ok (.function
        ⟨g.program, routine, m.env.current, none, 0⟩)) m := .get (.pure _ m)
    exact Inserts.traced (r := .ok _) hm
      ((hmade _).next ((inserts_define _ _ _ _).giving fun _ => Value.undefined))
  | @classDef _ x methods _ b c hm hb hc =>
    -- The methods are in the class before its name is bound.
    subst hc
    rw [evalStmt]
    have hmethods : (declaredClass g x methods b).methods =
      .ofList (methods.map fun r => (r.name, r)) := rfl
    have hclass := Inserts.klass b hmethods
    have hdefine : (defineClass g x methods).Inserts b _ (.ok ()) _ :=
      .get (hclass.next (inserts_define x _ .mutable _))
    have hgiving := hdefine.giving fun _ => Value.undefined
    subst hb
    exact Inserts.traced (r := .ok _) hm hgiving
  | assignName hvalue howner =>
    rw [evalExpr]
    exact Inserts.step (r := .ok _) hvalue.not_interrupted _
      (hvalue.next ((inserts_assign howner _).giving fun _ => _))
  | assignPlace haims => exact inserts_assign_place haims
  | object hm hentered =>
    rw [evalExpr]
    exact Inserts.step (r := .ok _) hm _ ((hentered.evalEntries .empty).next (.object _ _))
  | objectStopped hm hentered =>
    rw [evalExpr]
    exact Inserts.step hm _ (hentered.evalEntries .empty).stopped

end

theorem exists_entered (fuel number : Nat) (es : List Entry) (m : Machine) :
    ∃ ws pairs r n, Entered (.of fuel number) es m ws pairs r n := by
  induction es generalizing m with
  | nil => exact ⟨_, _, _, _, .done⟩
  | cons e es ih =>
    obtain ⟨ws, r, m', hvalue, -⟩ := accounted_expr fuel number e.value m
    cases r with
    | error stop => exact ⟨_, _, _, _, .stopped hvalue⟩
    | ok v =>
      obtain ⟨ws', pairs, r, n, hrest⟩ := ih m'
      exact ⟨_, _, _, _, .next hvalue hrest⟩

/-! ## Global names -/

/-- The names of the built-in functions that every program starts with. -/
def preludeNames : List String := Environment.standardPrimitives.map Primitive.name

theorem globalNames_withPrelude (limit : Nat) :
    (Environment.withPrelude limit).globalNames = preludeNames := rfl

/-- A program ends where the global scope is the one it began with. -/
theorem globals_program {fuel : Nat} {p : Program} {m n : Machine} {ws : List Insertion}
    {r : Except Stop Value} (h : (runProgram fuel p).Inserts m ws r n) :
    n.env.globals = m.env.globals := by
  have hruns := Law.runs_program (L := .any) (J := fun _ => False) fuel (p := p)
    (fun _ _ => trivial) fun _ _ => trivial
  have hplace := (hruns.samePlace m).globals
  unfold after at hplace
  rw [h.run] at hplace
  cases r <;> exact hplace

/-- The global names after a program: those before, and then those that it binds first. -/
theorem globalNames_program {fuel : Nat} {p : Program} {m n : Machine} {ws : List Insertion}
    {r : Except Stop Value} (h : (runProgram fuel p).Inserts m ws r n) :
    n.env.globalNames = m.env.globalNames ++
      (((insertedInto (.scope m.env.globals) ws).map Prod.fst).removeAll
        m.env.globalNames).eraseDups := by
  unfold Environment.globalNames
  rw [globals_program h]
  exact (h.receives (.scope m.env.globals)).keys_eq

/-! ## The order of insertion -/

/-- However a run goes, each table lists its names in the order of their first insertion, with the
item of the last one. What is inserted is known of every evaluation, for each construct that
writes to a table it is said what it inserts, and the entries of an object literal are all
evaluated in turn. The global names are those of the built-in functions, and then those that the
program binds. -/
theorem insertion_order_kept (fuel number : Nat) :
    (∀ {α : Type} {act : Eval α} {m n : Machine} {ws : List Insertion} {r : Except Stop α},
      act.Inserts m ws r n → act m = ending r n ∧
        ∀ t, (m.has t → n.has t) ∧ (m.contents t).Receives (insertedInto t ws) (n.contents t)) ∧
    ((∀ e m, ∃ ws r n, (evalExpr (.of fuel number) e).Inserts m ws r n) ∧
      (∀ s m, ∃ ws r n, (evalStmt (.of fuel number) s).Inserts m ws r n) ∧
      (∀ last ss m, ∃ ws r n, (evalStmts (.of fuel number) last ss).Inserts m ws r n) ∧
      (∀ callee args m, ∃ ws r n, (callValue fuel callee args).Inserts m ws r n) ∧
      ∀ p m, ∃ ws r n, (runProgram fuel p).Inserts m ws r n) ∧
    (∀ {g : Engine} {act : Eval Value} {m n : Machine} {ws : List Insertion}
      {r : Except Stop Value}, Adds g act m ws r n → act.Inserts m ws r n) ∧
    (∀ es m, ∃ ws pairs r n, Entered (.of fuel number) es m ws pairs r n ∧
      (r = .ok () → pairs.map Prod.fst = es.map Entry.key)) ∧
    (∀ {limit : Nat} {p : Program} {m n : Machine} {ws : List Insertion} {r : Except Stop Value},
      m.env = .withPrelude limit → (runProgram fuel p).Inserts m ws r n →
      n.env.globalNames = preludeNames ++
        (((insertedInto (.scope m.env.globals) ws).map Prod.fst).removeAll
          preludeNames).eraseDups) := by
  refine ⟨fun h => ⟨h.run, fun t => ⟨Machine.has_mono h.size_le, h.receives t⟩⟩, ⟨fun e => ?_, fun s => ?_, fun last ss => ?_,
    fun callee args => ?_, fun p => ?_⟩, fun h => h.inserts, fun es m => ?_, fun hm h => ?_⟩
  · exact (accounted_expr fuel number e).exists_inserts
  · exact (accounted_stmt fuel number s).exists_inserts
  · exact (accounted_stmts fuel number last ss).exists_inserts
  · exact (accounted_callValue fuel callee args).exists_inserts
  · exact (accounted_program fuel p).exists_inserts
  · obtain ⟨ws, pairs, r, n, h⟩ := exists_entered fuel number es m
    refine ⟨ws, pairs, r, n, h, ?_⟩
    rintro rfl
    exact h.keys_eq
  · rw [globalNames_program h, hm, globalNames_withPrelude]

/-- The program `let b = 1; a = {x: 1, y: 2, x: 3}; const b = 3;`. -/
def rebindingProgram : Program :=
  ⟨[.declare .start .mutable "b" (some (.integer .start 1)),
    .expression .start (.assign .start (.name "a") (.object .start
      [⟨"x", .integer .start 1⟩, ⟨"y", .integer .start 2⟩, ⟨"x", .integer .start 3⟩])),
    .declare .start .constant "b" (some (.integer .start 3))]⟩

/-- The name that is declared again stays in front, and so does the key that comes again. -/
theorem insertion_order_kept_sample : ∃ ws r n,
    (runProgram 1 rebindingProgram).Inserts (.new .withoutStorage {}) ws r n ∧
    n.env.globalNames = preludeNames ++ ["b", "a"] ∧
    (((insertedInto (.scope ⟨0⟩) ws).map Prod.fst).removeAll preludeNames).eraseDups =
      ["b", "a"] ∧
    ((insertedInto (.object ⟨0⟩) ws).map Prod.fst).eraseDups = ["x", "y"] := by
  obtain ⟨hreceives, ⟨-, -, -, -, hprogram⟩, -, -, hglobal⟩ := insertion_order_kept 1 0
  obtain ⟨ws, r, n, h⟩ := hprogram rebindingProgram (.new .withoutStorage {})
  obtain ⟨hrun, htables⟩ := hreceives h
  have hafter : (runProgram 1 rebindingProgram).after (.new .withoutStorage {}) = n := by
    unfold after
    rw [hrun]
    cases r <;> rfl
  have hnames : n.env.globalNames = preludeNames ++ ["b", "a"] := by
    rw [← hafter]
    decide +kernel
  have hkeys : (n.heap.entries ⟨0⟩).keys = ["x", "y"] := by
    rw [← hafter]
    decide +kernel
  refine ⟨ws, r, n, h, hnames, ?_, (htables (.object ⟨0⟩)).2.order.symm.trans hkeys⟩
  exact List.append_cancel_left ((hglobal rfl h).symm.trans hnames)

end Scriptlet
