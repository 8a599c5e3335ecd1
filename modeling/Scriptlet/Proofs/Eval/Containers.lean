import Scriptlet.Proofs.Eval.Declarations
import Scriptlet.Proofs.Value.Containers
import Scriptlet.Syntax.Parser.Expression

/-!
# What programs do with containers

An expression that reads a part of a container reads it as `Heap.get` does, once its operands have
values, and an assignment writes as `Heap.put` does; if it cannot, it fails, and the machine stays
as it was. A `foreach` loop goes through the list of what is visited, one round for each value in
turn (`Eval.Visits`). With the laws of the heap these are the laws of containers
(`containers_lawful`).
-/

namespace Scriptlet

namespace Eval

/-- The operands of a read, or of the left side of an assignment, have been evaluated: `v` is the
container, and `a` says which part of it is meant. -/
inductive Operands (g : Engine) : Target → Machine → Value → Access → Machine → Prop
  | member {owner : Expr} {s : String} {m m' : Machine} {v : Value} :
    evalExpr g owner m = .ok v m' → Operands g (.member owner s) m v (.member s) m'
  | index {owner key : Expr} {m m₁ m' : Machine} {v k : Value} : evalExpr g owner m = .ok v m₁ →
    evalExpr g key m₁ = .ok k m' → Operands g (.index owner key) m v (.index k) m'

/-- One round of a `foreach` loop, for one of the visited values. -/
def foreachRound (g : Engine) (name : String) (body : Stmt) (item : Value) : Eval Bool := do
  checkInterrupt
  inNewScope do
    define name item .mutable
    loopBody (evalStmt g body)

/-- There is a round for each value in turn, until one of them ends the loop or fails. -/
inductive Visits (round : Value → Eval Bool) :
    List Value → Machine → EStateM.Result Stop Machine Unit → Prop
  | done {m : Machine} : Visits round [] m (.ok () m)
  | next {v : Value} {vs : List Value} {m m' : Machine} {r : EStateM.Result Stop Machine Unit} :
    round v m = .ok true m' → Visits round vs m' r → Visits round (v :: vs) m r
  | ended {v : Value} {vs : List Value} {m m' : Machine} : round v m = .ok false m' →
    Visits round (v :: vs) m (.ok () m')
  | failed {v : Value} {vs : List Value} {m m' : Machine} {e : Stop} : round v m = .error e m' →
    Visits round (v :: vs) m (.error e m')

theorem visits_visit (round : Value → Eval Bool) (vs : List Value) (m : Machine) :
    Visits round vs m (visit round vs m) := by
  induction vs generalizing m with
  | nil => exact .done
  | cons v vs ih =>
    rw [visit]
    cases hround : round v m with
    | error e m' =>
      rw [bind_error hround]
      exact .failed hround
    | ok more m' =>
      rw [bind_ok hround]
      cases more with
      | true => exact .next hround (ih m')
      | false => exact .ended hround

theorem located_bind_ok {α β : Type} {act : Eval α} {f : α → Eval β} {m m' : Machine} {a : α}
    (h : act m = .ok a m') (p : Position) : located p (act >>= f) m = located p (f a) m' := by
  unfold located
  rw [bind_ok h]

/-- A failure of an operation gets the position where it happened. -/
theorem located_ofExcept_bind {α β : Type} (r : Except Cause α) (f : α → Eval β) (p : Position)
    (m : Machine) : located p (ofExcept r >>= f) m = match r with
      | .ok a => located p (f a) m
      | .error c => .error (.failure ⟨c, some p⟩) m := by
  cases r <;> rfl

end Eval

open Eval

section

variable {g : Engine} {m m₁ m' : Machine} {v x : Value} {a : Access} {target : Target} {e : Expr}

theorem evalExpr_not_interrupted (h : evalExpr g e m = .ok v m') : m.interrupted = false := by
  rw [evalExpr.eq_def] at h
  exact not_interrupted_of_step_ok h

theorem Eval.Operands.not_interrupted (h : Operands g target m v a m') : m.interrupted = false := by
  cases h with
  | member howner => exact evalExpr_not_interrupted howner
  | index howner _ => exact evalExpr_not_interrupted howner

/-- Once its operands have values, an expression reads a part of a container. -/
theorem evalExpr_get (hoperands : Operands g target m v a m') (he : e.target? = some target) :
    evalExpr g e m = match m'.heap.get v a with
      | .ok x => .ok x m'
      | .error c => .error (.failure ⟨c, some e.position⟩) m' := by
  have hm := hoperands.not_interrupted
  have hread : evalExpr g e m = located e.position (ofExcept (m'.heap.get v a)) m' := by
    cases hoperands with
    | member howner =>
      cases e <;> cases he
      rw [evalExpr, step_eq hm, located_bind_ok howner]
      rfl
    | index howner hkey =>
      cases e <;> cases he
      rw [evalExpr, step_eq hm, located_bind_ok howner, located_bind_ok hkey]
      rfl
  rw [hread]
  cases m'.heap.get v a <;> rfl

/-- Once its operands have values, an assignment writes to a part of a container. If it cannot, the
machine stays as it was. -/
theorem evalExpr_put {value : Expr} (hoperands : Operands g target m v a m₁)
    (hvalue : evalExpr g value m₁ = .ok x m') (p : Position) :
    evalExpr g (.assign p target value) m = match m'.heap.put v a x with
      | .ok h => .ok x { m' with heap := h }
      | .error c => .error (.failure ⟨c, some p⟩) m' := by
  have hm := hoperands.not_interrupted
  have hplace : evalExpr g (.assign p target value) m = located p
      (ofExcept (m'.heap.place v a) >>= fun place => write place x >>= fun _ => pure x) m' := by
    cases hoperands with
    | member howner =>
      rw [evalExpr, step_eq hm, located_bind_ok howner, located_bind_ok hvalue]
      rfl
    | index howner hkey =>
      rw [evalExpr, step_eq hm, located_bind_ok howner, located_bind_ok hkey,
        located_bind_ok hvalue]
      rfl
  rw [hplace, located_ofExcept_bind, Heap.put_eq]
  cases m'.heap.place v a <;> rfl

/-- A `foreach` loop visits what there is to visit in the container, and ends as the visits do. -/
theorem evalStmt_foreach {p : Position} {name : String} {items : Expr} {body : Stmt}
    {visited : List Value}
    (hitems : evalExpr g items ((Stmt.foreachLoop p name items body).begun m) = .ok v m')
    (hvisited : m'.heap.loopItems v = .ok visited) :
    ∃ r, Visits (foreachRound g name body) visited m' r ∧
      evalStmt g (.foreachLoop p name items body) m = match r with
        | .ok _ m' => .ok .undefined m'
        | .error e m' => located p (throw e) m' := by
  refine ⟨_, visits_visit _ visited m', ?_⟩
  have hloop : evalStmt g (.foreachLoop p name items body) m = located p
      (ofExcept (m'.heap.loopItems v) >>= fun visited =>
        visit (foreachRound g name body) visited >>= fun _ => pure .undefined) m' := by
    rw [evalStmt, traced_eq, step_eq (evalExpr_not_interrupted hitems), located_bind_ok hitems]
    rfl
  rw [hloop, located_ofExcept_bind, hvisited]
  dsimp only
  cases hvisit : visit (foreachRound g name body) visited m' with
  | ok u m₁ =>
    rw [located_bind_ok hvisit]
    rfl
  | error e m₁ =>
    unfold located
    rw [bind_error hvisit]
    rfl

end

/-- What programs do with the container `v` when the heap is `h`: they read and write as the heap
does, a write that is refused leaves the machine as it was, and a loop visits what the heap says. -/
structure Heap.Serves (h : Heap) (v : Value) : Prop where
  read {g : Engine} {e : Expr} {target : Target} {a : Access} {m m' : Machine} :
    Operands g target m v a m' → m'.heap = h → e.target? = some target →
    evalExpr g e m = match h.get v a with
      | .ok x => .ok x m'
      | .error c => .error (.failure ⟨c, some e.position⟩) m'
  written {g : Engine} {target : Target} {value : Expr} {a : Access} {x : Value} {h' : Heap}
    {m m₁ m' : Machine} (p : Position) : Operands g target m v a m₁ →
    evalExpr g value m₁ = .ok x m' → m'.heap = h → h.put v a x = .ok h' →
    evalExpr g (.assign p target value) m = .ok x { m' with heap := h' }
  refused {g : Engine} {target : Target} {value : Expr} {a : Access} {x : Value} {c : Cause}
    {m m₁ m' : Machine} (p : Position) : Operands g target m v a m₁ →
    evalExpr g value m₁ = .ok x m' → m'.heap = h → h.put v a x = .error c →
    evalExpr g (.assign p target value) m = .error (.failure ⟨c, some p⟩) m'
  visited {g : Engine} {p : Position} {name : String} {items : Expr} {body : Stmt}
    {visited : List Value} {m m' : Machine} :
    evalExpr g items ((Stmt.foreachLoop p name items body).begun m) = .ok v m' → m'.heap = h →
    h.loopItems v = .ok visited → ∃ r, Visits (foreachRound g name body) visited m' r ∧
      evalStmt g (.foreachLoop p name items body) m = match r with
        | .ok _ m' => .ok .undefined m'
        | .error e m' => located p (throw e) m'

theorem Heap.serves (h : Heap) (v : Value) : h.Serves v where
  read := by
    rintro g e target a m m' hoperands rfl he
    exact evalExpr_get hoperands he
  written := by
    rintro g target value a x h' m m₁ m' p hoperands hvalue rfl hput
    rw [evalExpr_put hoperands hvalue, hput]
  refused := by
    rintro g target value a x c m m₁ m' p hoperands hvalue rfl hput
    rw [evalExpr_put hoperands hvalue, hput]
  visited := by
    rintro g p name items body visited m m' hitems rfl hvisited
    exact evalStmt_foreach hitems hvisited

/-- The laws of containers hold of every container that exists, and programs keep to them. -/
theorem containers_lawful {h : Heap} {v : Value} (hv : h.Stores v) (hcount : h.Counts v) :
    h.Lawful v ∧ h.Serves v :=
  ⟨hv.lawful hcount, h.serves v⟩

theorem containers_lawful_sample :
    let h : Heap := { arrays := ⟨#[#[.integer 1]]⟩ }
    let v : Value := .array ⟨0⟩
    h.Stores v ∧ h.Counts v ∧ ∃ h', h.setIndex v (.integer 1) .null = .ok h' ∧
      h'.getIndex v (.integer 1) = .ok .null ∧
      h'.getMember v "length" = .ok (.integer 2) ∧ ¬ ∃ x, h.getIndex v (.integer 1) = .ok x := by
  intro h v
  have hv : h.Stores v := Nat.zero_lt_one
  have hcount : h.Counts v := by
    show 1 < maxInteger
    decide
  have hlaws := (containers_lawful hv hcount).1
  have hput : h.put v (.index (.integer 1)) .null = .ok (h.write (.behind ⟨0⟩) .null) := rfl
  refine ⟨hv, hcount, _, hput, (hlaws.put hput).read, rfl, ?_⟩
  rw [hlaws.read_iff rfl]
  rintro ⟨i, hi, hsize⟩
  have hi : (1 : Int) = i := hi
  have hsize : i < 1 := hsize
  omega

end Scriptlet
