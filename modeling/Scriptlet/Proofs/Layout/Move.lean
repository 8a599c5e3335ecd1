import Mathlib.Logic.Basic
import Scriptlet.Syntax.Parse

/-!
# Moving syntax to other positions

`move ρ x` is `x` with each position `p` in it replaced by `ρ p`. For tokens, syntax trees
and mistakes this is all that a change of the layout of a text does. Nothing but positions
depends on positions here: what a token is, which operator or target it stands for, and
what a mistake says are the same after a move.
-/

namespace Scriptlet

/-- Things that may have positions in them. -/
class Movable (α : Type) where
  /-- The same thing, with each position `p` replaced by `ρ p`. -/
  move (ρ : Position → Position) : α → α

export Movable (move)

instance : Movable Position := ⟨fun ρ p => ρ p⟩

instance : Movable Unit := ⟨fun _ a => a⟩

instance : Movable Bool := ⟨fun _ b => b⟩

instance : Movable Nat := ⟨fun _ n => n⟩

instance : Movable String := ⟨fun _ s => s⟩

instance {α β : Type} [Movable α] [Movable β] : Movable (α × β) :=
  ⟨fun ρ p => (move ρ p.1, move ρ p.2)⟩

instance {α : Type} [Movable α] : Movable (Option α) := ⟨fun ρ => Option.map (move ρ)⟩

instance {α : Type} [Movable α] : Movable (List α) := ⟨fun ρ => List.map (move ρ)⟩

section

variable {α : Type} [Movable α] (ρ : Position → Position)

@[simp] theorem move_none : move ρ (none : Option α) = none := rfl

@[simp] theorem move_some (a : α) : move ρ (some a) = some (move ρ a) := rfl

@[simp] theorem move_nil : move ρ ([] : List α) = [] := rfl

@[simp] theorem move_cons (a : α) (as : List α) : move ρ (a :: as) = move ρ a :: move ρ as := rfl

@[simp] theorem move_append (as bs : List α) : move ρ (as ++ bs) = move ρ as ++ move ρ bs :=
  List.map_append

theorem length_move (as : List α) : (move ρ as).length = as.length := List.length_map _

theorem filterMap_id_move (os : List (Option α)) :
    (move ρ os).filterMap id = move ρ (os.filterMap id) := by
  induction os with
  | nil => rfl
  | cons o os ih =>
    cases o with
    | none => exact ih
    | some a => exact congrArg (move ρ a :: ·) ih

theorem move_strings (as : List String) : move ρ as = as := List.map_id as

end

/-! ## Tokens and mistakes -/

instance : Movable Token := ⟨fun ρ t => ⟨t.kind, t.lexeme, ρ t.position⟩⟩

@[simp] theorem Token.kind_move (ρ : Position → Position) (t : Token) : (move ρ t).kind = t.kind :=
  rfl

instance : Movable ParseError := ⟨fun ρ e => ⟨e.expectation, move ρ e.found⟩⟩

instance : Movable SyntaxError where
  move ρ
    | .lexical f p => .lexical f (ρ p)
    | .parse e => .parse (move ρ e)

/-! ## Syntax trees -/

mutual

/-- The expression at other positions. -/
def Expr.moved (ρ : Position → Position) : Expr → Expr
  | .integer p n => .integer (ρ p) n
  | .float p x => .float (ρ p) x
  | .string p s => .string (ρ p) s
  | .boolean p b => .boolean (ρ p) b
  | .null p => .null (ρ p)
  | .undefined p => .undefined (ρ p)
  | .identifier p x => .identifier (ρ p) x
  | .unary p op e => .unary (ρ p) op (e.moved ρ)
  | .binary p op l r => .binary (ρ p) op (l.moved ρ) (r.moved ρ)
  | .logical p op l r => .logical (ρ p) op (l.moved ρ) (r.moved ρ)
  | .assign p target value => .assign (ρ p) (target.moved ρ) (value.moved ρ)
  | .call p callee args => .call (ρ p) (callee.moved ρ) (exprsMoved ρ args)
  | .group p e => .group (ρ p) (e.moved ρ)
  | .array p items => .array (ρ p) (exprsMoved ρ items)
  | .object p entries => .object (ρ p) (entriesMoved ρ entries)
  | .member p owner x => .member (ρ p) (owner.moved ρ) x
  | .index p owner key => .index (ρ p) (owner.moved ρ) (key.moved ρ)
  | .lambda p r => .lambda (ρ p) (r.moved ρ)

/-- The expressions at other positions. -/
def exprsMoved (ρ : Position → Position) : List Expr → List Expr
  | [] => []
  | e :: es => e.moved ρ :: exprsMoved ρ es

/-- The target at other positions. -/
def Target.moved (ρ : Position → Position) : Target → Target
  | .name x => .name x
  | .member owner x => .member (owner.moved ρ) x
  | .index owner key => .index (owner.moved ρ) (key.moved ρ)

/-- The entry at other positions. -/
def Entry.moved (ρ : Position → Position) : Entry → Entry
  | ⟨key, value⟩ => ⟨key, value.moved ρ⟩

/-- The entries at other positions. -/
def entriesMoved (ρ : Position → Position) : List Entry → List Entry
  | [] => []
  | e :: es => e.moved ρ :: entriesMoved ρ es

/-- The routine at other positions. -/
def Routine.moved (ρ : Position → Position) : Routine → Routine
  | ⟨name, params, body, p⟩ => ⟨name, params, stmtsMoved ρ body, ρ p⟩

/-- The routines at other positions. -/
def routinesMoved (ρ : Position → Position) : List Routine → List Routine
  | [] => []
  | r :: rs => r.moved ρ :: routinesMoved ρ rs

/-- The statement at other positions. -/
def Stmt.moved (ρ : Position → Position) : Stmt → Stmt
  | .expression p e => .expression (ρ p) (e.moved ρ)
  | .declare p mode x init => .declare (ρ p) mode x (clauseMoved ρ init)
  | .block p body => .block (ρ p) (stmtsMoved ρ body)
  | .conditional p test yes no =>
    .conditional (ρ p) (test.moved ρ) (yes.moved ρ) (branchMoved ρ no)
  | .whileLoop p test body => .whileLoop (ρ p) (test.moved ρ) (body.moved ρ)
  | .forLoop p init test next body =>
    .forLoop (ρ p) (branchMoved ρ init) (clauseMoved ρ test) (clauseMoved ρ next) (body.moved ρ)
  | .foreachLoop p x items body => .foreachLoop (ρ p) x (items.moved ρ) (body.moved ρ)
  | .function p r => .function (ρ p) (r.moved ρ)
  | .classDef p x methods => .classDef (ρ p) x (routinesMoved ρ methods)
  | .returnStmt p value => .returnStmt (ρ p) (clauseMoved ρ value)
  | .breakStmt p => .breakStmt (ρ p)
  | .continueStmt p => .continueStmt (ρ p)

/-- The expression, if there is one, at other positions. -/
def clauseMoved (ρ : Position → Position) : Option Expr → Option Expr
  | none => none
  | some e => some (e.moved ρ)

/-- The statement, if there is one, at other positions. -/
def branchMoved (ρ : Position → Position) : Option Stmt → Option Stmt
  | none => none
  | some s => some (s.moved ρ)

/-- The statements at other positions. -/
def stmtsMoved (ρ : Position → Position) : List Stmt → List Stmt
  | [] => []
  | s :: ss => s.moved ρ :: stmtsMoved ρ ss

end

instance : Movable Expr := ⟨Expr.moved⟩

instance : Movable Target := ⟨Target.moved⟩

instance : Movable Entry := ⟨Entry.moved⟩

instance : Movable Routine := ⟨Routine.moved⟩

instance : Movable Stmt := ⟨Stmt.moved⟩

instance : Movable Program := ⟨fun ρ p => ⟨move ρ p.statements⟩⟩

section

variable (ρ : Position → Position)

theorem exprsMoved_eq (es : List Expr) : exprsMoved ρ es = move ρ es := by
  induction es with
  | nil => rfl
  | cons e es ih => exact congrArg (e.moved ρ :: ·) ih

theorem entriesMoved_eq (es : List Entry) : entriesMoved ρ es = move ρ es := by
  induction es with
  | nil => rfl
  | cons e es ih => exact congrArg (e.moved ρ :: ·) ih

theorem routinesMoved_eq (rs : List Routine) : routinesMoved ρ rs = move ρ rs := by
  induction rs with
  | nil => rfl
  | cons r rs ih => exact congrArg (r.moved ρ :: ·) ih

theorem stmtsMoved_eq (ss : List Stmt) : stmtsMoved ρ ss = move ρ ss := by
  induction ss with
  | nil => rfl
  | cons s ss ih => exact congrArg (s.moved ρ :: ·) ih

theorem clauseMoved_eq (o : Option Expr) : clauseMoved ρ o = move ρ o := by
  cases o <;> rfl

theorem branchMoved_eq (o : Option Stmt) : branchMoved ρ o = move ρ o := by
  cases o <;> rfl

@[simp] theorem Expr.move_call (p : Position) (callee : Expr) (args : List Expr) :
    move ρ (Expr.call p callee args) = .call (ρ p) (move ρ callee) (move ρ args) :=
  congrArg (Expr.call (ρ p) (move ρ callee)) (exprsMoved_eq ρ args)

@[simp] theorem Expr.move_array (p : Position) (items : List Expr) :
    move ρ (Expr.array p items) = .array (ρ p) (move ρ items) :=
  congrArg (Expr.array (ρ p)) (exprsMoved_eq ρ items)

@[simp] theorem Expr.move_object (p : Position) (entries : List Entry) :
    move ρ (Expr.object p entries) = .object (ρ p) (move ρ entries) :=
  congrArg (Expr.object (ρ p)) (entriesMoved_eq ρ entries)

@[simp] theorem Routine.move_mk (name : String) (params : List String) (body : List Stmt)
    (p : Position) : move ρ (Routine.mk name params body p) = ⟨name, params, move ρ body, ρ p⟩ :=
  congrArg (Routine.mk name params · (ρ p)) (stmtsMoved_eq ρ body)

@[simp] theorem Stmt.move_declare (p : Position) (mode : Mode) (x : String) (init : Option Expr) :
    move ρ (Stmt.declare p mode x init) = .declare (ρ p) mode x (move ρ init) :=
  congrArg (Stmt.declare (ρ p) mode x) (clauseMoved_eq ρ init)

@[simp] theorem Stmt.move_block (p : Position) (body : List Stmt) :
    move ρ (Stmt.block p body) = .block (ρ p) (move ρ body) :=
  congrArg (Stmt.block (ρ p)) (stmtsMoved_eq ρ body)

@[simp] theorem Stmt.move_conditional (p : Position) (test : Expr) (yes : Stmt)
    (no : Option Stmt) : move ρ (Stmt.conditional p test yes no) =
      .conditional (ρ p) (move ρ test) (move ρ yes) (move ρ no) :=
  congrArg (Stmt.conditional (ρ p) (move ρ test) (move ρ yes)) (branchMoved_eq ρ no)

@[simp] theorem Stmt.move_forLoop (p : Position) (init : Option Stmt) (test next : Option Expr)
    (body : Stmt) : move ρ (Stmt.forLoop p init test next body) =
      .forLoop (ρ p) (move ρ init) (move ρ test) (move ρ next) (move ρ body) := by
  rw [← branchMoved_eq, ← clauseMoved_eq, ← clauseMoved_eq]
  rfl

@[simp] theorem Stmt.move_classDef (p : Position) (x : String) (methods : List Routine) :
    move ρ (Stmt.classDef p x methods) = .classDef (ρ p) x (move ρ methods) :=
  congrArg (Stmt.classDef (ρ p) x) (routinesMoved_eq ρ methods)

@[simp] theorem Stmt.move_returnStmt (p : Position) (value : Option Expr) :
    move ρ (Stmt.returnStmt p value) = .returnStmt (ρ p) (move ρ value) :=
  congrArg (Stmt.returnStmt (ρ p)) (clauseMoved_eq ρ value)

end

/-! ## Staying in place -/

mutual

theorem Expr.moved_id (e : Expr) : e.moved id = e := by
  cases e with
  | integer | float | string | boolean | null | undefined | identifier => rfl
  | unary p op x => exact congrArg (Expr.unary p op) x.moved_id
  | binary p op l r => exact congrArg₂ (Expr.binary p op) l.moved_id r.moved_id
  | logical p op l r => exact congrArg₂ (Expr.logical p op) l.moved_id r.moved_id
  | assign p target value => exact congrArg₂ (Expr.assign p) target.moved_id value.moved_id
  | call p callee args => exact congrArg₂ (Expr.call p) callee.moved_id (exprsMoved_id args)
  | group p x => exact congrArg (Expr.group p) x.moved_id
  | array p items => exact congrArg (Expr.array p) (exprsMoved_id items)
  | object p entries => exact congrArg (Expr.object p) (entriesMoved_id entries)
  | member p owner x => exact congrArg (Expr.member p · x) owner.moved_id
  | index p owner key => exact congrArg₂ (Expr.index p) owner.moved_id key.moved_id
  | lambda p r => exact congrArg (Expr.lambda p) r.moved_id

theorem exprsMoved_id (es : List Expr) : exprsMoved id es = es := by
  cases es with
  | nil => rfl
  | cons e es => exact congrArg₂ List.cons e.moved_id (exprsMoved_id es)

theorem Target.moved_id (target : Target) : target.moved id = target := by
  cases target with
  | name x => rfl
  | member owner x => exact congrArg (Target.member · x) owner.moved_id
  | index owner key => exact congrArg₂ Target.index owner.moved_id key.moved_id

theorem Entry.moved_id (entry : Entry) : entry.moved id = entry := by
  obtain ⟨key, value⟩ := entry
  exact congrArg (Entry.mk key) value.moved_id

theorem entriesMoved_id (es : List Entry) : entriesMoved id es = es := by
  cases es with
  | nil => rfl
  | cons e es => exact congrArg₂ List.cons e.moved_id (entriesMoved_id es)

theorem Routine.moved_id (r : Routine) : r.moved id = r := by
  obtain ⟨name, params, body, p⟩ := r
  exact congrArg (Routine.mk name params · p) (stmtsMoved_id body)

theorem routinesMoved_id (rs : List Routine) : routinesMoved id rs = rs := by
  cases rs with
  | nil => rfl
  | cons r rs => exact congrArg₂ List.cons r.moved_id (routinesMoved_id rs)

theorem Stmt.moved_id (s : Stmt) : s.moved id = s := by
  cases s with
  | expression p e => exact congrArg (Stmt.expression p) e.moved_id
  | declare p mode x init => exact congrArg (Stmt.declare p mode x) (clauseMoved_id init)
  | block p body => exact congrArg (Stmt.block p) (stmtsMoved_id body)
  | conditional p test yes no =>
    rw [Stmt.moved, test.moved_id, yes.moved_id, branchMoved_id no]
    rfl
  | whileLoop p test body => exact congrArg₂ (Stmt.whileLoop p) test.moved_id body.moved_id
  | forLoop p init test next body =>
    rw [Stmt.moved, branchMoved_id init, clauseMoved_id test, clauseMoved_id next, body.moved_id]
    rfl
  | foreachLoop p x items body =>
    exact congrArg₂ (Stmt.foreachLoop p x) items.moved_id body.moved_id
  | function p r => exact congrArg (Stmt.function p) r.moved_id
  | classDef p x methods => exact congrArg (Stmt.classDef p x) (routinesMoved_id methods)
  | returnStmt p value => exact congrArg (Stmt.returnStmt p) (clauseMoved_id value)
  | breakStmt | continueStmt => rfl

theorem clauseMoved_id (o : Option Expr) : clauseMoved id o = o := by
  cases o with
  | none => rfl
  | some e => exact congrArg some e.moved_id

theorem branchMoved_id (o : Option Stmt) : branchMoved id o = o := by
  cases o with
  | none => rfl
  | some s => exact congrArg some s.moved_id

theorem stmtsMoved_id (ss : List Stmt) : stmtsMoved id ss = ss := by
  cases ss with
  | nil => rfl
  | cons s ss => exact congrArg₂ List.cons s.moved_id (stmtsMoved_id ss)

end

theorem stmts_move_id (ss : List Stmt) : move id ss = ss :=
  (stmtsMoved_eq id ss).symm.trans (stmtsMoved_id ss)

section

variable (ρ : Position → Position)

theorem Expr.position_move (e : Expr) : (move ρ e).position = ρ e.position := by
  cases e <;> rfl

theorem Stmt.position_move (s : Stmt) : (move ρ s).position = ρ s.position := by
  cases s <;> rfl

theorem Expr.target?_move (e : Expr) : (move ρ e).target? = move ρ e.target? := by
  cases e <;> rfl

end

/-! ## Steps of a parser or of an evaluation -/

instance {ε σ α : Type} [Movable ε] [Movable σ] [Movable α] : Movable (EStateM.Result ε σ α) where
  move ρ
    | .ok a s => .ok (move ρ a) (move ρ s)
    | .error e s => .error (move ρ e) (move ρ s)

section

variable {ε σ α : Type} [Movable ε] [Movable σ] [Movable α] (ρ : Position → Position)

theorem move_result_ok (a : α) (s : σ) :
    move ρ (EStateM.Result.ok a s : EStateM.Result ε σ α) = .ok (move ρ a) (move ρ s) := rfl

theorem move_result_error (e : ε) (s : σ) :
    move ρ (EStateM.Result.error e s : EStateM.Result ε σ α) = .error (move ρ e) (move ρ s) := rfl

end

/-- After a move of the state, the second step does what the first one does before, but for the
move. -/
def Follows {ε σ α : Type} [Movable ε] [Movable σ] [Movable α] (ρ : Position → Position)
    (act act' : EStateM ε σ α) : Prop :=
  ∀ s, act' (move ρ s) = move ρ (act s)

namespace Follows

variable {ε σ α β : Type} [Movable ε] [Movable σ] [Movable α] [Movable β]
  {ρ : Position → Position} {act act' : EStateM ε σ α}

theorem pure (a : α) :
    Follows ρ (Pure.pure a : EStateM ε σ α) (Pure.pure (move ρ a)) := fun _ => rfl

/-- A result that is made of moved parts. -/
theorem made {a a' : α} (h : move ρ a = a') :
    Follows ρ (Pure.pure a : EStateM ε σ α) (Pure.pure a') :=
  h ▸ pure a

theorem raise (e : ε) : Follows ρ (throw e : EStateM ε σ α) (throw (move ρ e)) := fun _ => rfl

theorem bind {f f' : α → EStateM ε σ β} (h : Follows ρ act act')
    (hf : ∀ a, Follows ρ (f a) (f' (move ρ a))) : Follows ρ (act >>= f) (act' >>= f') := by
  intro s
  show EStateM.bind act' f' (move ρ s) = move ρ (EStateM.bind act f s)
  unfold EStateM.bind
  rw [h s]
  cases act s with
  | ok a s₁ => exact hf a s₁
  | error e s₁ => rfl

theorem ite {c : Prop} [Decidable c] {other other' : EStateM ε σ α} (h : Follows ρ act act')
    (hother : Follows ρ other other') :
    Follows ρ (if c then act else other) (if c then act' else other') := by
  split
  · exact h
  · exact hother

/-- A step that looks at the state. -/
theorem look {f f' : σ → EStateM ε σ α} (hf : ∀ s, Follows ρ (f s) (f' (move ρ s))) :
    Follows ρ (MonadState.get >>= f) (MonadState.get >>= f') := fun s => hf s s

theorem modifyGet {f f' : σ → α × σ}
    (hf : ∀ s, f' (move ρ s) = (move ρ (f s).1, move ρ (f s).2)) :
    Follows ρ (MonadState.modifyGet f : EStateM ε σ α) (MonadState.modifyGet f') := by
  intro s
  show (match f' (move ρ s) with | (a, s) => EStateM.Result.ok a s) = move ρ (match f s with
    | (a, s) => EStateM.Result.ok a s)
  rw [hf s]
  rfl

theorem change {f f' : σ → σ} (hf : ∀ s, f' (move ρ s) = move ρ (f s)) :
    Follows ρ (modify f : EStateM ε σ PUnit) (modify f') := by
  intro s
  exact congrArg (EStateM.Result.ok ()) (hf s)

end Follows

end Scriptlet
