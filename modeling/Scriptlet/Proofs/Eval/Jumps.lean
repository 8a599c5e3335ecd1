import Scriptlet.Proofs.Eval.Scopes

/-!
# Where jumps end

A `break` or a `continue` goes to the loop around it in the text. No expression, call
or program lets one through, a loop takes those of its body, and a statement lets
through only those that stand in it outside of all loops and routines
(`Stmt.Contains`). A program in which every jump stands in the body of a loop of the
same routine never fails because of a jump, wherever its functions are kept and
whoever calls them: the law of such programs (`Law.confined`) allows a routine if it
is confined, and no failure because of a jump.
-/

namespace Scriptlet

/-- The jump on its way. -/
def Jump.signal : Jump → Signal
  | .broke p => .broke p
  | .continued p => .continued p

/-- Whether the statement is a loop. -/
def Stmt.isLoop : Stmt → Bool
  | .whileLoop .. | .forLoop .. | .foreachLoop .. => true
  | _ => false

/-- Whether a `for` loop may start with the statement, if it is given: with a declaration or an
expression. -/
def isStart : Option Stmt → Bool
  | none | some (.declare ..) | some (.expression ..) => true
  | _ => false

mutual

/-- Every `for` loop of the statement that is not within another loop starts with a declaration or
an expression. -/
def Stmt.plain : Stmt → Bool
  | .block _ body => stmtsPlain body
  | .conditional _ _ yes no => yes.plain && branchPlain no
  | .forLoop _ init _ _ _ => isStart init
  | _ => true

/-- The same for a statement that may be left out. -/
def branchPlain : Option Stmt → Bool
  | none => true
  | some s => s.plain

/-- The same for each of the statements. -/
def stmtsPlain : List Stmt → Bool
  | [] => true
  | s :: ss => s.plain && stmtsPlain ss

end

/-- The jump is the statement, or stands in it but in no loop and no routine within it. -/
inductive Stmt.Contains : Jump → Stmt → Prop
  | breakStmt (p : Position) : Contains (.broke p) (.breakStmt p)
  | continueStmt (p : Position) : Contains (.continued p) (.continueStmt p)
  | block {j : Jump} {s : Stmt} {body : List Stmt} (p : Position) :
    s ∈ body → Contains j s → Contains j (.block p body)
  | yes {j : Jump} {yes : Stmt} (p : Position) (test : Expr) (no : Option Stmt) :
    Contains j yes → Contains j (.conditional p test yes no)
  | no {j : Jump} {no : Stmt} (p : Position) (test : Expr) (yes : Stmt) :
    Contains j no → Contains j (.conditional p test yes (some no))

theorem Stmt.Contains.not_loop {j : Jump} {s : Stmt} (h : s.Contains j) : s.isLoop = false := by
  cases h <;> rfl

theorem branchJumps_of_isStart {init : Option Stmt} (h : isStart init = true) :
    branchJumps init = [] := by
  cases init with
  | none => rfl
  | some s => cases s <;> first | rfl | cases h

mutual

/-- The jumps that leave a plain statement are those that it contains. -/
theorem Stmt.contains_of_mem_jumps {j : Jump} (s : Stmt) (hs : s.plain = true) (hj : j ∈ s.jumps) :
    s.Contains j := by
  cases s with
  | block p body =>
    obtain ⟨s, hmem, hc⟩ := contains_of_mem_stmtsJumps body hs hj
    exact .block p hmem hc
  | conditional p test yes no =>
    obtain ⟨hyes, hno⟩ := Bool.and_eq_true_iff.mp hs
    rcases List.mem_append.mp hj with hj | hj
    · exact .yes p test no (yes.contains_of_mem_jumps hyes hj)
    · cases no with
      | none => cases hj
      | some no => exact .no p test yes (no.contains_of_mem_jumps hno hj)
  | forLoop p init test next body =>
    have hj : j ∈ branchJumps init := hj
    rw [branchJumps_of_isStart hs] at hj
    cases hj
  | breakStmt p =>
    cases List.mem_singleton.mp hj
    exact .breakStmt p
  | continueStmt p =>
    cases List.mem_singleton.mp hj
    exact .continueStmt p
  | _ => cases hj

theorem contains_of_mem_stmtsJumps {j : Jump} (ss : List Stmt) (hs : stmtsPlain ss = true)
    (hj : j ∈ stmtsJumps ss) : ∃ s ∈ ss, s.Contains j := by
  cases ss with
  | nil => cases hj
  | cons s ss =>
    obtain ⟨hs, hss⟩ := Bool.and_eq_true_iff.mp hs
    rcases List.mem_append.mp hj with hj | hj
    · exact ⟨s, List.mem_cons_self, s.contains_of_mem_jumps hs hj⟩
    · obtain ⟨s', hmem, hc⟩ := contains_of_mem_stmtsJumps ss hss hj
      exact ⟨s', List.mem_cons_of_mem s hmem, hc⟩

end

/-! ## Signals and failures -/

/-- The signal that an evaluation stops with is one that may get through. -/
theorem Runs.signal {J : Signal → Prop} {α : Type} {act : Eval α} {Q : α → Prop}
    (h : Runs .any J act Q) {m m' : Machine} {s : Signal}
    (hr : act m = .error (.signal s) m') : J s := by
  have hact := h m m.holds_any
  rw [hr] at hact
  exact hact.2

/-- The law of confined jumps. -/
def Law.confined : Law where
  routine := Routine.Confined
  cause c := c.isJump = false
  body h := h.routines
  ordinary h := h
  jump h j hj := by
    rw [h.jumps] at hj
    cases hj

/-- Signals never leave an expression, a call or a program. If a statement lets a jump through, it
is no loop and contains the jump outside of all loops and routines in it. So a program whose jumps
are confined, run with nothing but the standard built-in functions, does not fail because of a
jump. -/
theorem jumps_taken (fuel n : Nat) (m : Machine) :
    (∀ (e : Expr) (s : Signal) (m' : Machine),
      evalExpr (.of fuel n) e m ≠ .error (.signal s) m') ∧
    (∀ (callee : Value) (args : List Value) (s : Signal) (m' : Machine),
      callValue fuel callee args m ≠ .error (.signal s) m') ∧
    (∀ (p : Program) (s : Signal) (m' : Machine), runProgram fuel p m ≠ .error (.signal s) m') ∧
    (∀ (s : Stmt) (j : Jump) (m' : Machine), s.plain = true →
      evalStmt (.of fuel n) s m = .error (.signal j.signal) m' →
      s.isLoop = false ∧ s.Contains j) ∧
    (∀ (p : Program) (limit : Nat) (f : Failure) (m' : Machine), p.Confined →
      runProgram fuel p { m with env := .withPrelude limit, heap := .empty } =
        .error (.failure f) m' →
      f.cause ≠ .breakOutsideLoop ∧ f.cause ≠ .continueOutsideLoop) := by
  have calls := Law.any.calls fuel
  refine ⟨fun e s m' hr => ?_, fun callee args s m' hr => ?_, fun p s m' hr => ?_,
    fun s j m' hs hr => ?_, fun p limit f m' hp hr => ?_⟩
  · exact (Runs.expr (J := fun _ => False) calls e fun _ _ => trivial).signal hr
  · exact (calls (fun _ => False) callee.has_any fun v _ => v.has_any).signal hr
  · have hrun := Law.runs_program (L := .any) (J := fun _ => False) fuel (p := p)
      (fun _ _ => trivial) fun _ _ => trivial
    exact hrun.signal hr
  · have hj : Law.any.Leaving s.jumps j.signal :=
      (Runs.stmt calls s fun _ _ => trivial).signal hr
    have hc : s.Contains j := s.contains_of_mem_jumps hs (by cases j <;> exact hj)
    exact ⟨hc.not_loop, hc⟩
  · have hrun : Runs .confined (fun _ => False) (runProgram fuel p)
        (Value.Has Law.confined.routine) := by
      refine Law.runs_program fuel hp.routines fun j hj => ?_
      rw [hp.jumps] at hj
      cases hj
    have hend := hrun { m with env := .withPrelude limit, heap := .empty }
      ⟨.withPrelude limit, .empty⟩
    rw [hr] at hend
    have hf : f.cause.isJump = false := hend.2
    constructor <;> intro hcause <;> rw [hcause] at hf <;> cases hf

/-- The failure that an evaluation ends with on `m`, if it does. -/
def Eval.failure? {α : Type} (act : Eval α) (m : Machine) : Option Failure :=
  match act m with
  | .ok _ _ => none
  | .error (.failure f) _ => some f
  | .error _ _ => none

theorem Eval.failure?_eq_some {α : Type} {act : Eval α} {m : Machine} {f : Failure}
    (h : act.failure? m = some f) : ∃ m', act m = .error (.failure f) m' := by
  unfold Eval.failure? at h
  split at h
  · cases h
  · cases h
    exact ⟨_, by assumption⟩
  · cases h

/-- The statement `{ if (true) break; }`. -/
def strayBreak : Stmt :=
  .block ⟨1, 1⟩ [.conditional ⟨1, 3⟩ (.boolean ⟨1, 7⟩ true) (.breakStmt ⟨1, 13⟩) none]

/-- The program `function f() { while (true) break; x; } f();`. -/
def loopInFunction : Program :=
  ⟨[.function ⟨1, 10⟩ ⟨"f", [], [.whileLoop ⟨1, 16⟩ (.boolean ⟨1, 23⟩ true) (.breakStmt ⟨1, 29⟩),
      .expression ⟨1, 36⟩ (.identifier ⟨1, 36⟩ "x")], ⟨1, 10⟩⟩,
    .expression ⟨1, 41⟩ (.call ⟨1, 41⟩ (.identifier ⟨1, 41⟩ "f") [])]⟩

/-- The first lets its `break` through; the second fails, but not because of its `break`. -/
theorem jumps_taken_sample :
    (∃ m', evalStmt (.of 1 0) strayBreak (.new .withoutStorage {}) =
        .error (.signal (Jump.broke ⟨1, 13⟩).signal) m' ∧
      strayBreak.isLoop = false ∧ strayBreak.Contains (.broke ⟨1, 13⟩)) ∧
    (∃ f m', runProgram 2 loopInFunction { Machine.new .withoutStorage {} with
        env := .withPrelude 10, heap := .empty } = .error (.failure f) m' ∧
      f.cause ≠ .breakOutsideLoop ∧ f.cause ≠ .continueOutsideLoop) := by
  obtain ⟨-, -, -, hstmt, -⟩ := jumps_taken 1 0 (.new .withoutStorage {})
  obtain ⟨-, -, -, -, hprogram⟩ := jumps_taken 2 0 (.new .withoutStorage {})
  have hconfined : loopInFunction.Confined := by
    refine ⟨rfl, fun r hr => ?_⟩
    cases List.mem_singleton.mp hr
    exact .mk rfl fun r hr => nomatch hr
  have hfails : (runProgram 2 loopInFunction).failure? { Machine.new .withoutStorage {} with
      env := .withPrelude 10, heap := .empty } = some ⟨.undefinedVariable "x", some ⟨1, 36⟩⟩ := by
    decide +kernel
  obtain ⟨m', hr⟩ := Eval.failure?_eq_some hfails
  exact ⟨⟨_, rfl, hstmt _ _ _ rfl rfl⟩, _, m', hr, hprogram _ 10 _ m' hconfined hr⟩

end Scriptlet
