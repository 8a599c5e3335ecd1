import Scriptlet.Proofs.Eval.Runs

/-!
# Every scope that is entered is left again

An evaluation enters a scope for each block, each round of a loop, each item of a
`foreach` loop and each call, and a call is counted as in progress. It may end in the
midst of all these: with a failure of any kind, with `return`, `break` or `continue`,
or because it is asked to stop. `samePlace_after` says that none of this shows
afterwards.

This is the law that allows everything (`Law.any`): every machine holds routines that
it allows, so what `Runs` says then holds on every machine.
-/

namespace Scriptlet

/-- The machine after an evaluation, however it ends. -/
def Eval.after {α : Type} (act : Eval α) (m : Machine) : Machine :=
  match act m with
  | .ok _ m' => m'
  | .error _ m' => m'

/-- The law that allows every routine and every failure. -/
def Law.any : Law where
  routine _ := True
  cause _ := True
  body _ _ _ := trivial
  ordinary _ := trivial
  jump _ _ _ := trivial

theorem Value.has_any (v : Value) : v.Has fun _ => True := by
  induction v using Value.inductionOnReceiver with
  | function f ih => exact Value.has_function.mpr ⟨trivial, ih⟩
  | other v hv => cases v <;> first | exact trivial | exact absurd rfl (hv _)

theorem Machine.holds_any (m : Machine) : m.Holds fun _ => True where
  env _ _ _ _ b _ := b.value.has_any
  heap :=
    { arrays := fun _ _ _ v _ => v.has_any
      objects := fun _ _ _ _ v _ => v.has_any
      instances := fun _ _ _ _ v _ => v.has_any
      classes := fun _ _ _ _ _ _ => trivial }

/-- On any machine, what runs by the law that allows everything ends at the place where it began. -/
theorem Runs.samePlace {J : Signal → Prop} {α : Type} {act : Eval α} {Q : α → Prop}
    (h : Runs .any J act Q) (m : Machine) : m.env.SamePlace (act.after m).env := by
  unfold Eval.after
  obtain ⟨a, m', hr, hk, -⟩ | ⟨e, m', hr, hk, -⟩ := h.outcome m.holds_any <;> rw [hr]
  · exact hk.place
  · exact hk.place

/-- After the evaluation of an expression, of statements, of a block, of a call or of a whole
program, on any machine and however it ends, the current scope and the global scope are the same as
before, and as many calls are in progress. -/
theorem samePlace_after (fuel n : Nat) (m : Machine) :
    (∀ e : Expr, m.env.SamePlace ((evalExpr (.of fuel n) e).after m).env) ∧
    (∀ s : Stmt, m.env.SamePlace ((evalStmt (.of fuel n) s).after m).env) ∧
    (∀ (last : Value) (ss : List Stmt),
      m.env.SamePlace ((evalStmts (.of fuel n) last ss).after m).env) ∧
    (∀ body : List Stmt, m.env.SamePlace ((evalBlock (.of fuel n) body).after m).env) ∧
    (∀ (callee : Value) (args : List Value),
      m.env.SamePlace ((callValue fuel callee args).after m).env) ∧
    (∀ p : Program, m.env.SamePlace ((runProgram fuel p).after m).env) ∧
    (∀ p : Program, m.env.SamePlace ((runBlock fuel p).after m).env) := by
  have calls := Law.any.calls fuel
  refine ⟨fun e => ?_, fun s => ?_, fun last ss => ?_, fun body => ?_, fun callee args => ?_,
    fun p => ?_, fun p => ?_⟩
  · exact (Runs.expr (J := fun _ => False) calls e fun _ _ => trivial).samePlace m
  · exact (Runs.stmt calls s fun _ _ => trivial).samePlace m
  · exact (Runs.stmts calls ss (fun _ _ => trivial) last.has_any).samePlace m
  · exact (Law.runs_block fuel n fun _ _ => trivial).samePlace m
  · exact (calls (fun _ => False) callee.has_any fun v _ => v.has_any).samePlace m
  · have hrun := Law.runs_program (L := .any) (J := fun _ => False) fuel (p := p)
      (fun _ _ => trivial) fun _ _ => trivial
    exact hrun.samePlace m
  · have hrun : Runs .any (Law.any.Leaving (stmtsJumps p.statements)) (runBlock fuel p)
        (Value.Has Law.any.routine) :=
      Law.runs_numberProgram.bind fun k _ => Law.runs_block fuel k fun _ _ => trivial
    exact hrun.samePlace m

end Scriptlet
