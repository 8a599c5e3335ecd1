import Scriptlet.Proofs.Syntax.Printing

/-!
# What the grammar derives is well-formed

Every tree that the grammar derives has the shape that `wellFormed` describes
(`Expression.wellFormed`, `Statement.wellFormed`). Most of it is in the rules
themselves. Two parts are not, since they speak of what a phrase starts with or
ends with: an expression whose tokens would start with a brace does start with one
(`Expression.startsBrace`), and a statement that leaves a conditional open is not
followed by `else` (`Statement.endsOpen`).
-/

namespace Scriptlet

theorem Expr.print_ne_nil (e : Expr) : e.print ≠ [] := by
  cases e <;> simp [Expr.print, bracketed]
  case lambda r => cases r; simp [Routine.printLambda, printParams, bracketed]

theorem startsBrace_append {ms ms' : List Mark} (h : ms ≠ []) :
    startsBrace (ms ++ ms') = startsBrace ms := by
  cases ms with
  | nil => exact absurd rfl h
  | cons m ms =>
    cases m with
    | symbol k => cases k <;> rfl
    | _ => rfl

theorem startsBrace_unary (op : UnaryOp) (ms : List Mark) :
    startsBrace (.symbol op.symbol :: ms) = false := by
  cases op <;> rfl

theorem Expr.print_of_target {e : Expr} {x : Target} (h : e.target? = some x) :
    e.print = x.print := by
  cases e <;> cases h <;> rfl

theorem Target.wellFormed_of_target {e : Expr} {x : Target} (h : e.target? = some x)
    (hw : e.wellFormed = true) : x.wellFormed = true := by
  cases e <;> cases h
  · rfl
  · exact hw
  · exact hw

namespace Grammar

/-- An expression whose tokens would start with a brace starts with one. -/
theorem Expression.startsBrace : ∀ {ts rest : List Token} {e : Expr}, Expression ts e rest →
    startsBrace e.print = true → Next (· = .symbol .leftBrace) ts
  | _, _, _, .object hl _ _, _ => next_cons.mpr hl
  | _, _, _, .unary _ _ _, h => by
    rw [Expr.print, startsBrace_unary] at h
    cases h
  | _, _, _, .integer _ _, h | _, _, _, .float _ _, h | _, _, _, .string _, h
  | _, _, _, .trueWord _, h | _, _, _, .falseWord _, h | _, _, _, .null _, h
  | _, _, _, .undefined _, h | _, _, _, .identifier _, h | _, _, _, .group _ _ _, h
  | _, _, _, .array _ _ _, h | _, _, _, .lambda _ _ _ _ _, h
  | _, _, _, .lambdaReturning _ _ _ _ _, h => by cases h
  | _, _, _, .binary hl _ _ _ _, h | _, _, _, .logical hl _ _ _ _, h | _, _, _, .call hl _ _ _, h
  | _, _, _, .callWith hl _ _ _ _, h | _, _, _, .member hl _ _ _, h
  | _, _, _, .index hl _ _ _ _, h => by
    rw [Expr.print, startsBrace_append (Expr.print_ne_nil _)] at h
    exact hl.startsBrace h
  | _, _, _, .assign hl ht _ _, h => by
    rw [Expr.print, ← Expr.print_of_target ht, startsBrace_append (Expr.print_ne_nil _)] at h
    exact hl.startsBrace h

/-- A statement that leaves a conditional open is not followed by `else`. -/
theorem Statement.endsOpen : ∀ {ts rest : List Token} {s : Stmt}, Statement ts s rest →
    s.endsOpen = true → Next (· ≠ .keyword .elseWord) rest
  | _, _, _, .conditional _ _ _ _ _ _ hn, _ => hn
  | _, _, _, .conditionalElse _ _ _ _ _ _ _ hno _, h => hno.endsOpen h
  | _, _, _, .whileLoop _ _ _ _ hb _, h | _, _, _, .forLoop _ _ _ _ _ _ _ hb _, h
  | _, _, _, .foreachLoop _ _ _ _ _ hb _, h => hb.endsOpen h
  | _, _, _, .expression _ _ _, h | _, _, _, .declare _ _ _, h | _, _, _, .declareInit _ _ _ _ _, h
  | _, _, _, .block _ _ _, h | _, _, _, .function _ _, h | _, _, _, .classDef _ _ _ _ _, h
  | _, _, _, .returnNothing _ _, h | _, _, _, .returnValue _ _ _, h
  | _, _, _, .breakStmt _ _, h | _, _, _, .continueStmt _ _, h => by cases h

mutual

/-- A derived expression is well-formed. -/
theorem Expression.wellFormed : ∀ {ts rest : List Token} {e : Expr}, Expression ts e rest →
    e.wellFormed = true
  | _, _, _, .integer _ _ | _, _, _, .float _ _ | _, _, _, .string _ | _, _, _, .trueWord _
  | _, _, _, .falseWord _ | _, _, _, .null _ | _, _, _, .undefined _ | _, _, _, .identifier _ => rfl
  | _, _, _, .unary _ h hl => by simp [Expr.wellFormed, h.wellFormed, hl]
  | _, _, _, .binary h _ h' hl hr | _, _, _, .logical h _ h' hl hr => by
    simp [Expr.wellFormed, h.wellFormed, h'.wellFormed, hl, hr]
  | _, _, _, .assign h ht _ h' => by
    rw [Expr.wellFormed, Target.wellFormed_of_target ht h.wellFormed, h'.wellFormed]
    rfl
  | _, _, _, .call h hl _ _ => by simp [Expr.wellFormed, h.wellFormed, hl, wellFormedExprs]
  | _, _, _, .callWith h hl _ h' _ => by
    simp [Expr.wellFormed, h.wellFormed, hl, exprs_wellFormed h']
  | _, _, _, .member h hl _ _ => by simp [Expr.wellFormed, h.wellFormed, hl]
  | _, _, _, .index h hl _ h' _ => by simp [Expr.wellFormed, h.wellFormed, h'.wellFormed, hl]
  | _, _, _, .group _ h _ => h.wellFormed
  | _, _, _, .array _ h _ => items_wellFormed h
  | _, _, _, .object _ h _ => entries_wellFormed h
  | _, _, _, .lambda _ _ _ h _ => by simp [Expr.wellFormed, Routine.wellFormed, statements_wellFormed h]
  | _, _, _, .lambdaReturning _ _ _ h _ => by
    simp [Expr.wellFormed, Routine.wellFormed, wellFormedStmts, Stmt.wellFormed, wellFormedClause,
      h.wellFormed]

theorem exprs_wellFormed : ∀ {ts rest : List Token} {es : List Expr}, Commas Expression ts es rest →
    wellFormedExprs es = true
  | _, _, _, .one h => by simp [wellFormedExprs, h.wellFormed]
  | _, _, _, .more h _ h' => by simp [wellFormedExprs, h.wellFormed, exprs_wellFormed h']

theorem items_wellFormed : ∀ {ts rest : List Token} {es : List Expr},
    LooseCommas Expression ts es rest → wellFormedExprs es = true
  | _, _, _, .none => rfl
  | _, _, _, .one h => by simp [wellFormedExprs, h.wellFormed]
  | _, _, _, .more h _ h' => by simp [wellFormedExprs, h.wellFormed, items_wellFormed h']

theorem entries_wellFormed : ∀ {ts rest : List Token} {es : List Entry},
    LooseCommas ObjectEntry ts es rest → wellFormedEntries es = true
  | _, _, _, .none => rfl
  | _, _, _, .one h => by simp [wellFormedEntries, h.wellFormed]
  | _, _, _, .more h _ h' => by simp [wellFormedEntries, h.wellFormed, entries_wellFormed h']

theorem ObjectEntry.wellFormed : ∀ {ts rest : List Token} {e : Entry}, ObjectEntry ts e rest →
    e.wellFormed = true
  | _, _, _, .mk _ _ h => h.wellFormed

theorem NamedRoutine.wellFormed : ∀ {ts rest : List Token} {r : Routine}, NamedRoutine ts r rest →
    r.wellFormed = true
  | _, _, _, .mk _ _ _ h _ => statements_wellFormed h

theorem methods_wellFormed : ∀ {ts rest : List Token} {rs : List Routine},
    Sequence Method ts rs rest → wellFormedRoutines rs = true
  | _, _, _, .nil => rfl
  | _, _, _, .cons (.plain h) h' | _, _, _, .cons (.withWord _ h) h' => by
    simp [wellFormedRoutines, h.wellFormed, methods_wellFormed h']

theorem LoopStart.wellFormed : ∀ {ts rest : List Token} {init : Option Stmt},
    LoopStart ts init rest → wellFormedStart init = true
  | _, _, _, .none _ => rfl
  | _, _, _, .declaration h => h.wellFormed
  | _, _, _, .expression h _ => h.wellFormed

theorem Clause.wellFormed : ∀ {ts rest : List Token} {o : Option Expr}, Clause ts o rest →
    wellFormedClause o = true
  | _, _, _, .none => rfl
  | _, _, _, .some h => h.wellFormed

/-- A derived statement is well-formed. -/
theorem Statement.wellFormed : ∀ {ts rest : List Token} {s : Stmt}, Statement ts s rest →
    s.wellFormed = true
  | _, _, _, .expression hb h _ => by
    have hs : startsBrace _ ≠ true := fun hs => hb (next_cons.mp (h.startsBrace hs))
    simp [Stmt.wellFormed, h.wellFormed, hs]
  | _, _, _, .declare _ _ _ => rfl
  | _, _, _, .declareInit _ _ _ h _ => by simp [Stmt.wellFormed, wellFormedClause, h.wellFormed]
  | _, _, _, .block _ h _ => statements_wellFormed h
  | _, _, _, .conditional _ _ h _ h' hd _ => by
    simp [Stmt.wellFormed, h.wellFormed, h'.wellFormed, hd, wellFormedElse]
  | _, _, _, .conditionalElse _ _ h _ h' hd ho h'' hd' => by
    have hopen : Stmt.endsOpen _ ≠ true := fun hs => next_cons.mp (h'.endsOpen hs) ho
    simp [Stmt.wellFormed, h.wellFormed, h'.wellFormed, h''.wellFormed, hd, hd', hopen, wellFormedElse]
  | _, _, _, .whileLoop _ _ h _ h' hd => by simp [Stmt.wellFormed, h.wellFormed, h'.wellFormed, hd]
  | _, _, _, .forLoop _ _ h h₁ _ h₂ _ h₃ hd => by
    simp [Stmt.wellFormed, h.wellFormed, h₁.wellFormed, h₂.wellFormed, h₃.wellFormed, hd]
  | _, _, _, .foreachLoop _ _ _ h _ h' hd => by
    simp [Stmt.wellFormed, h.wellFormed, h'.wellFormed, hd]
  | _, _, _, .function _ h => h.wellFormed
  | _, _, _, .classDef _ _ _ h _ => methods_wellFormed h
  | _, _, _, .returnNothing _ _ => rfl
  | _, _, _, .returnValue _ h _ => h.wellFormed
  | _, _, _, .breakStmt _ _ => rfl
  | _, _, _, .continueStmt _ _ => rfl

/-- Derived statements are well-formed. -/
theorem statements_wellFormed : ∀ {ts rest : List Token} {ss : List Stmt},
    Sequence Statement ts ss rest → wellFormedStmts ss = true
  | _, _, _, .nil => rfl
  | _, _, _, .cons h h' => by simp [wellFormedStmts, h.wellFormed, statements_wellFormed h']

end

end Grammar

end Scriptlet
