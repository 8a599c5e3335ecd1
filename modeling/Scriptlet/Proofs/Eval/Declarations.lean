import Scriptlet.Proofs.Eval.Frames

/-!
# Which declarations are carried out

A text may hold a declaration and not come to it. `Declares` says that the evaluation of a
statement, begun on a given machine, carries out a declaration of a name where the statement
stands, and `AnyDeclares` says it of statements in order. If it does not, no name but others
is declared there, however the evaluation ends (`Region.Holds.spares_stmt`), so that a
constant of that name stays (`Machine.Spares.constant`).
-/

namespace Scriptlet

/-- The name is bound to the value as a global constant. -/
def Environment.HasConstant (e : Environment) (x : String) (v : Value) : Prop :=
  (e.bindings e.globals).get? x = some ⟨v, .constant⟩

/-- The name that the statement itself declares. -/
def Stmt.own? : Stmt → Option String
  | .declare _ _ x _ => some x
  | .function _ r => some r.name
  | .classDef _ x _ => some x
  | _ => none

/-- The evaluation of the statement on the machine declares the name where the statement stands: it
is a declaration of the name, and succeeds, or it is conditional, and the branch that is taken
declares the name. -/
inductive Declares (g : Engine) (x : String) : Stmt → Machine → Prop
  | here {s : Stmt} {m m' : Machine} {v : Value} : s.own? = some x → evalStmt g s m = .ok v m' →
    Declares g x s m
  | yes {p : Position} {test : Expr} {yes : Stmt} {no : Option Stmt} {m m' : Machine} {c : Value} :
    evalExpr g test ((Stmt.conditional p test yes no).begun m) = .ok c m' → c.truthy = true →
    Declares g x yes m' → Declares g x (.conditional p test yes no) m
  | no {p : Position} {test : Expr} {yes no : Stmt} {m m' : Machine} {c : Value} :
    evalExpr g test ((Stmt.conditional p test yes (some no)).begun m) = .ok c m' →
    c.truthy = false → Declares g x no m' → Declares g x (.conditional p test yes (some no)) m

/-- The evaluation of the statements on the machine comes to one that declares the name. -/
inductive AnyDeclares (g : Engine) (x : String) : List Stmt → Machine → Prop
  | head {s : Stmt} {ss : List Stmt} {m : Machine} : Declares g x s m → AnyDeclares g x (s :: ss) m
  | tail {s : Stmt} {ss : List Stmt} {m m' : Machine} {v : Value} : evalStmt g s m = .ok v m' →
    AnyDeclares g x ss m' → AnyDeclares g x (s :: ss) m

/-- What may have happened to the scopes, if the name has not been declared. -/
def Machine.Spares (x : String) (m n : Machine) : Prop :=
  ∃ names, x ∉ names ∧ m.Changes names n

namespace Machine.Spares

variable {x : String} {m n o : Machine}

theorem of_nil (h : m.Changes [] n) : m.Spares x n := ⟨[], List.not_mem_nil, h⟩

theorem trans (h : m.Spares x n) (h' : n.Spares x o) : m.Spares x o := by
  obtain ⟨names, hx, hchange⟩ := h
  obtain ⟨names', hx', hchange'⟩ := h'
  refine ⟨names ++ names', ?_, ?_⟩
  · rw [List.mem_append]
    exact fun hmem => hmem.elim hx hx'
  · exact (hchange.mono (List.subset_append_left _ _)).trans
      (hchange'.mono (List.subset_append_right _ _))

end Machine.Spares

/-- A global constant stays where its name is not declared in the global scope. -/
theorem Machine.Changes.constant {names : List String} {m n : Machine} (h : m.Changes names n)
    (hstored : m.env.globals.index < m.size .scope) {x : String} {v : Value}
    (hx : m.env.globals = m.env.current → x ∉ names) (hconst : m.env.HasConstant x v) :
    n.env.HasConstant x v := by
  unfold Environment.HasConstant at hconst ⊢
  have hfree : x ∉ if m.env.globals = m.env.current then names else [] := by
    split
    · exact hx ‹_›
    · exact List.not_mem_nil
  obtain ⟨b, hb, -, hsame⟩ := (h.bindings hstored).binding hconst hfree
  rw [h.globals, hb, hsame rfl]

theorem Machine.Spares.constant {x : String} {m n : Machine} (h : m.Spares x n)
    (hstored : m.env.globals.index < m.size .scope) {v : Value} (hconst : m.env.HasConstant x v) :
    n.env.HasConstant x v := by
  obtain ⟨names, hx, hchange⟩ := h
  exact hchange.constant hstored (fun _ => hx) hconst

/-! ## Statements -/

/-- What a conditional statement does with the value of its test. -/
def Eval.branch (g : Engine) (yes : Stmt) (no : Option Stmt) (c : Value) : Eval Value :=
  if c.truthy then evalStmt g yes
  else
    match no with
    | some no => evalStmt g no
    | none => pure .undefined

theorem evalStmt_conditional (g : Engine) (p : Position) (test : Expr) (yes : Stmt)
    (no : Option Stmt) (m : Machine) : evalStmt g (.conditional p test yes no) m =
      Eval.step p (evalExpr g test >>= Eval.branch g yes no)
        ((Stmt.conditional p test yes no).begun m) := by
  cases no <;> rw [evalStmt, Eval.traced_eq] <;> rfl

theorem Stmt.changes_begun (s : Stmt) (m : Machine) : m.Changes [] (s.begun m) := by
  unfold Stmt.begun
  split <;> exact .of_scopes (le_refl _) rfl rfl rfl

namespace Region.Holds

variable {X : Region} {fuel n : Nat} {x : String} {m m' : Machine}

theorem begun (hm : X.Holds m) (s : Stmt) : X.Holds (s.begun m) := by
  unfold Stmt.begun
  split
  · exact hm.congr rfl rfl rfl hm.env.current
  · exact hm

/-- A declaration that fails declares nothing. -/
theorem changes_of_error (hm : X.Holds m) {s : Stmt} (hs : s.own? = some x) {e : Stop}
    (h : evalStmt (.of fuel n) s m = .error e m') : m.Changes [] m' := by
  have hbegun := s.changes_begun m
  cases s with
  | declare p mode y init =>
    cases init with
    | some init =>
      rw [evalStmt, Eval.traced_eq] at h
      obtain rfl | ⟨e', h⟩ := Eval.of_step_error h
      · exact hbegun
      · obtain ⟨e, h⟩ | ⟨v, m₁, -, h⟩ := Eval.of_bind_ending (r := .error e') h
        · exact hbegun.trans ((hm.begun _).expr_ended (r := .error e) h).2.1
        · cases h
    | none =>
      rw [evalStmt, Eval.traced_eq] at h
      obtain rfl | ⟨e', h⟩ := Eval.of_step_error h
      · exact hbegun
      · cases h
  | function p r =>
    rw [evalStmt, Eval.traced_eq] at h
    obtain rfl | ⟨e', h⟩ := Eval.of_step_error h
    · exact hbegun
    · cases h
  | classDef p y methods =>
    rw [evalStmt, Eval.traced_eq] at h
    obtain rfl | ⟨e', h⟩ := Eval.of_step_error h
    · exact hbegun
    · cases h
  | _ => cases hs

/-- A statement that is not conditional declares nothing but its own name. -/
theorem spares_of_own (hm : X.Holds m) {s : Stmt} (hdeclared : s.declared = s.own?.toList)
    {r : Except Stop Value} (h : evalStmt (.of fuel n) s m = Eval.ending r m')
    (hs : ¬ Declares (.of fuel n) x s m) : m.Spares x m' := by
  by_cases hown : s.own? = some x
  · cases r with
    | ok v => exact absurd (.here hown h) hs
    | error e => exact .of_nil (hm.changes_of_error hown h)
  · obtain ⟨-, hchange, -⟩ := (X.frames_stmt fuel n s).ended hm h
    refine ⟨s.declared, fun hx => hown ?_, hchange⟩
    rw [hdeclared] at hx
    exact Option.mem_toList.mp hx

/-- A statement that does not declare the name at most declares others, however it ends. -/
theorem spares_stmt {m m' : Machine} (hm : X.Holds m) (s : Stmt) {r : Except Stop Value}
    (h : evalStmt (.of fuel n) s m = Eval.ending r m') (hs : ¬ Declares (.of fuel n) x s m) :
    m.Spares x m' := by
  cases s with
  | conditional p test yes no =>
    have hbegun := (Stmt.conditional p test yes no).changes_begun m
    rw [evalStmt_conditional] at h
    obtain rfl | ⟨r', h⟩ := Eval.of_step_ending h
    · exact .of_nil hbegun
    obtain ⟨e, ht⟩ | ⟨c, mt, ht, h⟩ := Eval.of_bind_ending h
    · exact .of_nil (hbegun.trans ((hm.begun _).expr_ended (r := .error e) ht).2.1)
    obtain ⟨hmt, htest, -⟩ := (hm.begun _).expr_ended (r := .ok c) ht
    have hbefore : m.Spares x mt := .of_nil (hbegun.trans htest)
    unfold Eval.branch at h
    split at h
    · exact hbefore.trans (hmt.spares_stmt yes h fun hd => hs (.yes ht ‹_› hd))
    · have hfalse := Bool.eq_false_iff.mpr ‹_›
      cases no with
      | some no => exact hbefore.trans (hmt.spares_stmt no h fun hd => hs (.no ht hfalse hd))
      | none =>
        have h : Eval.ending (.ok Value.undefined) mt = Eval.ending r' m' := h
        obtain ⟨-, rfl⟩ := Eval.ending_inj h
        exact hbefore
  | _ => exact hm.spares_of_own rfl h hs

theorem spares_stmts (hm : X.Holds m) (ss : List Stmt) {last : Value} {r : Except Stop Value}
    (h : evalStmts (.of fuel n) last ss m = Eval.ending r m')
    (hs : ¬ AnyDeclares (.of fuel n) x ss m) : m.Spares x m' := by
  induction ss generalizing m last with
  | nil =>
    rw [evalStmts] at h
    obtain ⟨-, rfl⟩ := Eval.ending_inj (r := .ok last) h
    exact .of_nil (.of_scopes (le_refl _) rfl rfl rfl)
  | cons s ss ih =>
    rw [evalStmts] at h
    have hfirst : ¬ Declares (.of fuel n) x s m := fun hd => hs (.head hd)
    obtain ⟨e, h⟩ | ⟨v, m₁, hv, h⟩ := Eval.of_bind_ending h
    · exact hm.spares_stmt s (r := .error e) h hfirst
    · obtain ⟨hm₁, -, -⟩ := (X.frames_stmt fuel n s).ended (r := .ok v) hm hv
      have hbefore := hm.spares_stmt s (r := .ok v) hv hfirst
      exact hbefore.trans (ih hm₁ h fun hd => hs (.tail hv hd))

end Region.Holds

end Scriptlet
