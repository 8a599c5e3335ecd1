import Scriptlet.Proofs.Eval.Routines
import Scriptlet.Proofs.Syntax.Grammar

/-!
# Where the nodes of a program stand

Every expression and every statement of a program that the grammar derives stands
somewhere in the tokens: a part of the tokens, up to the end, begins with it
(`Stands`), and it has the position of the first of these. This is said of all nodes
that a program contains, those in the bodies of routines included
(`Program.Contains.stands`). A routine has the position of a token, too
(`Begins.routine_positions`).
-/

namespace Scriptlet

namespace Grammar

/-- The tokens begin with the expression or the statement. Two statements are written as an
expression alone: what a `for` loop starts with, and the body of a lambda without braces. -/
inductive Begins : List Token → Node → Prop
  | expr {ts rest : List Token} {e : Expr} : Expression ts e rest → Begins ts (.expr e)
  | stmt {ts rest : List Token} {s : Stmt} : Statement ts s rest → Begins ts (.stmt s)
  | loopStart {t : Token} {ts rest : List Token} {e : Expr} :
    Expression (t :: ts) e rest → Begins (t :: ts) (.stmt (.expression t.position e))
  | returned {t : Token} {ts rest : List Token} {e : Expr} :
    Expression (t :: ts) e rest → Begins (t :: ts) (.stmt (.returnStmt t.position (some e)))

/-- A node has the position of its first token. -/
theorem Begins.head {ts : List Token} {x : Node} (h : Begins ts x) :
    ∃ t us, ts = t :: us ∧ x.position = t.position := by
  cases h with
  | expr h => exact h.head
  | stmt h => exact h.head
  | loopStart => exact ⟨_, _, rfl, rfl⟩
  | returned => exact ⟨_, _, rfl, rfl⟩

/-- The expression or the statement stands somewhere in the tokens. -/
def Stands (ts : List Token) (x : Node) : Prop := ∃ us, us <:+ ts ∧ Begins us x

theorem Begins.stands {ts : List Token} {x : Node} (h : Begins ts x) : Stands ts x :=
  ⟨ts, List.suffix_refl ts, h⟩

theorem Stands.mono {us ts : List Token} {x : Node} (h : Stands us x) (hs : us <:+ ts) :
    Stands ts x := by
  obtain ⟨vs, hvs, hx⟩ := h
  exact ⟨vs, hvs.trans hs, hx⟩

theorem suffix_cons_cons (t u : Token) (ts : List Token) : ts <:+ t :: u :: ts :=
  (List.suffix_cons u ts).trans (List.suffix_cons t (u :: ts))

/-- All of the nodes stand in the tokens. -/
def AllStand (ts : List Token) (xs : List Node) : Prop := ∀ x ∈ xs, Stands ts x

namespace AllStand

variable {ts us : List Token} {xs ys : List Node}

theorem nil : AllStand ts [] := nofun

theorem mono (h : AllStand us xs) (hs : us <:+ ts) : AllStand ts xs :=
  fun x hx => (h x hx).mono hs

theorem append (h : AllStand ts xs) (h' : AllStand ts ys) : AllStand ts (xs ++ ys) :=
  List.forall_mem_append.mpr ⟨h, h'⟩

theorem expr {rest : List Token} {e : Expr} (h : Expression ts e rest) (hxs : AllStand ts xs) :
    AllStand ts (.expr e :: xs) :=
  List.forall_mem_cons.mpr ⟨(Begins.expr h).stands, hxs⟩

theorem stmt {rest : List Token} {s : Stmt} (h : Statement ts s rest) (hxs : AllStand ts xs) :
    AllStand ts (.stmt s :: xs) :=
  List.forall_mem_cons.mpr ⟨(Begins.stmt h).stands, hxs⟩

/-- The left side of an assignment is no node of it, but what it is made of is. -/
theorem assign {rest : List Token} {p : Position} {left value : Expr} {target : Target}
    (h : Expression ts (.assign p target value) rest) (ht : left.target? = some target)
    (hl : AllStand ts left.nodes) (hv : AllStand ts value.nodes) :
    AllStand ts (Expr.assign p target value).nodes := by
  cases left <;> cases ht
  · exact expr h hv
  · obtain ⟨-, ho⟩ := List.forall_mem_cons.mp hl
    exact expr h (append ho hv)
  · obtain ⟨-, hl⟩ := List.forall_mem_cons.mp hl
    obtain ⟨ho, hk⟩ := List.forall_mem_append.mp hl
    exact expr h (append ho (append hk hv))

end AllStand

mutual

theorem Expression.stands : ∀ {ts rest : List Token} {e : Expr}, Expression ts e rest →
    AllStand ts e.nodes
  | _, _, _, h@(.integer _ _) | _, _, _, h@(.float _ _) | _, _, _, h@(.string _)
  | _, _, _, h@(.trueWord _) | _, _, _, h@(.falseWord _) | _, _, _, h@(.null _)
  | _, _, _, h@(.undefined _) | _, _, _, h@(.identifier _) | _, _, _, h@(.lambda _ _ _ _ _)
  | _, _, _, h@(.lambdaReturning _ _ _ _ _) => .expr h .nil
  | _, _, _, h@(.unary _ hx _) => .expr h (hx.stands.mono (List.suffix_cons _ _))
  | _, _, _, h@(.binary hl _ hr _ _) | _, _, _, h@(.logical hl _ hr _ _) =>
    .expr h (hl.stands.append (hr.stands.mono hl.after.tail.suffix))
  | _, _, _, h@(.assign hl ht _ hv) =>
    .assign h ht hl.stands (hv.stands.mono hl.after.tail.suffix)
  | _, _, _, h@(.call hc _ _ _) => .expr h (hc.stands.append .nil)
  | _, _, _, h@(.callWith hc _ _ ha _) =>
    .expr h (hc.stands.append ((exprs_stand ha).mono hc.after.tail.suffix))
  | _, _, _, h@(.member ho _ _ _) => .expr h ho.stands
  | _, _, _, h@(.index ho _ _ hk _) =>
    .expr h (ho.stands.append (hk.stands.mono ho.after.tail.suffix))
  | _, _, _, h@(.group _ hx _) => .expr h (hx.stands.mono (List.suffix_cons _ _))
  | _, _, _, h@(.array _ hi _) => .expr h ((items_stand hi).mono (List.suffix_cons _ _))
  | _, _, _, h@(.object _ he _) => .expr h ((entries_stand he).mono (List.suffix_cons _ _))

theorem exprs_stand : ∀ {ts rest : List Token} {es : List Expr}, Commas Expression ts es rest →
    AllStand ts (exprsNodes es)
  | _, _, _, .one h => h.stands.append .nil
  | _, _, _, .more h _ hs => h.stands.append ((exprs_stand hs).mono h.after.tail.suffix)

theorem items_stand : ∀ {ts rest : List Token} {es : List Expr},
    LooseCommas Expression ts es rest → AllStand ts (exprsNodes es)
  | _, _, _, .none => .nil
  | _, _, _, .one h => h.stands.append .nil
  | _, _, _, .more h _ hs => h.stands.append ((items_stand hs).mono h.after.tail.suffix)

theorem entries_stand : ∀ {ts rest : List Token} {es : List Entry},
    LooseCommas ObjectEntry ts es rest → AllStand ts (entriesNodes es)
  | _, _, _, .none => .nil
  | _, _, _, .one (.mk _ _ h) => (h.stands.append .nil).mono (suffix_cons_cons _ _ _)
  | _, _, _, .more he@(.mk _ _ h) _ hs =>
    (h.stands.mono (suffix_cons_cons _ _ _)).append ((entries_stand hs).mono he.after.tail.suffix)

end

theorem Clause.stands {ts rest : List Token} {o : Option Expr} (h : Clause ts o rest) :
    AllStand ts (clauseNodes o) := by
  cases h with
  | none => exact .nil
  | some h => exact h.stands

mutual

theorem Statement.stands : ∀ {ts rest : List Token} {s : Stmt}, Statement ts s rest →
    AllStand ts s.nodes
  | _, _, _, h@(.expression _ he _) => .stmt h he.stands
  | _, _, _, h@(.declare _ _ _) | _, _, _, h@(.function _ _) | _, _, _, h@(.classDef _ _ _ _ _)
  | _, _, _, h@(.returnNothing _ _) | _, _, _, h@(.breakStmt _ _)
  | _, _, _, h@(.continueStmt _ _) => .stmt h .nil
  | _, _, _, h@(.declareInit _ _ _ he _) => .stmt h <| he.stands.mono <|
      (List.suffix_cons _ _).trans (suffix_cons_cons _ _ _)
  | _, _, _, h@(.block _ hb _) => .stmt h ((statements_stand hb).mono (List.suffix_cons _ _))
  | _, _, _, h@(.conditional _ _ ht _ hy _ _) => .stmt h <| AllStand.mono
      (ht.stands.append ((hy.stands.append .nil).mono ht.after.tail.suffix))
      (suffix_cons_cons _ _ _)
  | _, _, _, h@(.conditionalElse _ _ ht _ hy _ _ hn _) => .stmt h <| AllStand.mono
      (ht.stands.append ((hy.stands.append (hn.stands.mono hy.after.tail.suffix)).mono
        ht.after.tail.suffix))
      (suffix_cons_cons _ _ _)
  | _, _, _, h@(.whileLoop _ _ ht _ hb _) => .stmt h <| AllStand.mono
      (ht.stands.append (hb.stands.mono ht.after.tail.suffix))
      (suffix_cons_cons _ _ _)
  | _, _, _, h@(.forLoop _ _ hi ht _ hn _ hb _) => .stmt h <| AllStand.mono
      (hi.stands.append <| AllStand.mono (ht.stands.append <| AllStand.mono
        (hn.stands.append (hb.stands.mono ((List.suffix_cons _ _).trans hn.suffix)))
        ((List.suffix_cons _ _).trans ht.suffix)) hi.suffix)
      (suffix_cons_cons _ _ _)
  | _, _, _, h@(.foreachLoop _ _ hx hi _ hb _) => .stmt h <| AllStand.mono
      (AllStand.mono (hi.stands.append (hb.stands.mono hi.after.tail.suffix)) hx.after.suffix)
      (suffix_cons_cons _ _ _)
  | _, _, _, h@(.returnValue _ hv _) => .stmt h (hv.stands.mono (List.suffix_cons _ _))

theorem LoopStart.stands : ∀ {ts rest : List Token} {o : Option Stmt}, LoopStart ts o rest →
    AllStand ts (branchNodes o)
  | _, _, _, .none _ => .nil
  | _, _, _, .declaration h => h.stands
  | _, _, _, .expression h _ => List.forall_mem_cons.mpr ⟨(Begins.loopStart h).stands, h.stands⟩

theorem statements_stand : ∀ {ts rest : List Token} {ss : List Stmt},
    Sequence Statement ts ss rest → AllStand ts (stmtsNodes ss)
  | _, _, _, .nil => .nil
  | _, _, _, .cons h hs => h.stands.append ((statements_stand hs).mono h.after.suffix)

end

/-! ## The bodies of routines -/

theorem NamedRoutine.body_stands {ts rest : List Token} {r : Routine}
    (h : NamedRoutine ts r rest) : AllStand ts (stmtsNodes r.body) := by
  cases h with
  | mk _ hp _ hb _ =>
    exact (statements_stand hb).mono (hp.after.tail.suffix.trans (List.suffix_cons _ _))

theorem methods_bodies_stand {ts rest : List Token} {methods : List Routine}
    (h : Sequence Method ts methods rest) : ∀ r ∈ methods, AllStand ts (stmtsNodes r.body) := by
  induction h with
  | nil => exact nofun
  | cons hm _ ih =>
    refine List.forall_mem_cons.mpr ⟨?_, fun r hr => (ih r hr).mono hm.after.suffix⟩
    cases hm with
    | plain h => exact h.body_stands
    | withWord _ h => exact h.body_stands.mono (List.suffix_cons _ _)

/-- What stands in the body of a routine stands where the routine is made. -/
theorem Begins.bodies_stand {ts : List Token} {x : Node} (h : Begins ts x) :
    ∀ r ∈ x.routines, AllStand ts (stmtsNodes r.body) := by
  cases h with
  | loopStart => exact nofun
  | returned => exact nofun
  | expr h =>
    cases h with
    | lambda hp _ _ hb _ =>
      refine List.forall_mem_singleton.mpr ?_
      exact (statements_stand hb).mono hp.after.tail.tail.suffix
    | lambdaReturning hp _ _ hv _ =>
      refine List.forall_mem_singleton.mpr ?_
      have hbody : AllStand _ (.stmt (.returnStmt _ (some _)) :: _) :=
        List.forall_mem_cons.mpr ⟨(Begins.returned hv).stands, hv.stands⟩
      exact (hbody.append .nil).mono hp.after.tail.suffix
    | _ => exact nofun
  | stmt h =>
    cases h with
    | function _ h =>
      exact List.forall_mem_singleton.mpr (h.body_stands.mono (List.suffix_cons _ _))
    | classDef _ _ _ h _ =>
      intro r hr
      refine (methods_bodies_stand h r hr).mono ?_
      exact (List.suffix_cons _ _).trans (suffix_cons_cons _ _ _)
    | _ => exact nofun

/-! ## The positions of routines -/

theorem NamedRoutine.position_eq {ts rest : List Token} {r : Routine}
    (h : NamedRoutine ts r rest) : ∃ t ∈ ts, r.position = t.position := by
  cases h with
  | mk => exact ⟨_, List.mem_cons_self, rfl⟩

theorem methods_positions {ts rest : List Token} {methods : List Routine}
    (h : Sequence Method ts methods rest) : ∀ r ∈ methods, ∃ t ∈ ts, r.position = t.position := by
  induction h with
  | nil => exact nofun
  | cons hm _ ih =>
    refine List.forall_mem_cons.mpr ⟨?_, fun r hr => ?_⟩
    · cases hm with
      | plain h => exact h.position_eq
      | withWord _ h =>
        obtain ⟨t, ht, hposition⟩ := h.position_eq
        exact ⟨t, List.mem_cons_of_mem _ ht, hposition⟩
    · obtain ⟨t, ht, hposition⟩ := ih r hr
      exact ⟨t, hm.after.suffix.subset ht, hposition⟩

/-- The routines that a node makes something of have positions of its tokens. -/
theorem Begins.routine_positions {ts : List Token} {x : Node} (h : Begins ts x) :
    ∀ r ∈ x.routines, ∃ t ∈ ts, r.position = t.position := by
  cases h with
  | loopStart => exact nofun
  | returned => exact nofun
  | expr h =>
    cases h with
    | lambda | lambdaReturning =>
      exact List.forall_mem_singleton.mpr ⟨_, List.mem_cons_self, rfl⟩
    | _ => exact nofun
  | stmt h =>
    cases h with
    | function _ h =>
      obtain ⟨t, ht, hposition⟩ := h.position_eq
      exact List.forall_mem_singleton.mpr ⟨t, List.mem_cons_of_mem _ ht, hposition⟩
    | classDef _ _ _ h _ =>
      intro r hr
      obtain ⟨t, ht, hposition⟩ := methods_positions h r hr
      exact ⟨t, ((List.suffix_cons _ _).trans (suffix_cons_cons _ _ _)).subset ht, hposition⟩
    | _ => exact nofun

end Grammar

open Grammar

/-- Every expression and every statement of a derived program stands in its tokens. -/
theorem Program.Contains.stands {p : Program} {ts : List Token}
    (h : Sequence Statement ts p.statements []) {x : Node} (hx : p.Contains x) : Stands ts x := by
  induction hx with
  | outside hx => exact statements_stand h _ hx
  | inside _ hr hx ih =>
    obtain ⟨us, hus, hy⟩ := ih
    exact (hy.bodies_stand _ hr _ hx).mono hus

end Scriptlet
