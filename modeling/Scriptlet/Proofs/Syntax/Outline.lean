import Mathlib.Data.List.Nodup
import Scriptlet.Proofs.Eval.Outcomes
import Scriptlet.Proofs.Syntax.Places
import Scriptlet.Proofs.Syntax.Programs
import Scriptlet.Proofs.Token.Slices

/-!
# Declarations are known by their positions

A function is equal to another one only if both come from one declaration, and a declaration is
known by the program that it is part of and its position there. That is enough: all routines of a
program, with those in the bodies of others, stand at tokens of the text one behind the other
(`exists_outline`). So no two of them have the same position (`Program.HasRoutine.eq_of_position`).
-/

namespace Scriptlet

/-- The second list is the first one, with the routines in the bodies of others, each behind the
routine that it is in. -/
inductive Outline : List Routine → List Routine → Prop
  | nil : Outline [] []
  | cons {r : Routine} {rs inner rest : List Routine} : Outline (stmtsRoutines r.body) inner →
    Outline rs rest → Outline (r :: rs) (r :: (inner ++ rest))

namespace Outline

variable {rs rs' all all' : List Routine}

theorem append (h : Outline rs all) (h' : Outline rs' all') :
    Outline (rs ++ rs') (all ++ all') := by
  induction h with
  | nil => exact h'
  | cons hinner _ _ ih =>
    rw [List.cons_append, List.cons_append, List.append_assoc]
    exact .cons hinner ih

theorem subset (h : Outline rs all) : rs ⊆ all := by
  induction h with
  | nil => exact List.Subset.refl _
  | cons _ _ _ ih =>
    exact List.cons_subset_cons _ (List.subset_append_of_subset_right _ ih)

/-- The routines in the body of a routine that is listed are listed. -/
theorem inside (h : Outline rs all) {r : Routine} (hr : r ∈ all) : stmtsRoutines r.body ⊆ all := by
  induction h with
  | nil => cases hr
  | cons hinner hrest ihinner ihrest =>
    obtain rfl | hr := List.mem_cons.mp hr
    · exact List.subset_cons_of_subset _ (List.subset_append_of_subset_left _ hinner.subset)
    · refine List.subset_cons_of_subset _ ?_
      obtain hr | hr := List.mem_append.mp hr
      · exact List.subset_append_of_subset_left _ (ihinner hr)
      · exact List.subset_append_of_subset_right _ (ihrest hr)

end Outline

/-- An outline of a program lists all its routines. -/
theorem Program.HasRoutine.mem_outline {p : Program} {all : List Routine}
    (h : Outline (stmtsRoutines p.statements) all) {r : Routine} (hr : p.HasRoutine r) :
    r ∈ all := by
  obtain ⟨x, hx, hr⟩ := hr
  have made {ss : List Stmt} {y : Node} (hy : y ∈ stmtsNodes ss) {r : Routine}
      (hr : r ∈ y.routines) : r ∈ stmtsRoutines ss := by
    rw [← flatMap_stmtsNodes]
    exact List.mem_flatMap.mpr ⟨y, hy, hr⟩
  induction hx generalizing r with
  | outside hx => exact h.subset (made hx hr)
  | inside _ hr' hx ih => exact h.inside (ih hr') (made hx hr)

namespace Grammar

/-- The tokens from `ts` up to `rest` are read, and the routines, with those in their bodies, stand at
some of them one behind the other. -/
def Outlines (ts : List Token) (rs : List Routine) (rest : List Token) : Prop :=
  ∃ read all, ts = read ++ rest ∧ Outline rs all ∧
    (all.map Routine.position).Sublist (read.map Token.position)

namespace Outlines

variable {t : Token} {ts us rest : List Token} {rs rs' : List Routine}

theorem nothing (h : rest <:+ ts) : Outlines ts [] rest := by
  obtain ⟨read, rfl⟩ := h
  exact ⟨read, [], rfl, .nil, List.nil_sublist _⟩

theorem append (h : Outlines ts rs us) (h' : Outlines us rs' rest) :
    Outlines ts (rs ++ rs') rest := by
  obtain ⟨read, all, rfl, hall, hread⟩ := h
  obtain ⟨read', all', rfl, hall', hread'⟩ := h'
  refine ⟨read ++ read', all ++ all', (List.append_assoc ..).symm, hall.append hall', ?_⟩
  rw [List.map_append, List.map_append]
  exact hread.append hread'

/-- Tokens that are read before. -/
theorem behind (h : Outlines us rs rest) (hs : us <:+ ts) : Outlines ts rs rest :=
  (nothing hs).append h

/-- Tokens that are read after. -/
theorem before (h : Outlines ts rs us) (hs : rest <:+ us) : Outlines ts rs rest := by
  have := h.append (nothing hs)
  rwa [List.append_nil] at this

theorem within (h : Outlines us rs (t :: rest)) (hs : us <:+ ts) : Outlines ts rs rest :=
  (h.before (List.suffix_cons t rest)).behind hs

/-- A routine that stands at the first token, and its body. -/
theorem routine {r : Routine} (h : Outlines us (stmtsRoutines r.body) rest)
    (hs : After (t :: ts) us) (hr : r.position = t.position) : Outlines (t :: ts) [r] rest := by
  obtain ⟨_, _, heq, hs⟩ := hs
  cases heq
  obtain ⟨read, all, rfl, hall, hread⟩ := h.behind hs
  refine ⟨t :: read, r :: (all ++ []), rfl, .cons hall .nil, ?_⟩
  rw [List.append_nil, List.map_cons, List.map_cons, hr]
  exact hread.cons_cons _

end Outlines

theorem target_routines {p : Position} {left value : Expr} {target : Target}
    (h : left.target? = some target) :
    (Expr.assign p target value).routines = left.routines ++ value.routines := by
  cases left <;> cases h <;> simp [Expr.routines]

section

open List (suffix_cons suffix_refl)

mutual

theorem Expression.outlines : ∀ {ts rest : List Token} {e : Expr}, Expression ts e rest →
    Outlines ts e.routines rest
  | _, _, _, .integer _ _ | _, _, _, .float _ _ | _, _, _, .string _ | _, _, _, .trueWord _
  | _, _, _, .falseWord _ | _, _, _, .null _ | _, _, _, .undefined _ | _, _, _, .identifier _ =>
    .nothing (suffix_cons _ _)
  | _, _, _, .unary _ hx _ => hx.outlines.behind (suffix_cons _ _)
  | _, _, _, .binary hl _ hr _ _ | _, _, _, .logical hl _ hr _ _ =>
    hl.outlines.append (hr.outlines.behind (suffix_cons _ _))
  | _, _, _, .assign hl ht _ hv => by
    rw [target_routines ht]
    exact hl.outlines.append (hv.outlines.behind (suffix_cons _ _))
  | _, _, _, .call hc _ _ _ => hc.outlines.append (.nothing (suffix_cons_cons _ _ _))
  | _, _, _, .callWith hc _ _ ha _ =>
    hc.outlines.append ((exprs_outline ha).within (suffix_cons _ _))
  | _, _, _, .member ho _ _ _ => ho.outlines.before (suffix_cons_cons _ _ _)
  | _, _, _, .index ho _ _ hk _ => ho.outlines.append (hk.outlines.within (suffix_cons _ _))
  | _, _, _, .group _ hx _ => hx.outlines.within (suffix_cons _ _)
  | _, _, _, .array _ hi _ => (items_outline hi).within (suffix_cons _ _)
  | _, _, _, .object _ he _ => (entries_outline he).within (suffix_cons _ _)
  | _, _, _, .lambda hp _ _ hb _ =>
    .routine ((statements_outline hb).before (suffix_cons _ _)) hp.after.tail.tail rfl
  | _, _, _, .lambdaReturning hp _ _ hv _ =>
    .routine (hv.outlines.append (.nothing (suffix_refl _))) hp.after.tail rfl

theorem exprs_outline : ∀ {ts rest : List Token} {es : List Expr}, Commas Expression ts es rest →
    Outlines ts (exprsRoutines es) rest
  | _, _, _, .one h => h.outlines.append (.nothing (suffix_refl _))
  | _, _, _, .more h _ hs => h.outlines.append ((exprs_outline hs).behind (suffix_cons _ _))

theorem items_outline : ∀ {ts rest : List Token} {es : List Expr},
    LooseCommas Expression ts es rest → Outlines ts (exprsRoutines es) rest
  | _, _, _, .none => .nothing (suffix_refl _)
  | _, _, _, .one h => h.outlines.append (.nothing (suffix_refl _))
  | _, _, _, .more h _ hs => h.outlines.append ((items_outline hs).behind (suffix_cons _ _))

theorem entries_outline : ∀ {ts rest : List Token} {es : List Entry},
    LooseCommas ObjectEntry ts es rest → Outlines ts (entriesRoutines es) rest
  | _, _, _, .none => .nothing (suffix_refl _)
  | _, _, _, .one (.mk _ _ h) =>
    (h.outlines.behind (suffix_cons_cons _ _ _)).append (.nothing (suffix_refl _))
  | _, _, _, .more (.mk _ _ h) _ hs => (h.outlines.behind (suffix_cons_cons _ _ _)).append
      ((entries_outline hs).behind (suffix_cons _ _))

theorem NamedRoutine.outlines : ∀ {ts rest : List Token} {r : Routine}, NamedRoutine ts r rest →
    Outlines ts [r] rest
  | _, _, _, .mk _ hp _ hb _ => .routine ((statements_outline hb).before (suffix_cons _ _))
      (.of_suffix hp.after.tail.suffix) rfl

theorem methods_outline : ∀ {ts rest : List Token} {rs : List Routine},
    Sequence Method ts rs rest → Outlines ts rs rest
  | _, _, _, .nil => .nothing (suffix_refl _)
  | _, _, _, .cons (.plain h) hs => h.outlines.append (methods_outline hs)
  | _, _, _, .cons (.withWord _ h) hs =>
    (h.outlines.behind (suffix_cons _ _)).append (methods_outline hs)

theorem LoopStart.outlines : ∀ {ts rest : List Token} {init : Option Stmt},
    LoopStart ts init rest → Outlines ts (branchRoutines init) rest
  | _, _, _, .none _ => .nothing (suffix_cons _ _)
  | _, _, _, .declaration h => h.outlines
  | _, _, _, .expression h _ => h.outlines.before (suffix_cons _ _)

theorem Clause.outlines : ∀ {ts rest : List Token} {e : Option Expr}, Clause ts e rest →
    Outlines ts (clauseRoutines e) rest
  | _, _, _, .none => .nothing (suffix_refl _)
  | _, _, _, .some h => h.outlines

theorem Statement.outlines : ∀ {ts rest : List Token} {s : Stmt}, Statement ts s rest →
    Outlines ts s.routines rest
  | _, _, _, .expression _ h ht => h.outlines.before ht.suffix
  | _, _, _, .declare _ _ ht => .nothing (ht.suffix.trans (suffix_cons_cons _ _ _))
  | _, _, _, .declareInit _ _ _ he ht => (he.outlines.before ht.suffix).behind
      ((suffix_cons _ _).trans (suffix_cons_cons _ _ _))
  | _, _, _, .block _ hs _ => (statements_outline hs).within (suffix_cons _ _)
  | _, _, _, .conditional _ _ ht _ hy _ _ => (ht.outlines.within (suffix_cons_cons _ _ _)).append
      (hy.outlines.append (.nothing (suffix_refl _)))
  | _, _, _, .conditionalElse _ _ ht _ hy _ _ hn _ =>
    (ht.outlines.within (suffix_cons_cons _ _ _)).append
      (hy.outlines.append (hn.outlines.behind (suffix_cons _ _)))
  | _, _, _, .whileLoop _ _ ht _ hb _ =>
    (ht.outlines.within (suffix_cons_cons _ _ _)).append hb.outlines
  | _, _, _, .forLoop _ _ hi ht _ hs _ hb _ => (hi.outlines.behind (suffix_cons_cons _ _ _)).append
      ((ht.outlines.before (suffix_cons _ _)).append
        ((hs.outlines.before (suffix_cons _ _)).append hb.outlines))
  | _, _, _, .foreachLoop _ _ hx hi _ hb _ =>
    (hi.outlines.within (hx.after.suffix.trans (suffix_cons_cons _ _ _))).append hb.outlines
  | _, _, _, .function _ h => h.outlines.behind (suffix_cons _ _)
  | _, _, _, .classDef _ _ _ hm _ =>
    (methods_outline hm).within ((suffix_cons _ _).trans (suffix_cons_cons _ _ _))
  | _, _, _, .returnNothing _ ht | _, _, _, .breakStmt _ ht | _, _, _, .continueStmt _ ht =>
    .nothing (ht.suffix.trans (suffix_cons _ _))
  | _, _, _, .returnValue _ hv ht => (hv.outlines.before ht.suffix).behind (suffix_cons _ _)

theorem statements_outline : ∀ {ts rest : List Token} {ss : List Stmt},
    Sequence Statement ts ss rest → Outlines ts (stmtsRoutines ss) rest
  | _, _, _, .nil => .nothing (suffix_refl _)
  | _, _, _, .cons h hs => h.outlines.append (statements_outline hs)

end

end

end Grammar

open Grammar

/-! ## The routines of a text -/

/-- All routines of a program, those in the bodies of others included, stand in its text one behind
the other. -/
theorem exists_outline {source : String} {p : Program} (h : parseSource source = .ok p) :
    ∃ all, Outline (stmtsRoutines p.statements) all ∧
      all.Pairwise fun r r' => r.position.Before r'.position := by
  obtain ⟨read, all, hread, hall, hpositions⟩ := statements_outline (parse_eq_ok_iff.mp h).2
  rw [List.append_nil] at hread
  refine ⟨all, hall, ?_⟩
  have hscan : ((textTokens (scan source)).map Token.position).Pairwise Position.Before :=
    List.pairwise_map.mpr ((scan_before source).sublist (List.takeWhile_sublist _))
  rw [hread] at hscan
  exact List.pairwise_map.mp (hscan.sublist hpositions)

/-- Two routines of a text that have the same position are the same. -/
theorem Program.HasRoutine.eq_of_position {source : String} {p : Program}
    (h : parseSource source = .ok p) {r r' : Routine} (hr : p.HasRoutine r)
    (hr' : p.HasRoutine r') (hposition : r.position = r'.position) : r = r' := by
  obtain ⟨all, hall, hbefore⟩ := exists_outline h
  have hdistinct : (all.map Routine.position).Nodup :=
    List.pairwise_map.mpr (hbefore.imp Position.Before.ne)
  exact List.inj_on_of_nodup_map hdistinct (hr.mem_outline hall) (hr'.mem_outline hall) hposition

end Scriptlet
