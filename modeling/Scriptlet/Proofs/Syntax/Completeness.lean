import Scriptlet.Proofs.Syntax.Steps

/-!
# The parser accepts all of the grammar

What the grammar derives, the parser reads (`Reads`), as long as its bound
exceeds the number of tokens (`RulesComplete`) and what follows does not belong to
the phrase (`Closes`). The two loops that build an expression from the left are
followed along the left spine of the tree: before the tokens of a call the parser
does what its loop does after the callee (`Leads.accesses`), and before those of an
infix expression what its loop does after the left operand (`Leads.climb`).

A lambda is told from a group by looking ahead to its arrow. Nothing that the
grammar allows after a group is an arrow, so the two never meet (`startsLambda_group`).
-/

namespace Scriptlet

/-- Whether the expression is neither built by an operator nor an access. -/
def Expr.isPrimary : Expr → Bool
  | .assign .. | .binary .. | .logical .. | .unary .. | .call .. | .member .. | .index .. => false
  | _ => true

/-- The least level of the operators that would become part of the right operand. -/
def Expr.openLevel : Expr → Nat
  | .binary _ op _ _ => (Infix.binary op).rightLevel
  | .logical _ op _ _ => (Infix.logical op).rightLevel
  | _ => unaryLevel

/-- Only assignments are of level 0. -/
theorem one_le_level {e : Expr} (h : ∀ p target value, e ≠ .assign p target value) : 1 ≤ e.level := by
  cases e with
  | assign p target value => exact absurd rfl (h p target value)
  | binary => exact Infix.one_le_level _
  | logical => exact Infix.one_le_level _
  | _ => simp [Expr.level, unaryLevel, postfixLevel]

theorem openLevel_of_unaryLevel_le {e : Expr} (h : unaryLevel ≤ e.level) : e.openLevel = unaryLevel := by
  cases e with
  | binary => exact absurd h (Nat.not_le_of_lt (Infix.level_lt_unaryLevel _))
  | logical => exact absurd h (Nat.not_le_of_lt (Infix.level_lt_unaryLevel _))
  | _ => rfl

/-- An operator ends an expression that it may take as its left operand. -/
theorem level_lt_openLevel {op : Infix} {l : Expr} (h : op.leftLevel ≤ l.level) :
    op.level < l.openLevel := by
  cases l with
  | binary => exact (Infix.level_lt_rightLevel_iff _ _).mpr h
  | logical => exact (Infix.level_lt_rightLevel_iff _ _).mpr h
  | _ => exact Infix.level_lt_unaryLevel _

namespace Grammar

/-- What follows neither continues an expression of level `level` nor makes it the parameters of a
lambda. -/
structure Closes (level : Nat) (rest : List Token) : Prop where
  stops : Stops level rest
  arrow : Next (· ≠ .symbol .arrow) rest

theorem Closes.mono {level level' : Nat} {rest : List Token} (h : Closes level rest)
    (hl : level ≤ level') : Closes level' rest := ⟨h.stops.mono hl, h.arrow⟩

theorem closes_of_next {level : Nat} {P : TokenKind → Prop} {rest : List Token} (h : Next P rest)
    (hP : ∀ k, P k → k.continues level = false ∧ k ≠ .symbol .arrow) : Closes level rest :=
  ⟨fun t ht => (hP _ (h t ht)).1, fun t ht => (hP _ (h t ht)).2⟩

/-- The symbols that end every expression. -/
def closers : List Symbol := [.comma, .semicolon, .rightParen, .rightBracket, .rightBrace]

theorem closes_symbol {rest : List Token} {k : Symbol} (h : Next (· = .symbol k) rest)
    (hk : k ∈ closers) : Closes 0 rest := by
  have hall : ∀ k ∈ closers, (TokenKind.symbol k).continues 0 = false ∧
      TokenKind.symbol k ≠ .symbol .arrow := by decide
  refine closes_of_next h fun k' hk' => ?_
  rw [hk']
  exact hall k hk

theorem closes_listed {rest : List Token} {close : Symbol} (hc : close ∈ closers)
    (h : Next (fun k => k = .symbol .comma ∨ k = .symbol close) rest) : Closes 0 rest := by
  cases rest with
  | nil => exact ⟨next_nil, next_nil⟩
  | cons t rest =>
    rcases next_cons.mp h with ht | ht
    · exact closes_symbol (next_cons.mpr ht) (by decide)
    · exact closes_symbol (next_cons.mpr ht) hc

theorem closes_terminator {ts rest : List Token} (h : Terminator ts rest) : Closes 0 ts := by
  cases h with
  | semicolon ht => exact closes_symbol (next_cons.mpr ht) (by decide)
  | brace ht => exact closes_symbol (next_cons.mpr ht) (by decide)
  | finish => exact ⟨next_nil, next_nil⟩

/-- An infix operator ends an operand that it may take on its left. -/
theorem closes_infix {o : Token} {rest : List Token} {op : Infix} {level : Nat}
    (ho : Infix.ofKind? o.kind = some op) (hl : op.level < level) : Closes level (o :: rest) := by
  have h₁ := op.one_le_level
  have hn : Next (Infix.ofKind? · = some op) (o :: rest) := next_cons.mpr ho
  refine closes_of_next hn fun k hk => ?_
  refine ⟨TokenKind.continues_eq_false_iff.mpr ⟨⟨?_, ?_, ?_⟩, fun h₀ => by omega, fun op' ho' => ?_⟩, ?_⟩
  case refine_4 =>
    rw [hk] at ho'
    cases ho'
    exact hl
  all_goals
    rintro rfl
    cases hk

/-- An expression of level 9 does not start with a unary operator. -/
theorem Expression.not_unary : ∀ {ts rest : List Token} {e : Expr}, Expression ts e rest →
    postfixLevel ≤ e.level → Next (UnaryOp.ofKind? · = none) ts
  | _, _, _, .unary .., hl | _, _, _, .assign .., hl => absurd hl (by simp [Expr.level]; decide)
  | _, _, _, .binary .., hl | _, _, _, .logical .., hl =>
    absurd (Nat.le_trans (Nat.le_succ _) hl) (Nat.not_le_of_lt (Infix.level_lt_unaryLevel _))
  | _, _, _, .call h hl _ _, _ | _, _, _, .callWith h hl _ _ _, _ | _, _, _, .member h hl _ _, _
  | _, _, _, .index h hl _ _ _, _ => h.not_unary hl
  | _, _, _, .integer h _, _ | _, _, _, .float h _, _ | _, _, _, .string h, _
  | _, _, _, .trueWord h, _ | _, _, _, .falseWord h, _ | _, _, _, .null h, _
  | _, _, _, .undefined h, _ | _, _, _, .identifier h, _ | _, _, _, .group h _ _, _
  | _, _, _, .array h _ _, _ | _, _, _, .object h _ _, _ => by
    rw [next_cons, h]
    rfl
  | _, _, _, .lambda h _ _ _ _, _ | _, _, _, .lambdaReturning h _ _ _ _, _ => by
    rw [next_cons, next_cons.mp h.head]
    rfl

/-! ## Lambdas and groups -/

/-- A name that nothing continues is the whole expression. -/
theorem Expression.rest_of_name : ∀ {ts rest : List Token} {e : Expr}, Expression ts e rest →
    Next (· = .identifier) ts → Next (·.continues 0 = false) ts.tail → rest = ts.tail
  | _, _, _, .identifier _, _, _ => rfl
  | _, _, _, .integer h _, hx, _ | _, _, _, .float h _, hx, _ | _, _, _, .string h, hx, _
  | _, _, _, .trueWord h, hx, _ | _, _, _, .falseWord h, hx, _ | _, _, _, .null h, hx, _
  | _, _, _, .undefined h, hx, _ | _, _, _, .group h _ _, hx, _ | _, _, _, .array h _ _, hx, _
  | _, _, _, .object h _ _, hx, _ => by
    rw [next_cons, h] at hx
    cases hx
  | _, _, _, .unary h _ _, hx, _ => by
    rw [next_cons.mp hx] at h
    cases h
  | _, _, _, .lambda h _ _ _ _, hx, _ | _, _, _, .lambdaReturning h _ _ _ _, hx, _ => by
    rw [next_cons, next_cons.mp h.head] at hx
    cases hx
  | _, _, _, .binary h ho _ _ _, hx, hc | _, _, _, .logical h ho _ _ _, hx, hc => by
    rw [← h.rest_of_name hx hc] at hc
    have := (TokenKind.continues_eq_false_iff.mp (next_cons.mp hc)).2.2 _ ho
    exact absurd this (Nat.not_lt_zero _)
  | _, _, _, .assign h _ hq _, hx, hc => by
    rw [← h.rest_of_name hx hc] at hc
    exact absurd hq ((TokenKind.continues_eq_false_iff.mp (next_cons.mp hc)).2.1 rfl)
  | _, _, _, .call h _ hl _, hx, hc | _, _, _, .callWith h _ hl _ _, hx, hc => by
    rw [← h.rest_of_name hx hc] at hc
    exact absurd hl (TokenKind.continues_eq_false_iff.mp (next_cons.mp hc)).1.1
  | _, _, _, .member h _ hd _, hx, hc => by
    rw [← h.rest_of_name hx hc] at hc
    exact absurd hd (TokenKind.continues_eq_false_iff.mp (next_cons.mp hc)).1.2.1
  | _, _, _, .index h _ hl _ _, hx, hc => by
    rw [← h.rest_of_name hx hc] at hc
    exact absurd hl (TokenKind.continues_eq_false_iff.mp (next_cons.mp hc)).1.2.2

theorem namesThenArrow_of_parameters {ts rest : List Token} {params : List String} {r a : Token}
    (h : Commas Parameter ts params (r :: a :: rest)) (hr : r.kind = .symbol .rightParen)
    (ha : a.kind = .symbol .arrow) : namesThenArrow ts = true := by
  generalize e : r :: a :: rest = end' at h
  induction h with
  | one h =>
    subst e
    obtain @⟨⟨_, _, _⟩, _, hx⟩ := h
    obtain ⟨_, _, _⟩ := r
    obtain ⟨_, _, _⟩ := a
    cases hx; cases hr; cases ha
    rfl
  | @more _ _ _ c _ _ h hc _ ih =>
    obtain @⟨⟨_, _, _⟩, _, hx⟩ := h
    obtain ⟨_, _, _⟩ := c
    cases hx; cases hc
    exact ih e

/-- The parameters of a lambda are seen as such. -/
theorem startsLambda_of_parameters {ts rest : List Token} {params : List String} {a : Token}
    (h : Parameters ts params (a :: rest)) (ha : a.kind = .symbol .arrow) : startsLambda ts = true := by
  cases h with
  | @none l r _ hl hr =>
    obtain ⟨_, _, _⟩ := l
    obtain ⟨_, _, _⟩ := r
    obtain ⟨_, _, _⟩ := a
    cases hl; cases hr; cases ha
    rfl
  | @some l r ts _ _ hl h hr =>
    have hn := namesThenArrow_of_parameters h hr ha
    obtain ⟨_, _, _⟩ := l
    cases hl
    unfold startsLambda
    split
    · rfl
    · rename_i h'
      cases h'
      exact hn
    · rename_i h' h''
      exact absurd rfl (h'' _ _ _)

/-- Names before an arrow are no expression before a closing parenthesis. -/
theorem not_namesThenArrow {ts rest : List Token} {inner : Expr} {r : Token}
    (h : Expression ts inner (r :: rest)) (hr : r.kind = .symbol .rightParen)
    (ha : Next (· ≠ .symbol .arrow) rest) : namesThenArrow ts = false := by
  unfold namesThenArrow
  split
  · cases h.rest_of_name (by simp) (by simp; decide)
    cases hr
  · cases h.rest_of_name (by simp) (by simp; decide)
    exact absurd rfl (next_cons.mp ha)
  · rfl

/-- A group is not taken for the parameters of a lambda. -/
theorem startsLambda_group {l r : Token} {ts rest : List Token} {inner : Expr}
    (h : Expression ts inner (r :: rest)) (hr : r.kind = .symbol .rightParen)
    (ha : Next (· ≠ .symbol .arrow) rest) : startsLambda (l :: ts) = false := by
  unfold startsLambda
  split
  · rename_i e
    cases e
    have := next_cons.mp h.starts
    cases this
  · rename_i e
    cases e
    exact not_namesThenArrow h hr ha
  · rfl

end Grammar

namespace Parser

open Grammar

theorem Reads.parameters {ts rest : List Token} {params : List String} {m : Nat}
    (h : Parameters ts params rest) (hm : ts.length < m) : Reads (parameters m) ts params rest := by
  unfold Parser.parameters
  simp only [pure_bind]
  cases h with
  | none hl hr =>
    exact (Reads.expectSymbol hl).bind <| (Reads.check_true hr).bind <| (Reads.expectSymbol hr).bind .pure
  | @some l r us _ _ hl h hr =>
    have hp : ∀ us x vs, Parameter us x vs →
        Reads (do return (← Parser.expectName "parameter name").lexeme) us x vs ∧
          vs.length < us.length := by
      rintro us x vs ⟨hx⟩
      exact ⟨(Reads.expect hx).bind .pure, Nat.lt_succ_self _⟩
    have hn : Next (· ≠ .symbol .rightParen) us := by
      cases h with
      | one h => obtain ⟨hx⟩ := h; simp [hx]
      | more h => obtain ⟨hx⟩ := h; simp [hx]
    rw [List.length_cons] at hm
    refine (Reads.expectSymbol hl).bind ((Reads.check_false (by simp) hn).bind ?_)
    refine (Reads.commaList .rightParen (by decide) (fun us x vs h _ _ => hp us x vs h) h
      (next_cons.mpr hr) (Nat.le_refl _) (by omega)).bind ?_
    exact (Reads.expectSymbol hr).bind .pure

/-- Before fewer than `n` tokens the parsers of the rules read what the grammar derives. -/
structure RulesComplete (n : Nat) (rules : Rules) : Prop where
  expression {ts rest : List Token} {e : Expr} : Expression ts e rest → ts.length < n →
    Closes 0 rest → Reads (rules .expression) ts e rest
  operand {ts rest : List Token} {e : Expr} {level : Nat} : Expression ts e rest → ts.length < n →
    1 ≤ level → level ≤ unaryLevel → level ≤ e.level → Closes level rest →
    Reads (rules (.operand level)) ts e rest
  unary {ts rest : List Token} {e : Expr} : Expression ts e rest → ts.length < n →
    unaryLevel ≤ e.level → Closes unaryLevel rest → Reads (rules .unary) ts e rest
  declaration {ts rest : List Token} {s : Stmt} : Statement ts s rest → ts.length < n →
    Reads (rules .declaration) ts s rest
  statement {ts rest : List Token} {s : Stmt} : Statement ts s rest → s.isDeclaration = false →
    ts.length < n → Reads (rules .statement) ts s rest

theorem next_ne_of_startsExpression {ts : List Token} {k : TokenKind}
    (h : Next (·.startsExpression = true) ts) (hk : k.startsExpression = false) : Next (· ≠ k) ts := by
  intro t ht e
  have := h t ht
  rw [e, hk] at this
  cases this

/-- A statement does not start with a closing brace. -/
theorem next_ne_rightBrace {ts rest : List Token} {s : Stmt} (h : Statement ts s rest) :
    Next (· ≠ .symbol .rightBrace) ts := by
  intro t ht e
  have := h.starts t ht
  rw [e] at this
  rcases this with h | h <;> cases h

theorem sequence_map_some {ts rest : List Token} {ss : List Stmt} (h : Sequence Statement ts ss rest) :
    Sequence (fun ts o rest => ∃ s, o = some s ∧ Statement ts s rest) ts (ss.map some) rest := by
  induction h with
  | nil => exact .nil
  | cons h _ ih => exact .cons ⟨_, rfl, h⟩ ih

section

variable {n : Nat} {rules : Rules} (hr : RulesComplete n rules) {ts rest : List Token}
include hr

/-! ## Expressions -/

theorem Reads.block {r : Token} {body : List Stmt} {m : Nat}
    (h : Sequence Statement ts body (r :: rest)) (hb : r.kind = .symbol .rightBrace)
    (hn : ts.length < n) (hm : ts.length < m) : Reads (block rules m) ts body rest := by
  have hitems : Reads (Parser.itemsToBrace (Parser.recovering (rules .declaration)) m) ts
      (body.map some) (r :: rest) := by
    refine Reads.itemsToBrace (n := n - 1) (fun us o vs h hu => ?_) (sequence_map_some h) hb (by omega) hm
    obtain ⟨s, rfl, hs⟩ := h
    exact ⟨(hr.declaration hs (by omega)).recovering, hs.after.length_lt, next_ne_rightBrace hs⟩
  have hend : Reads (do
      Parser.expectSymbol .rightBrace "after block"
      return (body.map some).filterMap id) (r :: rest) body rest := by
    rw [List.filterMap_map, Function.id_comp, List.filterMap_some]
    exact (Reads.expectSymbol hb).bind .pure
  intro s hs e
  unfold Parser.block
  rw [bind_apply]
  refine (hitems.step _ { s with blockDepth := s.blockDepth + 1 } hs e).trans ?_
  exact hend { s with rest := r :: rest } hs rfl

/-- An expression in a list that ends with `close`. -/
theorem Reads.listed {close : Symbol} (hc : close ∈ closers) (us : List Token) (e : Expr)
    (vs : List Token) (h : Expression us e vs) (hu : us.length < n)
    (hv : Next (fun k => k = .symbol .comma ∨ k = .symbol close) vs) :
    Reads (rules .expression) us e vs ∧ vs.length < us.length :=
  ⟨hr.expression h hu (closes_listed hc hv), h.after.length_lt⟩

theorem Reads.arguments {r : Token} {args : List Expr} {m : Nat}
    (h : Commas Expression ts args (r :: rest)) (hb : r.kind = .symbol .rightParen)
    (hn : ts.length < n) (hm : ts.length < m) : Reads (arguments rules m) ts args rest := by
  have hs : Next (·.startsExpression = true) ts := by
    cases h with
    | one h => exact h.starts
    | more h => exact h.starts
  unfold Parser.arguments
  simp only [pure_bind]
  refine (Reads.check_false (by simp) (next_ne_of_startsExpression hs rfl)).bind ?_
  refine (Reads.commaList (n := ts.length) .rightParen (by decide) ?_ h (next_cons.mpr hb)
    (Nat.le_refl _) hm).bind ((Reads.expectSymbol hb).bind .pure)
  exact fun us e vs h hu => Reads.listed hr (by decide) us e vs h (by omega)

omit hr in
theorem Reads.arguments_nil {r : Token} {m : Nat} (hb : r.kind = .symbol .rightParen) :
    Reads (Parser.arguments rules m) (r :: rest) [] rest := by
  unfold Parser.arguments
  simp only [pure_bind]
  exact (Reads.check_true hb).bind ((Reads.expectSymbol hb).bind .pure)

theorem Reads.entry {e : Entry} (h : ObjectEntry ts e rest) (hn : ts.length ≤ n)
    (hc : Closes 0 rest) : Reads (entry rules) ts e rest := by
  obtain ⟨hk, hcol, hv⟩ := h
  simp only [List.length_cons] at hn
  refine Reads.peek.bind ?_
  rw [if_pos (by simpa using hk)]
  refine Reads.advance.bind ((Reads.expectSymbol hcol).bind ?_)
  exact (hr.expression hv (by omega) hc).bind .pure

theorem Reads.lambda {l a b r : Token} {us : List Token} {params : List String} {body : List Stmt}
    (hp : Parameters (l :: ts) params (a :: b :: us)) (ha : a.kind = .symbol .arrow)
    (hb : b.kind = .symbol .leftBrace) (h : Sequence Statement us body (r :: rest))
    (hc : r.kind = .symbol .rightBrace) (hn : (l :: ts).length < n + 1) :
    Reads (lambda rules (n + 1)) (l :: ts)
      (.lambda l.position ⟨lambdaName, params, body, l.position⟩) rest := by
  have hlt := hp.after.length_lt
  simp only [List.length_cons] at hlt hn
  unfold Parser.lambda
  simp only [pure_bind]
  refine Reads.peek.bind ((Reads.parameters hp (by simp; omega)).bind ((Reads.expectSymbol ha).bind ?_))
  refine (Reads.accept_true hb).bind ?_
  exact (Reads.block hr h hc (by omega) (by omega)).bind .pure

theorem Reads.lambdaReturning {l a v : Token} {us : List Token} {params : List String} {value : Expr}
    (hp : Parameters (l :: ts) params (a :: v :: us)) (ha : a.kind = .symbol .arrow)
    (hv : v.kind ≠ .symbol .leftBrace) (h : Expression (v :: us) value rest) (hc : Closes 0 rest)
    (hn : (l :: ts).length < n + 1) :
    Reads (Parser.lambda rules (n + 1)) (l :: ts) (.lambda l.position
      ⟨lambdaName, params, [.returnStmt v.position (some value)], l.position⟩) rest := by
  obtain ⟨_, _, e, hpos⟩ := h.head
  cases e
  have hlt := hp.after.length_lt
  simp only [List.length_cons] at hlt hn
  unfold Parser.lambda
  simp only [pure_bind]
  refine Reads.peek.bind ((Reads.parameters hp (by simp; omega)).bind ((Reads.expectSymbol ha).bind ?_))
  refine (Reads.accept_false (by simp) (next_cons.mpr hv)).bind ?_
  rw [← hpos]
  exact (hr.expression h (by simp; omega) hc).bind .pure

/-- A literal, a name, a lambda, or an expression in brackets of some kind. -/
theorem Reads.primary {e : Expr} (h : Expression ts e rest) (hp : e.isPrimary = true)
    (hn : ts.length < n + 1) (ha : Next (· ≠ .symbol .arrow) rest) :
    Reads (primary rules (n + 1)) ts e rest := by
  unfold Parser.primary
  cases h with
  | unary | binary | logical | assign | call | callWith | member | index => cases hp
  | integer hk he | float hk he =>
    refine Reads.peek.bind ?_
    simp only [hk, he]
    exact Reads.advance.bind .pure
  | string hk | trueWord hk | falseWord hk | null hk | undefined hk | identifier hk =>
    refine Reads.peek.bind ?_
    simp only [hk]
    exact Reads.advance.bind .pure
  | group hl h hc =>
    rw [List.length_cons] at hn
    refine Reads.peek.bind ?_
    simp only [hl]
    refine Leads.get fun s hs => ?_
    rw [hs, startsLambda_group h hc ha]
    refine Reads.advance.bind ((hr.expression h (by omega) ?_).bind ((Reads.expectSymbol hc).bind .pure))
    exact closes_symbol (next_cons.mpr hc) (by decide)
  | array hl h hc =>
    rw [List.length_cons] at hn
    refine Reads.peek.bind ?_
    simp only [hl]
    refine Reads.advance.bind (Reads.bind ?_ ((Reads.expectSymbol hc).bind .pure))
    refine Reads.looseCommaList (by decide) (fun us e vs h hu hv => ?_) h hc (Nat.le_refl _) (by omega)
    have := Reads.listed hr (by decide) us e vs h (by omega) hv
    exact ⟨this.1, this.2, next_ne_of_startsExpression h.starts rfl⟩
  | object hl h hc =>
    rw [List.length_cons] at hn
    refine Reads.peek.bind ?_
    simp only [hl]
    refine Reads.advance.bind (Reads.bind ?_ ((Reads.expectSymbol hc).bind .pure))
    refine Reads.looseCommaList (by decide) (fun us e vs h hu hv => ?_) h hc (Nat.le_refl _) (by omega)
    refine ⟨Reads.entry hr h (by omega) (closes_listed (by decide) hv), h.after.length_lt, ?_⟩
    obtain ⟨hk, -, -⟩ := h
    rcases hk with hk | hk <;> simp [hk]
  | lambda hpar harr hb h hc =>
    refine Reads.peek.bind ?_
    simp only [next_cons.mp hpar.head]
    refine Leads.get fun s hs => ?_
    rw [hs, startsLambda_of_parameters hpar harr]
    exact Reads.lambda hr hpar harr hb h hc hn
  | lambdaReturning hpar harr hv h hst =>
    refine Reads.peek.bind ?_
    simp only [next_cons.mp hpar.head]
    refine Leads.get fun s hs => ?_
    rw [hs, startsLambda_of_parameters hpar harr]
    exact Reads.lambdaReturning hr hpar harr hv h ⟨hst, ha⟩ hn

omit hr in
/-- One more round of a loop uses one unit of what bounds it. -/
theorem Leads.round {α : Type} {first : Parser α} {loop loop' : Nat → Parser α}
    {ts us rest : List Token}
    (h : ∃ m, us.length < m ∧ m ≤ n + 1 ∧ Leads first ts (loop m) us)
    (hlt : rest.length < us.length)
    (hround : ∀ m, us.length ≤ m → m ≤ n → Leads (loop (m + 1)) us (loop' m) rest) :
    ∃ m, rest.length < m ∧ m ≤ n + 1 ∧ Leads first ts (loop' m) rest := by
  obtain ⟨m, hm, hmn, hlead⟩ := h
  obtain _ | m := m
  · omega
  exact ⟨m, by omega, by omega, hlead.trans (hround m (by omega) (by omega))⟩

/-- Along the left spine of calls and accesses: before the tokens of such an expression the parser does
what its loop does after it. -/
theorem Leads.accesses : ∀ {ts rest : List Token} {e : Expr}, Expression ts e rest →
    postfixLevel ≤ e.level → ts.length < n + 1 → Next (· ≠ .symbol .arrow) rest →
    ∃ m, rest.length < m ∧ m ≤ n + 1 ∧
      Leads (primary rules (n + 1) >>= accesses rules (n + 1)) ts (accesses rules m e) rest
  | _, _, _, .unary .., hl, _, _ | _, _, _, .assign .., hl, _, _ => absurd hl (by simp [Expr.level]; decide)
  | _, _, _, .binary .., hl, _, _ | _, _, _, .logical .., hl, _, _ =>
    absurd (Nat.le_trans (Nat.le_succ _) hl) (Nat.not_le_of_lt (Infix.level_lt_unaryLevel _))
  | _, _, _, .call h hl hp hc, _, hn, _ => by
    refine Leads.round (Leads.accesses h hl hn (by simp [hp]))
      (by simp only [List.length_cons]; omega) fun m _ _ => ?_
    obtain ⟨_, _, e, hpos⟩ := h.head
    cases e
    rw [← hpos]
    exact ((Reads.accept_true hp).step _).trans ((Reads.arguments_nil hc).step _)
  | _, _, _, .callWith h hl hp h' hc, _, hn, _ => by
    have hlt := (exprs_after h').length_lt
    rw [List.length_cons] at hlt
    refine Leads.round (Leads.accesses h hl hn (by simp [hp]))
      (by simp only [List.length_cons]; omega) fun m hm hmn => ?_
    obtain ⟨_, _, e, hpos⟩ := h.head
    cases e
    rw [List.length_cons] at hm
    rw [← hpos]
    refine ((Reads.accept_true hp).step _).trans ?_
    exact (Reads.arguments hr h' hc (by omega) (by omega)).step _
  | _, _, _, .member h hl hd hx, _, hn, _ => by
    refine Leads.round (Leads.accesses h hl hn (by simp [hd]))
      (by simp only [List.length_cons]; omega) fun m _ _ => ?_
    obtain ⟨_, _, e, hpos⟩ := h.head
    cases e
    rw [← hpos]
    refine ((Reads.accept_false (by simp) (by simp [hd])).step _).trans ?_
    exact ((Reads.accept_true hd).step _).trans ((Reads.expect hx).step _)
  | _, _, _, .index h hl hp h' hc, _, hn, _ => by
    have hlt := h'.after.length_lt
    rw [List.length_cons] at hlt
    refine Leads.round (Leads.accesses h hl hn (by simp [hp]))
      (by simp only [List.length_cons]; omega) fun m hm hmn => ?_
    obtain ⟨_, _, e, hpos⟩ := h.head
    cases e
    rw [List.length_cons] at hm
    rw [← hpos]
    refine ((Reads.accept_false (by simp) (by simp [hp])).step _).trans ?_
    refine ((Reads.accept_false (by simp) (by simp [hp])).step _).trans ?_
    refine ((Reads.accept_true hp).step _).trans ?_
    have hkey := hr.expression h' (by omega) (closes_symbol (next_cons.mpr hc) (by decide))
    exact (hkey.step _).trans ((Reads.expectSymbol hc).step _)
  | _, _, _, h@(.integer ..), _, hn, ha | _, _, _, h@(.float ..), _, hn, ha
  | _, _, _, h@(.string ..), _, hn, ha | _, _, _, h@(.trueWord ..), _, hn, ha
  | _, _, _, h@(.falseWord ..), _, hn, ha | _, _, _, h@(.null ..), _, hn, ha
  | _, _, _, h@(.undefined ..), _, hn, ha | _, _, _, h@(.identifier ..), _, hn, ha
  | _, _, _, h@(.group ..), _, hn, ha | _, _, _, h@(.array ..), _, hn, ha
  | _, _, _, h@(.object ..), _, hn, ha | _, _, _, h@(.lambda ..), _, hn, ha
  | _, _, _, h@(.lambdaReturning ..), _, hn, ha =>
    ⟨n + 1, Nat.lt_trans h.after.length_lt hn, Nat.le_refl _, (Reads.primary hr h rfl hn ha).step _⟩

omit hr in
/-- The loop of calls and accesses ends where none follows. -/
theorem Reads.accesses_end {m : Nat} {e : Expr} (hm : 0 < m) (h : Stops unaryLevel rest) :
    Reads (Parser.accesses rules m e) rest e rest := by
  obtain _ | m := m
  · omega
  have hs : ∀ k, k.continues unaryLevel = true → Next (· ≠ k) rest := fun k hk t ht e => by
    have := h t ht
    rw [e, hk] at this
    cases this
  refine (Reads.accept_false (by simp) (hs _ rfl)).bind ?_
  refine (Reads.accept_false (by simp) (hs _ rfl)).bind ?_
  exact (Reads.accept_false (by simp) (hs _ rfl)).bind .pure

theorem Reads.unary {e : Expr} (h : Expression ts e rest) (hl : unaryLevel ≤ e.level)
    (hn : ts.length < n + 1) (hc : Closes unaryLevel rest) : Reads (unary rules (n + 1)) ts e rest := by
  by_cases hp : postfixLevel ≤ e.level
  · obtain ⟨m, hm, -, hlead⟩ := Leads.accesses hr h hp hn hc.arrow
    refine Leads.peek fun t ht => ?_
    rw [ht.kind (h.not_unary hp) rfl]
    exact hlead.trans (Reads.accesses_end (by omega) hc.stops)
  · have hlt : e.level < postfixLevel := Nat.lt_of_not_le hp
    cases h with
    | @unary t ts _ op x hop h hx =>
      simp only [List.length_cons] at hn
      refine Reads.peek.bind ?_
      simp only [hop]
      exact Reads.advance.bind ((hr.unary h (by omega) hx hc).bind .pure)
    | binary | logical => exact absurd hl (Nat.not_le_of_lt (Infix.level_lt_unaryLevel _))
    | assign => exact absurd hl (by simp [Expr.level]; decide)
    | _ => exact absurd hlt (Nat.lt_irrefl _)

/-- One round of the loop of infix operators. -/
theorem Leads.climb_round {us : List Token} {o : Token} {op : Infix} {l r : Expr} {level m : Nat}
    (ho : Infix.ofKind? o.kind = some op) (hl : level ≤ op.level) (h : Expression us r rest)
    (hlr : op.rightLevel ≤ r.level) (hn : us.length < n) (hc : Closes op.rightLevel rest) :
    Leads (climb rules level (m + 1) l) (o :: us) (climb rules level m (op.join l r)) rest := by
  have hright := hr.operand h hn (Nat.le_trans op.one_le_level op.level_le_rightLevel)
    op.rightLevel_le_unaryLevel hlr hc
  refine (Reads.peek.step _).trans ?_
  simp only [ho, if_neg (Nat.not_lt_of_le hl)]
  exact (Reads.advance.step _).trans (hright.step _)

/-- Along the left spine of infix expressions: before the tokens of such an expression the parser does
what its loop does after it. -/
theorem Leads.climb {level : Nat} (h₁ : 1 ≤ level) {ts rest : List Token} {e : Expr}
    (h : Expression ts e rest) (hl : level ≤ e.level) (hn : ts.length < n + 1)
    (hc : Closes e.openLevel rest) : ∃ m, rest.length < m ∧ m ≤ n + 1 ∧
      Leads (operand rules (n + 1) level) ts (climb rules level m e) rest := by
  -- The right operand, with its operator, is one round of the loop after the left one.
  have round : ∀ {ts us : List Token} {o : Token} {op : Infix} {l r : Expr},
      Infix.ofKind? o.kind = some op → Expression us r rest → op.rightLevel ≤ r.level →
      level ≤ op.level → Closes op.rightLevel rest →
      (∃ m, (o :: us).length < m ∧ m ≤ n + 1 ∧
        Leads (Parser.operand rules (n + 1) level) ts (Parser.climb rules level m l) (o :: us)) →
      ∃ m, rest.length < m ∧ m ≤ n + 1 ∧
        Leads (Parser.operand rules (n + 1) level) ts (Parser.climb rules level m (op.join l r)) rest := by
    intro ts us o op l r ho h hlr hle hc hlead
    have hlt := h.after.length_lt
    refine Leads.round hlead (by rw [List.length_cons]; omega) fun m hm hmn => ?_
    rw [List.length_cons] at hm
    exact Leads.climb_round hr ho hle h hlr (by omega) hc
  by_cases hu : unaryLevel ≤ e.level
  · refine ⟨n + 1, Nat.lt_trans h.after.length_lt hn, Nat.le_refl _, (Reads.unary hr h hu hn ?_).step _⟩
    rwa [openLevel_of_unaryLevel_le hu] at hc
  · cases h with
    | @binary t o _ _ _ op l r h ho h' hll hlr =>
      have hle := (Infix.binary op).level_le_leftLevel
      obtain ⟨_, _, e, hpos⟩ := h.head
      cases e
      rw [← hpos]
      refine round ho h' hlr hl hc (Leads.climb h₁ h ?_ hn ?_)
      · exact Nat.le_trans hl (Nat.le_trans hle hll)
      · exact closes_infix ho (level_lt_openLevel hll)
    | @logical t o _ _ _ op l r h ho h' hll hlr =>
      have hle := (Infix.logical op).level_le_leftLevel
      obtain ⟨_, _, e, hpos⟩ := h.head
      cases e
      rw [← hpos]
      refine round ho h' hlr hl hc (Leads.climb h₁ h ?_ hn ?_)
      · exact Nat.le_trans hl (Nat.le_trans hle hll)
      · exact closes_infix ho (level_lt_openLevel hll)
    | assign => exact absurd hl (Nat.not_le_of_lt h₁)
    | _ => exact absurd (by simp [Expr.level, unaryLevel, postfixLevel]) hu

omit hr in
/-- The loop of infix operators ends where none of its level follows. -/
theorem Reads.climb_end {m level : Nat} {e : Expr} (hm : 0 < m) (h : Stops level rest) :
    Reads (Parser.climb rules level m e) rest e rest := by
  obtain _ | m := m
  · omega
  refine Leads.peek fun t ht => ?_
  split
  · rename_i op ho
    have hends := ht.kind h (by simp [TokenKind.continues]; rfl)
    rw [if_pos ((TokenKind.continues_eq_false_iff.mp hends).2.2 op ho)]
    exact Reads.pure
  · exact Reads.pure

theorem Reads.operand {e : Expr} {level : Nat} (h : Expression ts e rest) (h₁ : 1 ≤ level)
    (hl : level ≤ e.level) (h₈ : level ≤ unaryLevel) (hn : ts.length < n + 1) (hc : Closes level rest) :
    Reads (operand rules (n + 1) level) ts e rest := by
  have ho : level ≤ e.openLevel := by
    cases e with
    | binary => exact Nat.le_trans hl (Infix.level_le_rightLevel _)
    | logical => exact Nat.le_trans hl (Infix.level_le_rightLevel _)
    | _ => exact h₈
  obtain ⟨m, hm, -, hlead⟩ := Leads.climb hr h₁ h hl hn (hc.mono ho)
  exact hlead.trans (Reads.climb_end (by omega) hc.stops)

theorem Reads.expression {e : Expr} (h : Expression ts e rest) (hn : ts.length < n + 1)
    (hc : Closes 0 rest) : Reads (expression rules (n + 1)) ts e rest := by
  by_cases he : 1 ≤ e.level
  · refine (Reads.operand hr h (Nat.le_refl 1) he (by decide) hn (hc.mono (by omega))).bind ?_
    refine (Reads.check_false (by simp) fun t ht => ?_).bind .pure
    exact (TokenKind.continues_eq_false_iff.mp (hc.stops t ht)).2.1 rfl
  · cases h with
    | @assign t q _ us _ left value target h ht hq hv =>
      have hlt := h.after.length_lt
      simp only [List.length_cons] at hlt hn
      have hleft : 1 ≤ left.level := one_le_level fun p t v e => by
        subst e
        cases ht
      have hclose : Closes 1 (q :: us) := by
        refine closes_of_next (P := (· = .symbol .equal)) (next_cons.mpr hq) ?_
        rintro k rfl
        decide
      obtain ⟨_, _, e, hpos⟩ := h.head
      cases e
      refine (Reads.operand hr h (Nat.le_refl 1) hleft (by decide) (by simp; omega) hclose).bind ?_
      refine (Reads.check_true hq).bind (Reads.advance.bind ?_)
      refine (hr.expression hv (by omega) hc).bind ?_
      simp only [ht, hpos]
      exact Reads.pure
    | _ => exact absurd (one_le_level fun _ _ _ e => by cases e) he

/-! ## Statements -/

/-- An expression before the symbol `k`. -/
theorem Reads.before {k : Symbol} {t : Token} {e : Expr} (h : Expression ts e (t :: rest))
    (ht : t.kind = .symbol k) (hk : k ∈ closers) (hn : ts.length < n) :
    Reads (rules .expression) ts e (t :: rest) :=
  hr.expression h hn (closes_symbol (next_cons.mpr ht) hk)

theorem Reads.variableDeclaration {w : Token} {mode : Mode} {name : String} {init : Option Expr}
    {p : Position} (h : Statement (w :: ts) (.declare p mode name init) rest) (hn : ts.length ≤ n) :
    Reads (variableDeclaration rules w.position mode) ts (.declare p mode name init) rest := by
  unfold Parser.variableDeclaration
  simp only [pure_bind]
  cases h with
  | declare hw hx ht =>
    have hq : Next (· ≠ .symbol .equal) _ := fun t ht' =>
      (TokenKind.continues_eq_false_iff.mp ((closes_terminator ht).stops t ht')).2.1 rfl
    refine (Reads.expect hx).bind ((Reads.accept_false (by simp) hq).bind ?_)
    exact (Reads.expectTerminator ht).bind .pure
  | declareInit hw hx hq he ht =>
    simp only [List.length_cons] at hn
    refine (Reads.expect hx).bind ((Reads.accept_true hq).bind ?_)
    refine (hr.expression he (by omega) (closes_terminator ht)).bind ?_
    rw [if_neg (by simp)]
    exact (Reads.expectTerminator ht).bind .pure

theorem Reads.routine {r : Routine} {what : String} (h : NamedRoutine ts r rest)
    (hn : ts.length < n + 1) : Reads (routine rules (n + 1) what) ts r rest := by
  obtain ⟨hx, hp, hb, h, hc⟩ := h
  have hlt := hp.after.length_lt
  simp only [List.length_cons] at hn hlt
  refine (Reads.expect hx).bind ((Reads.parameters hp (by omega)).bind ((Reads.expectSymbol hb).bind ?_))
  exact (Reads.block hr h hc (by omega) (by omega)).bind .pure

theorem Reads.method {r : Routine} (h : Method ts r rest) (hn : ts.length < n + 1) :
    Reads (method rules (n + 1)) ts r rest := by
  cases h with
  | plain h =>
    refine (Reads.accept_false (by simp) ?_).bind (Reads.routine hr h hn)
    obtain ⟨hx, -⟩ := h
    simp [hx]
  | withWord hw h =>
    simp only [List.length_cons] at hn
    exact (Reads.accept_true hw).bind (Reads.routine hr h (by omega))

theorem Reads.loopStart {init : Option Stmt} (h : LoopStart ts init rest) (hn : ts.length < n) :
    Reads (loopStart rules) ts init rest := by
  cases h with
  | none ht =>
    refine Reads.peek.bind ?_
    simp only [ht]
    exact Reads.advance.bind .pure
  | @declaration ts rest p mode name init h =>
    obtain ⟨w, us, rfl, -⟩ := h.head
    have hw : w.kind = .keyword mode.word := by cases h <;> assumption
    simp only [List.length_cons] at hn
    have hread := Reads.variableDeclaration hr h (by omega)
    refine Reads.peek.bind ?_
    cases mode with
    | mutable =>
      simp only [hw, Mode.word]
      exact Reads.advance.bind (hread.bind .pure)
    | constant =>
      simp only [hw, Mode.word]
      exact Reads.advance.bind (hread.bind .pure)
  | @expression t q ts rest e h hq =>
    have hs := next_cons.mp h.starts
    refine Reads.peek.bind ?_
    dsimp only
    split <;> rename_i hk
    iterate 3
      rw [hk] at hs
      cases hs
    exact (Reads.before hr h hq (by decide) hn).bind ((Reads.expectSymbol hq).bind .pure)

theorem Reads.optionalBefore {close : Symbol} {t : Token} {e : Option Expr}
    (h : Clause ts e (t :: rest)) (ht : t.kind = .symbol close) (hc : close ∈ closers)
    (hn : ts.length < n) : Reads (optionalBefore rules close) ts e (t :: rest) := by
  cases h with
  | none => exact (Reads.check_true ht).bind .pure
  | some h =>
    have hall : ∀ k ∈ closers, (TokenKind.symbol k).startsExpression = false := by decide
    refine (Reads.check_false (by simp) (next_ne_of_startsExpression h.starts (hall close hc))).bind ?_
    exact (Reads.before hr h ht hc hn).bind .pure

theorem Reads.foreachLoop {p : Position} {us vs : List Token} {r : Token} {name : String} {items : Expr}
    {body : Stmt} {l : Token} (hl : l.kind = .symbol .leftParen) (hx : LoopVariable ts name us)
    (hitems : Expression us items (r :: vs)) (hc : r.kind = .symbol .rightParen)
    (hbody : Statement vs body rest) (hd : body.isDeclaration = false) (hn : ts.length < n) :
    Reads (foreachLoop rules p) (l :: ts) (.foreachLoop p name items body) rest := by
  have hus := hx.after.length_lt
  have hvs := hitems.after.length_lt
  rw [List.length_cons] at hvs
  have htail : Reads (do
      let items ← rules .expression
      Parser.expectSymbol .rightParen "after foreach iterable"
      return Stmt.foreachLoop p name items (← rules .statement)) us
      (.foreachLoop p name items body) rest := by
    refine (Reads.before hr hitems hc (by decide) (by omega)).bind ((Reads.expectSymbol hc).bind ?_)
    exact (hr.statement hbody hd (by omega)).bind .pure
  have hsep : ∀ {c : Token} {us : List Token} {q : Parser Stmt} {s : Stmt}, Separates c →
      Reads q us s rest → Reads (do
        let t ← Parser.peek
        if t.kind = .identifier && t.lexeme = "in" then
          let _ ← Parser.advance
        else
          Parser.expectSymbol .colon "after loop variable"
        q) (c :: us) s rest := by
    intro c us q s hc hq
    refine Reads.peek.bind ?_
    rcases hc with hc | hc
    · simp only [hc]
      exact (Reads.expectSymbol hc).bind hq
    · simp only [hc]
      exact Reads.advance.bind hq
  refine (Reads.expectSymbol hl).bind ?_
  cases hx with
  | plain hx hc =>
    refine (Reads.accept_false (by simp) (by simp [hx])).bind ((Reads.expect hx).bind ?_)
    exact hsep hc htail
  | declared hw hx hc =>
    refine (Reads.accept_true hw).bind ((Reads.expect hx).bind ?_)
    exact hsep hc htail

omit hr in
theorem Reads.returnStatement_nil {p : Position} (h : Terminator ts rest) :
    Reads (Parser.returnStatement rules p) ts (.returnStmt p none) rest := by
  have hend := h
  unfold Parser.returnStatement
  simp only [pure_bind]
  cases h with
  | semicolon ht =>
    refine (Reads.check_true ht).bind ((Reads.check_false (by simp) (by simp [ht])).bind ?_)
    exact Reads.atEnd.bind ((Reads.expectTerminator hend).bind .pure)
  | brace ht =>
    refine (Reads.check_false (by simp) (by simp [ht])).bind ((Reads.check_true ht).bind ?_)
    exact Reads.atEnd.bind ((Reads.expectTerminator hend).bind .pure)
  | finish =>
    refine (Reads.check_false (by simp) next_nil).bind ((Reads.check_false (by simp) next_nil).bind ?_)
    exact Reads.atEnd.bind ((Reads.expectTerminator hend).bind .pure)

theorem Reads.returnStatement {p : Position} {us : List Token} {value : Expr}
    (h : Expression ts value us) (ht : Terminator us rest) (hn : ts.length < n) :
    Reads (returnStatement rules p) ts (.returnStmt p (some value)) rest := by
  have hs := h.starts
  have hne : ts.isEmpty = false := by
    obtain ⟨t, us, rfl, -⟩ := h.head
    rfl
  unfold Parser.returnStatement
  simp only [pure_bind]
  refine (Reads.check_false (by simp) (next_ne_of_startsExpression hs rfl)).bind ?_
  refine (Reads.check_false (by simp) (next_ne_of_startsExpression hs rfl)).bind (Reads.atEnd.bind ?_)
  rw [hne]
  refine (hr.expression h hn (closes_terminator ht)).bind ?_
  exact (Reads.expectTerminator ht).bind .pure

theorem Reads.statement {s : Stmt} (h : Statement ts s rest) (hd : s.isDeclaration = false)
    (hn : ts.length < n + 1) : Reads (statement rules (n + 1)) ts s rest := by
  cases h with
  | declare | declareInit | function | classDef => cases hd
  | @expression t us vs _ e hb h ht =>
    have hs := next_cons.mp h.starts
    refine Reads.peek.bind ?_
    dsimp only
    split <;> rename_i hk
    iterate 7
      rw [hk] at hs
      cases hs
    · exact absurd hk hb
    · exact (Reads.expression hr h hn (closes_terminator ht)).bind ((Reads.expectTerminator ht).bind .pure)
  | block hl h hc =>
    simp only [List.length_cons] at hn
    refine Reads.peek.bind ?_
    simp only [hl]
    exact Reads.advance.bind ((Reads.block hr h hc (by omega) (by omega)).bind .pure)
  | conditional hw hl htest hc hyes dyes helse =>
    have hlt := htest.after.length_lt
    simp only [List.length_cons] at hn hlt
    refine Reads.peek.bind ?_
    simp only [hw]
    unfold Parser.conditional
    simp only [pure_bind]
    refine Reads.advance.bind ((Reads.expectSymbol hl).bind ?_)
    refine (Reads.before hr htest hc (by decide) (by omega)).bind ((Reads.expectSymbol hc).bind ?_)
    refine (hr.statement hyes dyes (by omega)).bind ?_
    exact (Reads.accept_false (by simp) helse).bind .pure
  | conditionalElse hw hl htest hc hyes dyes helse hno dno =>
    have hlt := htest.after.length_lt
    have hlt' := hyes.after.length_lt
    simp only [List.length_cons] at hn hlt hlt'
    refine Reads.peek.bind ?_
    simp only [hw]
    unfold Parser.conditional
    simp only [pure_bind]
    refine Reads.advance.bind ((Reads.expectSymbol hl).bind ?_)
    refine (Reads.before hr htest hc (by decide) (by omega)).bind ((Reads.expectSymbol hc).bind ?_)
    refine (hr.statement hyes dyes (by omega)).bind ((Reads.accept_true helse).bind ?_)
    exact (hr.statement hno dno (by omega)).bind .pure
  | whileLoop hw hl htest hc hbody dbody =>
    have hlt := htest.after.length_lt
    simp only [List.length_cons] at hn hlt
    refine Reads.peek.bind ?_
    simp only [hw]
    refine Reads.advance.bind ((Reads.expectSymbol hl).bind ?_)
    refine (Reads.before hr htest hc (by decide) (by omega)).bind ((Reads.expectSymbol hc).bind ?_)
    exact (hr.statement hbody dbody (by omega)).bind .pure
  | forLoop hw hl hinit htest hq hstep hc hbody dbody =>
    have hlt := hinit.suffix.length_le
    have hlt₁ := htest.suffix.length_le
    have hlt₂ := hstep.suffix.length_le
    simp only [List.length_cons] at hn hlt hlt₁ hlt₂
    refine Reads.peek.bind ?_
    simp only [hw]
    refine Reads.advance.bind ((Reads.expectSymbol hl).bind ?_)
    refine (Reads.loopStart hr hinit (by omega)).bind ?_
    refine (Reads.optionalBefore hr htest hq (by decide) (by omega)).bind ((Reads.expectSymbol hq).bind ?_)
    refine (Reads.optionalBefore hr hstep hc (by decide) (by omega)).bind ((Reads.expectSymbol hc).bind ?_)
    exact (hr.statement hbody dbody (by omega)).bind .pure
  | foreachLoop hw hl hx hitems hc hbody dbody =>
    simp only [List.length_cons] at hn
    refine Reads.peek.bind ?_
    simp only [hw]
    exact Reads.advance.bind (Reads.foreachLoop hr hl hx hitems hc hbody dbody (by omega))
  | returnNothing hw ht =>
    refine Reads.peek.bind ?_
    simp only [hw]
    exact Reads.advance.bind (Reads.returnStatement_nil ht)
  | returnValue hw h ht =>
    simp only [List.length_cons] at hn
    refine Reads.peek.bind ?_
    simp only [hw]
    exact Reads.advance.bind (Reads.returnStatement hr h ht (by omega))
  | breakStmt hw ht | continueStmt hw ht =>
    refine Reads.peek.bind ?_
    simp only [hw]
    exact Reads.advance.bind ((Reads.expectTerminator ht).bind .pure)

theorem Reads.declaration {s : Stmt} (h : Statement ts s rest) (hn : ts.length < n + 1) :
    Reads (declaration rules (n + 1)) ts s rest := by
  cases hd : s.isDeclaration with
  | false =>
    obtain ⟨t, us, rfl, -⟩ := h.head
    have ht := h.isDeclaration_eq
    rw [hd] at ht
    refine Reads.peek.bind ?_
    dsimp only
    split <;> rename_i hk
    iterate 4
      rw [hk] at ht
      cases ht
    exact Reads.statement hr h hd hn
  | true =>
    cases h with
    | function hw h =>
      simp only [List.length_cons] at hn
      refine Reads.peek.bind ?_
      simp only [hw]
      exact Reads.advance.bind ((Reads.routine hr h (by omega)).bind .pure)
    | classDef hw hx hl h hc =>
      simp only [List.length_cons] at hn
      refine Reads.peek.bind ?_
      simp only [hw]
      refine Reads.advance.bind ((Reads.expect hx).bind ((Reads.expectSymbol hl).bind ?_))
      refine Reads.bind (Reads.itemsToBrace (fun us m vs h hu => ?_) h hc (Nat.le_refl _) (by omega))
        ((Reads.expectSymbol hc).bind .pure)
      refine ⟨Reads.method hr h (by omega), h.after.length_lt, ?_⟩
      cases h with
      | plain h => obtain ⟨hx, -⟩ := h; simp [hx]
      | withWord hw => simp [hw]
    | @declare w x us rest hw hx ht =>
      have hread := Reads.variableDeclaration hr (.declare hw hx ht)
        (Nat.le_of_succ_le (Nat.le_of_lt_succ hn))
      refine Reads.peek.bind ?_
      simp only [hw]
      exact Reads.advance.bind hread
    | @declareInit w x q us vs rest mode e hw hx hq he ht =>
      have hread := Reads.variableDeclaration hr (.declareInit hw hx hq he ht)
        (Nat.le_of_succ_le (Nat.le_of_lt_succ hn))
      refine Reads.peek.bind ?_
      cases mode <;> simp only [hw, Mode.word] <;> exact Reads.advance.bind hread
    | _ => cases hd

end

/-- The parsers of all rules read what the grammar derives. -/
theorem rulesComplete_parse (n : Nat) : RulesComplete n (fun rule s => Rule.parse n rule s) := by
  induction n with
  | zero =>
    exact ⟨fun _ h => absurd h (Nat.not_lt_zero _), fun _ h => absurd h (Nat.not_lt_zero _),
      fun _ h => absurd h (Nat.not_lt_zero _), fun _ h => absurd h (Nat.not_lt_zero _),
      fun _ _ h => absurd h (Nat.not_lt_zero _)⟩
  | succ n ih =>
    exact ⟨fun h hn hc => Reads.expression ih h hn hc,
      fun h hn h₁ h₈ hl hc => Reads.operand ih h h₁ hl h₈ hn hc,
      fun h hn hl hc => Reads.unary ih h hl hn hc,
      fun h hn => Reads.declaration ih h hn, fun h hd hn => Reads.statement ih h hd hn⟩

theorem Reads.program {n m : Nat} {rules : Rules} (hr : RulesComplete n rules) {ts : List Token}
    {ss : List Stmt} (h : Sequence Statement ts ss []) (hn : ts.length < n) (hm : ts.length < m) :
    Reads (program rules m) ts ss [] := by
  generalize e : [] = end' at h ⊢
  induction h generalizing m with
  | nil =>
    subst e
    obtain _ | m := m
    · omega
    exact Reads.atEnd.bind .pure
  | @cons ts us rest s ss h _ ih =>
    obtain _ | m := m
    · omega
    have hlt := h.after.length_lt
    have hne : ts.isEmpty = false := by
      obtain ⟨t, us, rfl, -⟩ := h.head
      rfl
    refine Reads.atEnd.bind ?_
    rw [hne]
    exact (hr.declaration h hn).recovering.bind ((ih (by omega) (by omega) e).bind .pure)

end Parser

end Scriptlet
