import Scriptlet.Proofs.Syntax.Printing
import Scriptlet.Proofs.Syntax.Programs

/-!
# Printing and reading back

The tokens of a well-formed tree derive it in the grammar, up to positions
(`Expr.derives`, `Stmt.derives`), by recursion on the tree. What a statement does
not decide alone is what comes after it: a conditional without `else` at its end
must not be followed by one. So the statements of a list are derived from the last
one to the first.

Since the parser accepts all of the grammar, a printed program is read back as it
was (`parse_print`).
-/

namespace Scriptlet

open Grammar

/-- The tokens `ts` say what the marks say, and `rest` follows. -/
def Spells : List Mark → List Token → List Token → Prop
  | [], ts, rest => ts = rest
  | m :: ms, ts, rest => ∃ t us, ts = t :: us ∧ m.Matches t ∧ Spells ms us rest

theorem spells_append {ms ms' : List Mark} {ts rest : List Token} :
    Spells (ms ++ ms') ts rest ↔ ∃ us, Spells ms ts us ∧ Spells ms' us rest := by
  induction ms generalizing ts with
  | nil => simp [Spells]
  | cons m ms ih =>
    simp only [List.cons_append, Spells, ih]
    constructor
    · rintro ⟨t, us, rfl, hm, vs, h, h'⟩
      exact ⟨vs, ⟨t, us, rfl, hm, h⟩, h'⟩
    · rintro ⟨vs, ⟨t, us, rfl, hm, h⟩, h'⟩
      exact ⟨t, us, rfl, hm, vs, h, h'⟩

theorem spells_of_forall₂ {ms : List Mark} {ts rest : List Token} (h : List.Forall₂ Mark.Matches ms ts) :
    Spells ms (ts ++ rest) rest := by
  induction h with
  | nil => rfl
  | cons hm _ ih => exact ⟨_, _, rfl, hm, ih⟩

theorem spells_bracketed {left right : Symbol} {ms : List Mark} {ts rest : List Token}
    (h : Spells (bracketed left right ms) ts rest) : ∃ l r us, ts = l :: us ∧ l.kind = .symbol left ∧
      Spells ms us (r :: rest) ∧ r.kind = .symbol right := by
  obtain ⟨l, us, rfl, hl, h⟩ := h
  obtain ⟨_, hms, r, _, rfl, hr, rfl⟩ := spells_append.mp h
  exact ⟨l, r, us, rfl, hl, hms, hr⟩

/-! ## Lists -/

section

variable {α β γ : Type} {Item : List Token → α → List Token → Prop} {pr : α → List Mark} {f : α → β}

/-- Items that say what the pieces say, each related to its piece. -/
theorem exists_commas {R : γ → α → Prop} {pr : γ → List Mark} {cs : List γ} (hne : cs ≠ [])
    {ts rest : List Token}
    (hi : ∀ c ∈ cs, ∀ ts rest, Spells (pr c) ts rest → ∃ a, Item ts a rest ∧ R c a)
    (h : Spells (separated (cs.map pr)) ts rest) :
    ∃ as, Commas Item ts as rest ∧ List.Forall₂ R cs as := by
  induction cs generalizing ts with
  | nil => exact absurd rfl hne
  | cons c cs ih =>
    cases cs with
    | nil =>
      obtain ⟨a, ha, hr⟩ := hi c List.mem_cons_self _ _ h
      exact ⟨[a], .one ha, .cons hr .nil⟩
    | cons d cs =>
      obtain ⟨us, hfirst, t, vs, rfl, ht, htail⟩ := spells_append.mp h
      obtain ⟨a, ha, hr⟩ := hi c List.mem_cons_self _ _ hfirst
      obtain ⟨as, has, hrs⟩ := ih (List.cons_ne_nil _ _)
        (fun x hx => hi x (List.mem_cons_of_mem _ hx)) htail
      exact ⟨a :: as, .more ha ht has, .cons hr hrs⟩

theorem Grammar.Commas.loose {ts rest : List Token} {as : List α} (h : Commas Item ts as rest) :
    LooseCommas Item ts as rest := by
  induction h with
  | one h => exact .one h
  | more h hc _ ih => exact .more h hc ih

theorem exists_looseCommas {R : γ → α → Prop} {pr : γ → List Mark} {cs : List γ}
    {ts rest : List Token}
    (hi : ∀ c ∈ cs, ∀ ts rest, Spells (pr c) ts rest → ∃ a, Item ts a rest ∧ R c a)
    (h : Spells (separated (cs.map pr)) ts rest) :
    ∃ as, LooseCommas Item ts as rest ∧ List.Forall₂ R cs as := by
  cases cs with
  | nil =>
    obtain rfl := h
    exact ⟨[], .none, .nil⟩
  | cons c cs =>
    obtain ⟨as, h, hrs⟩ := exists_commas (List.cons_ne_nil _ _) hi h
    exact ⟨as, h.loose, hrs⟩

theorem map_eq_of_forall₂ {as as' : List α} (h : List.Forall₂ (fun a a' => f a' = f a) as as') :
    as'.map f = as.map f := by
  rw [← List.forall₂_eq_eq_eq, List.forall₂_map_left_iff, List.forall₂_map_right_iff]
  exact h.flip

theorem commas_of_spells {as : List α} (hne : as ≠ []) {ts rest : List Token}
    (hi : ∀ a ∈ as, ∀ ts rest, Spells (pr a) ts rest → ∃ a', Item ts a' rest ∧ f a' = f a)
    (h : Spells (separated (as.map pr)) ts rest) :
    ∃ as', Commas Item ts as' rest ∧ as'.map f = as.map f := by
  obtain ⟨as', has, hrs⟩ := exists_commas (R := fun a a' => f a' = f a) hne hi h
  exact ⟨as', has, map_eq_of_forall₂ hrs⟩

theorem looseCommas_of_spells {as : List α} {ts rest : List Token}
    (hi : ∀ a ∈ as, ∀ ts rest, Spells (pr a) ts rest → ∃ a', Item ts a' rest ∧ f a' = f a)
    (h : Spells (separated (as.map pr)) ts rest) :
    ∃ as', LooseCommas Item ts as' rest ∧ as'.map f = as.map f := by
  obtain ⟨as', has, hrs⟩ := exists_looseCommas (R := fun a a' => f a' = f a) hi h
  exact ⟨as', has, map_eq_of_forall₂ hrs⟩

end

theorem printExprs_eq_map (es : List Expr) : printExprs es = es.map Expr.print := by
  induction es with
  | nil => rfl
  | cons e es ih => rw [printExprs, ih, List.map_cons]

theorem printEntries_eq_map (es : List Entry) : printEntries es = es.map Entry.print := by
  induction es with
  | nil => rfl
  | cons e es ih => rw [printEntries, ih, List.map_cons]

theorem bareExprs_eq_map (es : List Expr) : bareExprs es = es.map Expr.bare := by
  induction es with
  | nil => rfl
  | cons e es ih => rw [bareExprs, ih, List.map_cons]

theorem bareEntries_eq_map (es : List Entry) : bareEntries es = es.map Entry.bare := by
  induction es with
  | nil => rfl
  | cons e es ih => rw [bareEntries, ih, List.map_cons]

theorem parameters_of_spells {params : List String} {ts rest : List Token}
    (h : Spells (printParams params) ts rest) : Parameters ts params rest := by
  obtain ⟨l, r, us, rfl, hl, hps, hr⟩ := spells_bracketed h
  cases params with
  | nil =>
    obtain rfl := hps
    exact .none hl hr
  | cons x params =>
    have hi : ∀ a ∈ x :: params, ∀ ts rest, Spells [.name a] ts rest →
        ∃ a', Parameter ts a' rest ∧ id a' = id a := by
      rintro a - ts rest ⟨t, us, rfl, ⟨hk, rfl⟩, rfl⟩
      exact ⟨_, .mk hk, rfl⟩
    obtain ⟨ps, hps, e⟩ := commas_of_spells (List.cons_ne_nil _ _) hi hps
    rw [List.map_id, List.map_id] at e
    subst e
    exact .some hl hps hr

/-! ## What does not depend on positions -/

theorem Expr.level_eq_of_bare {e e' : Expr} (h : e'.bare = e.bare) : e'.level = e.level := by
  have hl : ∀ e : Expr, e.bare.level = e.level := fun e => by cases e <;> rfl
  rw [← hl e', h, hl e]

theorem Stmt.isDeclaration_eq_of_bare {s s' : Stmt} (h : s'.bare = s.bare) :
    s'.isDeclaration = s.isDeclaration := by
  have hd : ∀ s : Stmt, s.bare.isDeclaration = s.isDeclaration := fun s => by cases s <;> rfl
  rw [← hd s', h, hd s]

theorem Infix.ofKind?_symbol (op : Infix) : Infix.ofKind? (.symbol op.symbol) = some op := by
  rcases op with op | op <;> cases op <;> rfl

theorem UnaryOp.ofKind?_symbol (op : UnaryOp) : UnaryOp.ofKind? (.symbol op.symbol) = some op := by
  cases op <;> rfl

/-! ## Derivations of phrases from those of their parts -/

/-- The tokens of the expression derive it, up to positions. -/
def Expr.Derives (e : Expr) : Prop :=
  ∀ ts rest, Spells e.print ts rest → ∃ e', Expression ts e' rest ∧ e'.bare = e.bare

/-- The tokens of the left side of an assignment derive an expression that can be assigned to. -/
def Target.Derives (x : Target) : Prop := ∀ ts rest, Spells x.print ts rest →
  ∃ e x', Expression ts e rest ∧ e.target? = some x' ∧ x'.bare = x.bare

/-- The tokens of the entry derive it, up to positions. -/
def Entry.Derives (e : Entry) : Prop :=
  ∀ ts rest, Spells e.print ts rest → ∃ e', ObjectEntry ts e' rest ∧ e'.bare = e.bare

/-- The tokens of the statement derive it, up to positions, if no `else` follows that a conditional
at its end would take. -/
def Stmt.Derives (s : Stmt) : Prop := ∀ ts rest, Spells s.print ts rest →
  (s.endsOpen = true → Next (· ≠ .keyword .elseWord) rest) →
  ∃ s', Statement ts s' rest ∧ s'.bare = s.bare

/-- The tokens of the statements derive them, up to positions, if no `else` follows. -/
def StmtsDerive (ss : List Stmt) : Prop := ∀ ts rest, Spells (printStmts ss) ts rest →
  Next (· ≠ .keyword .elseWord) rest →
  ∃ ss', Sequence Statement ts ss' rest ∧ bareStmts ss' = bareStmts ss

section

variable {p : Position} {ts rest : List Token}

theorem infix_of_spells {op : Infix} {l r : Expr} (hl : l.Derives) (hr : r.Derives)
    (hll : op.leftLevel ≤ l.level) (hlr : op.rightLevel ≤ r.level)
    (h : Spells (l.print ++ .symbol op.symbol :: r.print) ts rest) :
    ∃ l' r', Expression ts (op.join l' r') rest ∧ l'.bare = l.bare ∧ r'.bare = r.bare := by
  obtain ⟨us, h₁, o, vs, rfl, ho, h₂⟩ := spells_append.mp h
  obtain ⟨l', hl', el⟩ := hl _ _ h₁
  obtain ⟨r', hr', er⟩ := hr _ _ h₂
  rw [← Expr.level_eq_of_bare el] at hll
  rw [← Expr.level_eq_of_bare er] at hlr
  have hop : Infix.ofKind? o.kind = some op := by
    rw [ho]
    exact Infix.ofKind?_symbol op
  exact ⟨l', r', hl'.join hop hr' hll hlr, el, er⟩

theorem member_of_spells {owner : Expr} {x : String} (ho : owner.Derives)
    (hl : postfixLevel ≤ owner.level) (h : Spells (owner.print ++ [.symbol .dot, .name x]) ts rest) :
    ∃ p o, Expression ts (.member p o x) rest ∧ o.bare = owner.bare := by
  obtain ⟨us, h₁, d, _, rfl, hd, t, _, rfl, ⟨hk, rfl⟩, rfl⟩ := spells_append.mp h
  obtain ⟨o, ho, e⟩ := ho _ _ h₁
  obtain ⟨t', us, rfl, -⟩ := ho.head
  rw [← Expr.level_eq_of_bare e] at hl
  exact ⟨_, o, .member ho hl hd hk, e⟩

theorem index_of_spells {owner key : Expr} (ho : owner.Derives) (hk : key.Derives)
    (hl : postfixLevel ≤ owner.level)
    (h : Spells (owner.print ++ bracketed .leftBracket .rightBracket key.print) ts rest) :
    ∃ p o k, Expression ts (.index p o k) rest ∧ o.bare = owner.bare ∧ k.bare = key.bare := by
  obtain ⟨us, h₁, h₂⟩ := spells_append.mp h
  obtain ⟨l, r, vs, rfl, hleft, h₂, hright⟩ := spells_bracketed h₂
  obtain ⟨o, ho, eo⟩ := ho _ _ h₁
  obtain ⟨k, hk, ek⟩ := hk _ _ h₂
  obtain ⟨t', us, rfl, -⟩ := ho.head
  rw [← Expr.level_eq_of_bare eo] at hl
  exact ⟨_, o, k, .index ho hl hleft hk hright, eo, ek⟩

theorem Expr.Derives.call {callee : Expr} {args : List Expr} (hc : callee.Derives)
    (hl : postfixLevel ≤ callee.level) (ha : ∀ a ∈ args, a.Derives) :
    (Expr.call p callee args).Derives := by
  intro ts rest h
  rw [Expr.print, printExprs_eq_map] at h
  obtain ⟨us, h₁, h₂⟩ := spells_append.mp h
  obtain ⟨l, r, vs, rfl, hleft, h₂, hright⟩ := spells_bracketed h₂
  obtain ⟨c, hc, e⟩ := hc _ _ h₁
  obtain ⟨t', us, rfl, -⟩ := hc.head
  rw [← Expr.level_eq_of_bare e] at hl
  cases args with
  | nil =>
    obtain rfl := h₂
    exact ⟨_, .call hc hl hleft hright, by rw [Expr.bare, Expr.bare, e]⟩
  | cons a args =>
    obtain ⟨as, has, es⟩ := commas_of_spells (f := Expr.bare) (List.cons_ne_nil _ _) ha h₂
    refine ⟨_, .callWith hc hl hleft has hright, ?_⟩
    rw [Expr.bare, Expr.bare, e, bareExprs_eq_map, bareExprs_eq_map, es]

theorem Expr.Derives.array {items : List Expr} (hi : ∀ a ∈ items, a.Derives) :
    (Expr.array p items).Derives := by
  intro ts rest h
  rw [Expr.print, printExprs_eq_map] at h
  obtain ⟨l, r, vs, rfl, hleft, h, hright⟩ := spells_bracketed h
  obtain ⟨as, has, es⟩ := looseCommas_of_spells (f := Expr.bare) hi h
  refine ⟨_, .array hleft has hright, ?_⟩
  rw [Expr.bare, Expr.bare, bareExprs_eq_map, bareExprs_eq_map, es]

theorem Expr.Derives.object {entries : List Entry} (hi : ∀ a ∈ entries, a.Derives) :
    (Expr.object p entries).Derives := by
  intro ts rest h
  rw [Expr.print, printEntries_eq_map] at h
  obtain ⟨l, r, vs, rfl, hleft, h, hright⟩ := spells_bracketed h
  obtain ⟨as, has, es⟩ := looseCommas_of_spells (f := Entry.bare) hi h
  refine ⟨_, .object hleft has hright, ?_⟩
  rw [Expr.bare, Expr.bare, bareEntries_eq_map, bareEntries_eq_map, es]

theorem next_ne_else_of_symbol {t : Token} {k : Symbol} (ht : t.kind = .symbol k) :
    Next (· ≠ .keyword .elseWord) (t :: rest) := by simp [ht]

theorem block_of_spells {body : List Stmt} (hb : StmtsDerive body)
    (h : Spells (bracketed .leftBrace .rightBrace (printStmts body)) ts rest) :
    ∃ l r us body', ts = l :: us ∧ l.kind = .symbol .leftBrace ∧
      Sequence Statement us body' (r :: rest) ∧ r.kind = .symbol .rightBrace ∧
      bareStmts body' = bareStmts body := by
  obtain ⟨l, r, us, rfl, hl, h, hr⟩ := spells_bracketed h
  obtain ⟨body', hbody, e⟩ := hb _ _ h (next_ne_else_of_symbol hr)
  exact ⟨l, r, us, body', rfl, hl, hbody, hr, e⟩

theorem lambda_of_spells {r : Routine} (hb : StmtsDerive r.body) (hx : r.name = lambdaName)
    (h : Spells r.printLambda ts rest) :
    ∃ p r', Expression ts (.lambda p r') rest ∧ r'.bare = r.bare := by
  obtain ⟨x, params, body, p⟩ := r
  obtain rfl : x = lambdaName := hx
  obtain ⟨us, hps, a, vs, rfl, ha, h⟩ := spells_append.mp h
  obtain ⟨l, r, ws, body', rfl, hl, hbody, hr, e⟩ := block_of_spells hb h
  have hps := parameters_of_spells hps
  obtain ⟨t, ts, rfl, -⟩ := hps.after
  refine ⟨_, _, .lambda hps ha hl hbody hr, ?_⟩
  rw [Routine.bare, Routine.bare, e]

theorem routine_of_spells {r : Routine} (hb : StmtsDerive r.body) (h : Spells r.print ts rest) :
    ∃ r', NamedRoutine ts r' rest ∧ r'.bare = r.bare := by
  obtain ⟨x, params, body, p⟩ := r
  obtain ⟨t, us, rfl, ⟨hk, rfl⟩, h⟩ := h
  obtain ⟨vs, hps, h⟩ := spells_append.mp h
  obtain ⟨l, r, ws, body', rfl, hl, hbody, hr, e⟩ := block_of_spells hb h
  refine ⟨_, .mk hk (parameters_of_spells hps) hl hbody hr, ?_⟩
  rw [Routine.bare, Routine.bare, e]

theorem methods_of_spells {rs : List Routine} (hb : ∀ r ∈ rs, StmtsDerive r.body)
    (h : Spells (printMethods rs) ts rest) :
    ∃ rs', Sequence Method ts rs' rest ∧ bareRoutines rs' = bareRoutines rs := by
  induction rs generalizing ts with
  | nil =>
    obtain rfl := h
    exact ⟨[], .nil, rfl⟩
  | cons r rs ih =>
    obtain ⟨us, hr, h⟩ := spells_append.mp h
    obtain ⟨r', hr, e⟩ := routine_of_spells (hb r List.mem_cons_self) hr
    obtain ⟨rs', hrs, es⟩ := ih (fun r hr => hb r (List.mem_cons_of_mem _ hr)) h
    exact ⟨r' :: rs', .cons (.plain hr) hrs, by rw [bareRoutines, bareRoutines, e, es]⟩

theorem terminator_of_spells (h : Spells [.symbol .semicolon] ts rest) : Terminator ts rest := by
  obtain ⟨t, _, rfl, ht, rfl⟩ := h
  exact .semicolon ht

theorem clause_of_spells {o : Option Expr} (ho : ∀ e ∈ o, e.Derives)
    (h : Spells (printClause o) ts rest) :
    ∃ o', Clause ts o' rest ∧ bareClause o' = bareClause o := by
  cases o with
  | none =>
    obtain rfl := h
    exact ⟨none, .none, rfl⟩
  | some e =>
    obtain ⟨e', he, eq⟩ := ho e rfl _ _ h
    exact ⟨some e', .some he, by rw [bareClause, bareClause, eq]⟩

theorem declare_of_spells {mode : Mode} {x : String} {init : Option Expr} (hi : ∀ e ∈ init, e.Derives)
    (hm : (decide (mode = .mutable) || init.isSome) = true)
    (h : Spells (Stmt.declare p mode x init).print ts rest) :
    ∃ p init', Statement ts (.declare p mode x init') rest ∧ bareClause init' = bareClause init := by
  obtain ⟨w, us, rfl, hw, t, vs, rfl, ⟨hk, rfl⟩, h⟩ := h
  cases init with
  | none =>
    cases mode with
    | mutable => exact ⟨_, none, .declare hw hk (terminator_of_spells h), rfl⟩
    | constant => cases hm
  | some e =>
    obtain ⟨q, xs, rfl, hq, h⟩ := h
    obtain ⟨ys, h, hend⟩ := spells_append.mp h
    obtain ⟨e', he, eq⟩ := hi e rfl _ _ h
    refine ⟨_, some e', .declareInit hw hk hq he (terminator_of_spells hend), ?_⟩
    rw [bareClause, bareClause, eq]

/-- The first token of an expression says what the first mark says. -/
theorem not_leftBrace_of_spells {ms : List Mark} {t : Token} (hs : startsBrace ms = false)
    (hne : ms ≠ []) (h : Spells ms (t :: ts) rest) : t.kind ≠ .symbol .leftBrace := by
  cases ms with
  | nil => exact absurd rfl hne
  | cons m ms =>
    obtain ⟨_, _, e, hm, -⟩ := h
    cases e
    intro hk
    cases m with
    | keyword w => rw [Mark.Matches, hk] at hm; cases hm
    | symbol k =>
      rw [Mark.Matches, hk] at hm
      cases hm
      cases hs
    | _ => rw [Mark.Matches, hk] at hm; cases hm.1

theorem Stmt.Derives.expression {e : Expr} (he : e.Derives) (hs : startsBrace e.print = false) :
    (Stmt.expression p e).Derives := by
  intro ts rest h _
  obtain ⟨us, h, hend⟩ := spells_append.mp h
  obtain ⟨e', he', eq⟩ := he _ _ h
  obtain ⟨t, ts, rfl, -⟩ := he'.head
  have hne : e.print ≠ [] := by
    intro hnil
    rw [hnil] at h
    obtain rfl := h
    exact Nat.lt_irrefl _ he'.after.length_lt
  refine ⟨_, .expression (not_leftBrace_of_spells hs hne h) he' (terminator_of_spells hend), ?_⟩
  rw [Stmt.bare, Stmt.bare, eq]

theorem Stmt.Derives.declare {mode : Mode} {x : String} {init : Option Expr}
    (hi : ∀ e ∈ init, e.Derives) (hm : (decide (mode = .mutable) || init.isSome) = true) :
    (Stmt.declare p mode x init).Derives := by
  intro ts rest h _
  obtain ⟨p', init', h, e⟩ := declare_of_spells hi hm h
  exact ⟨_, h, by rw [Stmt.bare, Stmt.bare, e]⟩

theorem Stmt.Derives.block {body : List Stmt} (hb : StmtsDerive body) : (Stmt.block p body).Derives := by
  intro ts rest h _
  obtain ⟨l, r, us, body', rfl, hl, hbody, hr, e⟩ := block_of_spells hb h
  exact ⟨_, .block hl hbody hr, by rw [Stmt.bare, Stmt.bare, e]⟩

/-- A test in parentheses and what follows. -/
theorem test_of_spells {test : Expr} {ms : List Mark} (ht : test.Derives)
    (h : Spells (bracketed .leftParen .rightParen test.print ++ ms) ts rest) :
    ∃ l r us vs test', ts = l :: us ∧ l.kind = .symbol .leftParen ∧
      Expression us test' (r :: vs) ∧ r.kind = .symbol .rightParen ∧ test'.bare = test.bare ∧
      Spells ms vs rest := by
  obtain ⟨vs, h, hms⟩ := spells_append.mp h
  obtain ⟨l, r, us, rfl, hl, h, hr⟩ := spells_bracketed h
  obtain ⟨test', ht, e⟩ := ht _ _ h
  exact ⟨l, r, us, vs, test', rfl, hl, ht, hr, e, hms⟩

theorem Stmt.Derives.conditional {test : Expr} {yes : Stmt} {no : Option Stmt} (ht : test.Derives)
    (hy : yes.Derives) (hdy : yes.isDeclaration = false)
    (hopen : (no.isNone || !yes.endsOpen) = true)
    (hn : ∀ s ∈ no, s.isDeclaration = false ∧ s.Derives) :
    (Stmt.conditional p test yes no).Derives := by
  intro ts rest h hend
  obtain ⟨w, us, rfl, hw, h⟩ := h
  obtain ⟨l, r, us, vs, test', rfl, hl, htest, hr, et, h⟩ := test_of_spells ht h
  obtain ⟨xs, hyes, hno⟩ := spells_append.mp h
  cases no with
  | none =>
    obtain rfl := hno
    have helse := hend rfl
    obtain ⟨yes', hyes, ey⟩ := hy _ _ hyes fun _ => helse
    rw [← Stmt.isDeclaration_eq_of_bare ey] at hdy
    refine ⟨_, .conditional hw hl htest hr hyes hdy helse, ?_⟩
    rw [Stmt.bare, Stmt.bare, et, ey, bareBranch]
  | some no =>
    obtain ⟨o, ys, rfl, ho, hno⟩ := hno
    obtain ⟨hdn, hn⟩ := hn no rfl
    -- The branch before `else` does not end with a conditional that lacks one.
    have hclosed : yes.endsOpen = true → Next (· ≠ .keyword .elseWord) (o :: ys) := fun hy => by
      rw [hy] at hopen
      cases hopen
    obtain ⟨yes', hyes, ey⟩ := hy _ _ hyes hclosed
    obtain ⟨no', hno, en⟩ := hn _ _ hno hend
    rw [← Stmt.isDeclaration_eq_of_bare ey] at hdy
    rw [← Stmt.isDeclaration_eq_of_bare en] at hdn
    refine ⟨_, .conditionalElse hw hl htest hr hyes hdy ho hno hdn, ?_⟩
    rw [Stmt.bare, Stmt.bare, et, ey, bareBranch, bareBranch, en]

theorem Stmt.Derives.whileLoop {test : Expr} {body : Stmt} (ht : test.Derives) (hb : body.Derives)
    (hd : body.isDeclaration = false) : (Stmt.whileLoop p test body).Derives := by
  intro ts rest h hend
  obtain ⟨w, us, rfl, hw, h⟩ := h
  obtain ⟨l, r, us, vs, test', rfl, hl, htest, hr, et, h⟩ := test_of_spells ht h
  obtain ⟨body', hbody, eb⟩ := hb _ _ h hend
  rw [← Stmt.isDeclaration_eq_of_bare eb] at hd
  exact ⟨_, .whileLoop hw hl htest hr hbody hd, by rw [Stmt.bare, Stmt.bare, et, eb]⟩

/-- What a `for` loop may start with. -/
def StartDerives (init : Option Stmt) : Prop := ∀ ts rest, Spells (printStart init) ts rest →
  ∃ init', LoopStart ts init' rest ∧ bareBranch init' = bareBranch init

theorem StartDerives.none : StartDerives none := by
  intro ts rest h
  obtain ⟨t, _, rfl, ht, rfl⟩ := h
  exact ⟨_, .none ht, rfl⟩

theorem StartDerives.expression {e : Expr} (he : e.Derives) :
    StartDerives (some (.expression p e)) := by
  intro ts rest h
  obtain ⟨us, hspell, q, _, rfl, hq, rfl⟩ := spells_append.mp h
  obtain ⟨e', he, eq⟩ := he _ _ hspell
  obtain ⟨t, ts, rfl, -⟩ := he.head
  exact ⟨_, .expression he hq, by rw [bareBranch, bareBranch, Stmt.bare, Stmt.bare, eq]⟩

theorem StartDerives.declare {mode : Mode} {x : String} {init : Option Expr}
    (hi : ∀ e ∈ init, e.Derives) (hm : (decide (mode = .mutable) || init.isSome) = true) :
    StartDerives (some (.declare p mode x init)) := by
  intro ts rest h
  rw [printStart] at h
  obtain ⟨p', init', h, e⟩ := declare_of_spells hi hm h
  exact ⟨_, .declaration h, by rw [bareBranch, bareBranch, Stmt.bare, Stmt.bare, e]⟩

theorem Stmt.Derives.forLoop {init : Option Stmt} {test step : Option Expr} {body : Stmt}
    (hi : StartDerives init) (ht : ∀ e ∈ test, e.Derives) (hs : ∀ e ∈ step, e.Derives)
    (hb : body.Derives) (hd : body.isDeclaration = false) :
    (Stmt.forLoop p init test step body).Derives := by
  intro ts rest h hend
  obtain ⟨w, us, rfl, hw, l, us, rfl, hl, h⟩ := h
  obtain ⟨vs, hinit, h⟩ := spells_append.mp h
  obtain ⟨xs, htest, q, ys, rfl, hq, h⟩ := spells_append.mp h
  obtain ⟨zs, hstep, r, as, rfl, hr, h⟩ := spells_append.mp h
  obtain ⟨init', hinit, ei⟩ := hi _ _ hinit
  obtain ⟨test', htest, et⟩ := clause_of_spells ht htest
  obtain ⟨step', hstep, es⟩ := clause_of_spells hs hstep
  obtain ⟨body', hbody, eb⟩ := hb _ _ h hend
  rw [← Stmt.isDeclaration_eq_of_bare eb] at hd
  refine ⟨_, .forLoop hw hl hinit htest hq hstep hr hbody hd, ?_⟩
  rw [Stmt.bare, Stmt.bare, ei, et, es, eb]

theorem Stmt.Derives.foreachLoop {x : String} {items : Expr} {body : Stmt} (hi : items.Derives)
    (hb : body.Derives) (hd : body.isDeclaration = false) :
    (Stmt.foreachLoop p x items body).Derives := by
  intro ts rest h hend
  obtain ⟨w, us, rfl, hw, l, us, rfl, hl, t, us, rfl, ⟨hk, rfl⟩, c, us, rfl, hc, h⟩ := h
  obtain ⟨vs, hitems, r, xs, rfl, hr, h⟩ := spells_append.mp h
  obtain ⟨items', hitems, ei⟩ := hi _ _ hitems
  obtain ⟨body', hbody, eb⟩ := hb _ _ h hend
  rw [← Stmt.isDeclaration_eq_of_bare eb] at hd
  refine ⟨_, .foreachLoop hw hl (.plain hk (.inl hc)) hitems hr hbody hd, ?_⟩
  rw [Stmt.bare, Stmt.bare, ei, eb]

theorem Stmt.Derives.function {r : Routine} (hb : StmtsDerive r.body) :
    (Stmt.function p r).Derives := by
  intro ts rest h _
  obtain ⟨w, us, rfl, hw, h⟩ := h
  obtain ⟨r', hr, e⟩ := routine_of_spells hb h
  exact ⟨_, .function hw hr, by rw [Stmt.bare, Stmt.bare, e]⟩

theorem Stmt.Derives.classDef {x : String} {methods : List Routine}
    (hb : ∀ r ∈ methods, StmtsDerive r.body) : (Stmt.classDef p x methods).Derives := by
  intro ts rest h _
  obtain ⟨w, us, rfl, hw, t, us, rfl, ⟨hk, rfl⟩, h⟩ := h
  obtain ⟨l, r, us, rfl, hl, h, hr⟩ := spells_bracketed h
  obtain ⟨rs, hrs, e⟩ := methods_of_spells hb h
  exact ⟨_, .classDef hw hk hl hrs hr, by rw [Stmt.bare, Stmt.bare, e]⟩

theorem Stmt.Derives.returnStmt {value : Option Expr} (hv : ∀ e ∈ value, e.Derives) :
    (Stmt.returnStmt p value).Derives := by
  intro ts rest h _
  obtain ⟨w, us, rfl, hw, h⟩ := h
  obtain ⟨vs, h, hend⟩ := spells_append.mp h
  have hend := terminator_of_spells hend
  obtain ⟨value', hvalue, e⟩ := clause_of_spells hv h
  cases hvalue with
  | none => exact ⟨_, .returnNothing hw hend, by rw [Stmt.bare, Stmt.bare, e]⟩
  | some hvalue => exact ⟨_, .returnValue hw hvalue hend, by rw [Stmt.bare, Stmt.bare, e]⟩

/-- Statements are derived from the last to the first: what follows a statement then starts as one
does, and not with `else`. -/
theorem StmtsDerive.cons {s : Stmt} {ss : List Stmt} (hs : s.Derives) (hss : StmtsDerive ss) :
    StmtsDerive (s :: ss) := by
  intro ts rest h hend
  obtain ⟨us, h, htail⟩ := spells_append.mp h
  obtain ⟨ss', hss, es⟩ := hss _ _ htail hend
  have hnext : Next (· ≠ .keyword .elseWord) us := by
    cases hss with
    | nil => exact hend
    | cons hfirst _ =>
      intro t ht e
      have := hfirst.starts t ht
      rw [e] at this
      rcases this with h | h <;> cases h
  obtain ⟨s', hs, e⟩ := hs _ _ h fun _ => hnext
  exact ⟨s' :: ss', .cons hs hss, by rw [bareStmts, bareStmts, e, es]⟩

end

/-! ## Derivations of all well-formed trees -/

mutual

/-- The tokens of a well-formed expression derive it, up to positions. -/
theorem Expr.derives : (e : Expr) → e.wellFormed = true → e.Derives
  | .integer _ n, _ => by
    intro ts rest h
    obtain ⟨t, us, rfl, ⟨hk, hn⟩, rfl⟩ := h
    exact ⟨_, .integer hk hn, rfl⟩
  | .float _ x, _ => by
    intro ts rest h
    obtain ⟨t, us, rfl, ⟨hk, hx⟩, rfl⟩ := h
    exact ⟨_, .float hk hx, rfl⟩
  | .string _ s, _ => by
    intro ts rest h
    obtain ⟨t, us, rfl, ⟨hk, rfl⟩, rfl⟩ := h
    exact ⟨_, .string hk, rfl⟩
  | .boolean _ true, _ => by
    intro ts rest h
    obtain ⟨t, us, rfl, hk, rfl⟩ := h
    exact ⟨_, .trueWord hk, rfl⟩
  | .boolean _ false, _ => by
    intro ts rest h
    obtain ⟨t, us, rfl, hk, rfl⟩ := h
    exact ⟨_, .falseWord hk, rfl⟩
  | .null _, _ => by
    intro ts rest h
    obtain ⟨t, us, rfl, hk, rfl⟩ := h
    exact ⟨_, .null hk, rfl⟩
  | .undefined _, _ => by
    intro ts rest h
    obtain ⟨t, us, rfl, hk, rfl⟩ := h
    exact ⟨_, .undefined hk, rfl⟩
  | .identifier _ x, _ => by
    intro ts rest h
    obtain ⟨t, us, rfl, ⟨hk, rfl⟩, rfl⟩ := h
    exact ⟨_, .identifier hk, rfl⟩
  | .unary _ op x, hw => by
    simp only [Expr.wellFormed, Bool.and_eq_true, decide_eq_true_eq] at hw
    intro ts rest h
    obtain ⟨t, us, rfl, hk, h⟩ := h
    obtain ⟨x', hx, e⟩ := Expr.derives x hw.2 _ _ h
    have hop : UnaryOp.ofKind? t.kind = some op := by
      rw [hk]
      exact UnaryOp.ofKind?_symbol op
    rw [← Expr.level_eq_of_bare e] at hw
    exact ⟨_, .unary hop hx hw.1, by rw [Expr.bare, Expr.bare, e]⟩
  | .binary _ op l r, hw => by
    simp only [Expr.wellFormed, Bool.and_eq_true, decide_eq_true_eq] at hw
    obtain ⟨⟨⟨hll, hlr⟩, hl⟩, hr⟩ := hw
    intro ts rest h
    obtain ⟨l', r', h, el, er⟩ := infix_of_spells (Expr.derives l hl) (Expr.derives r hr) hll hlr h
    exact ⟨_, h, by rw [Infix.join, Expr.bare, Expr.bare, el, er]⟩
  | .logical _ op l r, hw => by
    simp only [Expr.wellFormed, Bool.and_eq_true, decide_eq_true_eq] at hw
    obtain ⟨⟨⟨hll, hlr⟩, hl⟩, hr⟩ := hw
    intro ts rest h
    obtain ⟨l', r', h, el, er⟩ := infix_of_spells (Expr.derives l hl) (Expr.derives r hr) hll hlr h
    exact ⟨_, h, by rw [Infix.join, Expr.bare, Expr.bare, el, er]⟩
  | .assign _ target value, hw => by
    simp only [Expr.wellFormed, Bool.and_eq_true] at hw
    intro ts rest h
    obtain ⟨us, h₁, q, vs, rfl, hq, h₂⟩ := spells_append.mp h
    obtain ⟨left, x, hleft, hx, ex⟩ := Target.derives target hw.1 _ _ h₁
    obtain ⟨v, hv, ev⟩ := Expr.derives value hw.2 _ _ h₂
    obtain ⟨t, us, rfl, -⟩ := hleft.head
    exact ⟨_, .assign hleft hx hq hv, by rw [Expr.bare, Expr.bare, ex, ev]⟩
  | .call _ callee args, hw => by
    simp only [Expr.wellFormed, Bool.and_eq_true, decide_eq_true_eq] at hw
    exact .call (Expr.derives callee hw.1.2) hw.1.1 (exprs_derive args hw.2)
  | .group _ inner, hw => by
    intro ts rest h
    obtain ⟨l, r, us, rfl, hl, h, hr⟩ := spells_bracketed h
    obtain ⟨inner', hi, e⟩ := Expr.derives inner hw _ _ h
    exact ⟨_, .group hl hi hr, by rw [Expr.bare, Expr.bare, e]⟩
  | .array _ items, hw => .array (exprs_derive items hw)
  | .object _ entries, hw => .object (entries_derive entries hw)
  | .member _ owner x, hw => by
    simp only [Expr.wellFormed, Bool.and_eq_true, decide_eq_true_eq] at hw
    intro ts rest h
    obtain ⟨_, o, h, e⟩ := member_of_spells (Expr.derives owner hw.2) hw.1 h
    exact ⟨_, h, by rw [Expr.bare, Expr.bare, e]⟩
  | .index _ owner key, hw => by
    simp only [Expr.wellFormed, Bool.and_eq_true, decide_eq_true_eq] at hw
    intro ts rest h
    obtain ⟨_, o, k, h, eo, ek⟩ :=
      index_of_spells (Expr.derives owner hw.1.2) (Expr.derives key hw.2) hw.1.1 h
    exact ⟨_, h, by rw [Expr.bare, Expr.bare, eo, ek]⟩
  | .lambda _ r, hw => by
    simp only [Expr.wellFormed, Bool.and_eq_true, decide_eq_true_eq] at hw
    intro ts rest h
    obtain ⟨_, r', h, e⟩ := lambda_of_spells (Routine.derives r hw.2) hw.1 h
    exact ⟨_, h, by rw [Expr.bare, Expr.bare, e]⟩

theorem Target.derives : (x : Target) → x.wellFormed = true → x.Derives
  | .name x, _ => by
    intro ts rest h
    obtain ⟨t, us, rfl, ⟨hk, rfl⟩, rfl⟩ := h
    exact ⟨_, _, .identifier hk, rfl, rfl⟩
  | .member owner x, hw => by
    simp only [Target.wellFormed, Bool.and_eq_true, decide_eq_true_eq] at hw
    intro ts rest h
    obtain ⟨_, o, h, e⟩ := member_of_spells (Expr.derives owner hw.2) hw.1 h
    exact ⟨_, _, h, rfl, by rw [Target.bare, Target.bare, e]⟩
  | .index owner key, hw => by
    simp only [Target.wellFormed, Bool.and_eq_true, decide_eq_true_eq] at hw
    intro ts rest h
    obtain ⟨_, o, k, h, eo, ek⟩ :=
      index_of_spells (Expr.derives owner hw.1.2) (Expr.derives key hw.2) hw.1.1 h
    exact ⟨_, _, h, rfl, by rw [Target.bare, Target.bare, eo, ek]⟩

theorem exprs_derive : (es : List Expr) → wellFormedExprs es = true → ∀ e ∈ es, e.Derives
  | [], _ => fun _ he => absurd he List.not_mem_nil
  | e :: es, hw => by
    simp only [wellFormedExprs, Bool.and_eq_true] at hw
    exact List.forall_mem_cons.mpr ⟨Expr.derives e hw.1, exprs_derive es hw.2⟩

theorem Entry.derives : (e : Entry) → e.wellFormed = true → e.Derives
  | ⟨key, value⟩, hw => by
    intro ts rest h
    obtain ⟨k, us, rfl, ⟨hk, rfl⟩, c, us, rfl, hc, h⟩ := h
    obtain ⟨v, hv, e⟩ := Expr.derives value hw _ _ h
    exact ⟨_, .mk (.inr hk) hc hv, by rw [Entry.bare, Entry.bare, e]⟩

theorem entries_derive : (es : List Entry) → wellFormedEntries es = true → ∀ e ∈ es, e.Derives
  | [], _ => fun _ he => absurd he List.not_mem_nil
  | e :: es, hw => by
    simp only [wellFormedEntries, Bool.and_eq_true] at hw
    exact List.forall_mem_cons.mpr ⟨Entry.derives e hw.1, entries_derive es hw.2⟩

theorem Routine.derives : (r : Routine) → r.wellFormed = true → StmtsDerive r.body
  | ⟨_, _, body, _⟩, hw => statements_derive body hw

theorem routines_derive : (rs : List Routine) → wellFormedRoutines rs = true →
    ∀ r ∈ rs, StmtsDerive r.body
  | [], _ => fun _ hr => absurd hr List.not_mem_nil
  | r :: rs, hw => by
    simp only [wellFormedRoutines, Bool.and_eq_true] at hw
    exact List.forall_mem_cons.mpr ⟨Routine.derives r hw.1, routines_derive rs hw.2⟩

theorem clause_derives : (o : Option Expr) → wellFormedClause o = true → ∀ e ∈ o, e.Derives
  | none, _ => fun _ he => by cases he
  | some e, hw => fun _ he => by
    cases he
    exact Expr.derives e hw

theorem else_derives : (o : Option Stmt) → wellFormedElse o = true →
    ∀ s ∈ o, s.isDeclaration = false ∧ s.Derives
  | none, _ => fun _ hs => by cases hs
  | some s, hw => fun _ hs => by
    cases hs
    simp only [wellFormedElse, Bool.and_eq_true, Bool.not_eq_true'] at hw
    exact ⟨hw.1, Stmt.derives s hw.2⟩

theorem start_derives : (o : Option Stmt) → wellFormedStart o = true → StartDerives o
  | none, _ => .none
  | some (.expression _ e), hw => .expression (Expr.derives e hw)
  | some (.declare _ _ _ init), hw => by
    simp only [wellFormedStart, Bool.and_eq_true] at hw
    exact .declare (clause_derives init hw.2) hw.1

/-- The tokens of a well-formed statement derive it, up to positions. -/
theorem Stmt.derives : (s : Stmt) → s.wellFormed = true → s.Derives
  | .expression _ e, hw => by
    simp only [Stmt.wellFormed, Bool.and_eq_true, Bool.not_eq_true'] at hw
    exact .expression (Expr.derives e hw.2) hw.1
  | .declare _ _ _ init, hw => by
    simp only [Stmt.wellFormed, Bool.and_eq_true] at hw
    exact .declare (clause_derives init hw.2) hw.1
  | .block _ body, hw => .block (statements_derive body hw)
  | .conditional _ test yes no, hw => by
    simp only [Stmt.wellFormed, Bool.and_eq_true, Bool.not_eq_true'] at hw
    obtain ⟨⟨⟨⟨ht, hd⟩, hy⟩, hopen⟩, hn⟩ := hw
    exact .conditional (Expr.derives test ht) (Stmt.derives yes hy) hd hopen (else_derives no hn)
  | .whileLoop _ test body, hw => by
    simp only [Stmt.wellFormed, Bool.and_eq_true, Bool.not_eq_true'] at hw
    exact .whileLoop (Expr.derives test hw.1.1) (Stmt.derives body hw.2) hw.1.2
  | .forLoop _ init test step body, hw => by
    simp only [Stmt.wellFormed, Bool.and_eq_true, Bool.not_eq_true'] at hw
    obtain ⟨⟨⟨⟨hi, ht⟩, hs⟩, hd⟩, hb⟩ := hw
    exact .forLoop (start_derives init hi) (clause_derives test ht) (clause_derives step hs)
      (Stmt.derives body hb) hd
  | .foreachLoop _ _ items body, hw => by
    simp only [Stmt.wellFormed, Bool.and_eq_true, Bool.not_eq_true'] at hw
    exact .foreachLoop (Expr.derives items hw.1.1) (Stmt.derives body hw.2) hw.1.2
  | .function _ r, hw => .function (Routine.derives r hw)
  | .classDef _ _ methods, hw => .classDef (routines_derive methods hw)
  | .returnStmt _ value, hw => .returnStmt (clause_derives value hw)
  | .breakStmt _, _ => by
    intro ts rest h _
    obtain ⟨w, us, rfl, hw, h⟩ := h
    exact ⟨_, .breakStmt hw (terminator_of_spells h), rfl⟩
  | .continueStmt _, _ => by
    intro ts rest h _
    obtain ⟨w, us, rfl, hw, h⟩ := h
    exact ⟨_, .continueStmt hw (terminator_of_spells h), rfl⟩

theorem statements_derive : (ss : List Stmt) → wellFormedStmts ss = true → StmtsDerive ss
  | [], _ => by
    rintro _ rest rfl -
    exact ⟨[], .nil, rfl⟩
  | s :: ss, hw => by
    simp only [wellFormedStmts, Bool.and_eq_true] at hw
    exact .cons (Stmt.derives s hw.1) (statements_derive ss hw.2)

end

/-! ## Programs -/

/-- No mark is matched by the end of input or by a fault. -/
theorem kinds_of_matches {ms : List Mark} {ts : List Token} (h : List.Forall₂ Mark.Matches ms ts) :
    ∀ t ∈ ts, t.kind ≠ .endOfInput ∧ ∀ f, t.kind ≠ .fault f := by
  induction h with
  | nil => exact fun t ht => absurd ht List.not_mem_nil
  | @cons m t _ _ hm _ ih =>
    refine List.forall_mem_cons.mpr ⟨?_, ih⟩
    cases m with
    | keyword w => rw [Mark.Matches] at hm; simp [hm]
    | symbol k => rw [Mark.Matches] at hm; simp [hm]
    | _ => simp [hm.1]

/-- A well-formed program that is printed, with any positions, any spelling of its numbers and any
tokens behind the end of input, is read back as it was. -/
theorem parse_print {p : Program} (hp : p.wellFormed = true) {ts tail : List Token}
    (hts : List.Forall₂ Mark.Matches p.print ts) (htail : Next (· = .endOfInput) tail) :
    ∃ q, parse (ts ++ tail) = .ok q ∧ q.bare = p.bare := by
  have hkinds := kinds_of_matches hts
  have hspell : Spells p.print (ts ++ []) [] := spells_of_forall₂ hts
  rw [List.append_nil] at hspell
  obtain ⟨ss, hss, e⟩ := statements_derive p.statements hp ts [] hspell next_nil
  refine ⟨⟨ss⟩, parse_eq_ok_iff.mpr ?_, by rw [Program.bare, Program.bare, e]⟩
  rw [textTokens_append (fun t ht => (hkinds t ht).1) htail]
  exact ⟨fun t ht => (hkinds t ht).2, hss⟩

theorem matches_sample : List.Forall₂ Mark.Matches sampleProgram.print sampleTokens :=
  .cons ⟨rfl, rfl⟩ <| .cons rfl <| .cons ⟨rfl, rfl⟩ <| .cons rfl <| .cons ⟨rfl, rfl⟩ <| .cons rfl .nil

/-- The tokens of the sample, and an end of input, are read back as the sample. -/
theorem parse_print_sample :
    ∃ q, parse (sampleTokens ++ [⟨.endOfInput, "", ⟨1, 11⟩⟩]) = .ok q ∧ q.bare = sampleProgram.bare :=
  parse_print (by decide) matches_sample (by simp)

end Scriptlet
