import Scriptlet.Proofs.Syntax.Steps

/-!
# The parser accepts only the grammar

If the rules that a rule refers to are sound (`RulesSound`), so is the rule; by
induction on the bound that ties the rules together, all of them are
(`rulesSound_parse`). The two loops that build an expression from the left carry
what they have read so far in their relation: `accesses` an expression that
accesses may follow, and `climb` an expression that the next operator may take as
its left operand (`Fits`).
-/

namespace Scriptlet.Parser

open Grammar

/-- The parsers of the rules return only what the grammar derives. -/
structure RulesSound (rules : Rules) : Prop where
  expression : Yields (rules .expression) fun ts e rest => Expression ts e rest ∧ Stops 0 rest
  operand (level : Nat) : 1 ≤ level → level ≤ unaryLevel →
    Yields (rules (.operand level)) fun ts e rest =>
      Expression ts e rest ∧ level ≤ e.level ∧ Stops level rest
  unary : Yields (rules .unary) fun ts e rest =>
    Expression ts e rest ∧ unaryLevel ≤ e.level ∧ Stops unaryLevel rest
  declaration : Yields (rules .declaration) Statement
  statement : Yields (rules .statement) fun ts s rest =>
    Statement ts s rest ∧ s.isDeclaration = false

/-- `left` may be the left operand of the operator that comes next, if one does. -/
def Fits (left : Expr) (ts : List Token) : Prop :=
  Stops unaryLevel ts ∧
    Next (fun k => ∀ op, Infix.ofKind? k = some op → op.leftLevel ≤ left.level) ts

theorem fits_join {op : Infix} {left right : Expr} {ts : List Token} (h : Stops op.rightLevel ts) :
    Fits (op.join left right) ts := by
  refine ⟨h.mono op.rightLevel_le_unaryLevel, fun t ht op' ho' => ?_⟩
  obtain ⟨-, -, h⟩ := TokenKind.continues_eq_false_iff.mp (h t ht)
  rw [Infix.level_join]
  exact (op.level_lt_rightLevel_iff op').mp (h op' ho')

/-! ## Lists -/

theorem Yields.parameters {fuel : Nat} : Yields (parameters fuel) Parameters := by
  unfold Parser.parameters
  simp only [pure_bind]
  refine Yields.expectSymbol.bind fun _ => Yields.check.bind fun b => .ite (fun hb => ?_) fun _ => ?_
  · refine Yields.expectSymbol.bind fun _ => .pure ?_
    rintro us vs ⟨r, rfl, hr⟩ xs ⟨rfl, -⟩ ts ⟨l, rfl, hl⟩
    exact .none hl hr
  · have hi : Yields (do return (← Parser.expectName "parameter name").lexeme) Parameter :=
      Yields.expectName.bind fun x => .pure fun _ _ h => h.1 ▸ .mk h.2
    refine (Yields.commaList hi fuel).bind fun params => Yields.expectSymbol.bind fun _ => .pure ?_
    rintro us vs ⟨r, rfl, hr⟩ xs h ys ⟨rfl, -⟩ ts ⟨l, rfl, hl⟩
    exact .some hl h hr

/-- The literal of a number token is a number at its position. -/
theorem numberLiteral_sound {t : Token} {rest : List Token} {e : Expr} (hk : t.kind = .number)
    (h : numberLiteral? t = some e) : Expression (t :: rest) e rest ∧ postfixLevel ≤ e.level := by
  have hf : ∀ e', (Number.readFloat? t.lexeme).map (Expr.float t.position) = some e' →
      ∃ x, e' = .float t.position x := by
    intro e' h'
    obtain ⟨x, -, rfl⟩ := Option.map_eq_some_iff.mp h'
    exact ⟨x, rfl⟩
  have he : (∃ n, e = .integer t.position n) ∨ ∃ x, e = .float t.position x := by
    have h' := h
    unfold numberLiteral? at h'
    dsimp only at h'
    split at h'
    · exact .inr (hf e h')
    · split at h'
      · cases h'
        exact .inl ⟨_, rfl⟩
      · exact .inr (hf e h')
  rcases he with ⟨n, rfl⟩ | ⟨x, rfl⟩
  · exact ⟨.integer hk h, Nat.le_refl _⟩
  · exact ⟨.float hk h, Nat.le_refl _⟩

section

variable {rules : Rules} (hr : RulesSound rules)
include hr

theorem Yields.expressionRule : Yields (rules .expression) Expression :=
  hr.expression.mono fun _ _ _ h => h.1

theorem Yields.block {fuel : Nat} : Yields (block rules fuel) fun ts body rest =>
    ∃ r, r.kind = .symbol .rightBrace ∧ Sequence Statement ts body (r :: rest) := by
  have hd : ∀ f : Nat → Nat, Yields (modify fun s : ParserState => { s with blockDepth := f s.blockDepth })
      fun ts _ rest => rest = ts := fun f => .of_ok fun s _ => ⟨_, _, rfl, rfl, rfl, rfl⟩
  refine (hd (· + 1)).bind fun _ =>
    (Yields.itemsToBrace hr.declaration.recovering fuel).bind fun body =>
    (hd (· - 1)).bind fun _ => Yields.expectSymbol.bind fun _ => .pure ?_
  rintro us vs ⟨r, rfl, hr⟩ xs rfl ys h ts rfl
  exact ⟨r, hr, sequence_filterMap h⟩

/-! ## Expressions -/

theorem Yields.arguments {fuel : Nat} : Yields (arguments rules fuel) fun ts args rest =>
    ∃ r, r.kind = .symbol .rightParen ∧
      (args = [] ∧ ts = r :: rest ∨ Commas Expression ts args (r :: rest)) := by
  unfold Parser.arguments
  simp only [pure_bind]
  refine Yields.check.bind fun b => .ite (fun hb => ?_) fun _ => ?_
  · refine Yields.expectSymbol.bind fun _ => .pure ?_
    rintro us vs ⟨r, rfl, hr⟩ ts ⟨rfl, -⟩
    exact ⟨r, hr, .inl ⟨rfl, rfl⟩⟩
  · refine (Yields.commaList (.expressionRule hr) fuel).bind fun args =>
      Yields.expectSymbol.bind fun _ => .pure ?_
    rintro us vs ⟨r, rfl, hr⟩ xs h ts ⟨rfl, -⟩
    exact ⟨r, hr, .inr h⟩

theorem Yields.entry : Yields (entry rules) ObjectEntry := by
  refine Yields.peek.bind fun k => .ite (fun hk => ?_) fun _ => .failHere
  simp only [Bool.or_eq_true, decide_eq_true_eq] at hk
  refine .take (by rcases hk with hk | hk <;> simp [hk]) fun _ =>
    Yields.expectSymbol.bind fun _ => (Yields.expressionRule hr).bind fun value => .pure ?_
  rintro us vs h xs ⟨c, rfl, hc⟩ -
  exact .mk hk hc h

theorem Yields.lambda {fuel : Nat} : Yields (lambda rules fuel) fun ts e rest =>
    Expression ts e rest ∧ postfixLevel ≤ e.level := by
  unfold Parser.lambda
  simp only [pure_bind]
  refine Yields.peek.bind fun l => Yields.parameters.bind fun params =>
    Yields.expectSymbol.bind fun _ => .accept (by simp) ?_ ?_
  · refine (Yields.block hr).bind fun body => .pure ?_
    rintro us vs ⟨r, hr, h⟩ b hb ys ⟨a, rfl, ha⟩ zs hp ts ⟨rfl, hs⟩
    obtain ⟨t, ws, rfl, -⟩ := hp.after
    obtain rfl := seen_cons.mp hs
    exact ⟨.lambda hp ha hb h hr, Nat.le_refl _⟩
  · refine hr.expression.bind fun value => .pure ?_
    rintro us vs ⟨h, hst⟩ hb ys ⟨a, rfl, ha⟩ zs hp ts ⟨rfl, hs⟩
    obtain ⟨t, ws, rfl, -⟩ := hp.after
    obtain rfl := seen_cons.mp hs
    obtain ⟨v, vs, rfl, hv⟩ := h.head
    rw [hv]
    exact ⟨.lambdaReturning hp ha (next_cons.mp hb) h hst, Nat.le_refl _⟩

theorem Yields.primary {fuel : Nat} : Yields (primary rules fuel) fun ts e rest =>
    Expression ts e rest ∧ postfixLevel ≤ e.level := by
  refine Yields.peek.bind fun t => ?_
  dsimp only
  split <;> rename_i hk
  · refine .take (by simp [hk]) fun _ => ?_
    split <;> rename_i he
    · exact .pure fun _ _ => numberLiteral_sound hk he
    · exact .throw
  · exact .take (by simp [hk]) fun _ => .pure fun _ _ => ⟨.string hk, Nat.le_refl _⟩
  · exact .take (by simp [hk]) fun _ => .pure fun _ _ => ⟨.trueWord hk, Nat.le_refl _⟩
  · exact .take (by simp [hk]) fun _ => .pure fun _ _ => ⟨.falseWord hk, Nat.le_refl _⟩
  · exact .take (by simp [hk]) fun _ => .pure fun _ _ => ⟨.null hk, Nat.le_refl _⟩
  · exact .take (by simp [hk]) fun _ => .pure fun _ _ => ⟨.undefined hk, Nat.le_refl _⟩
  · exact .take (by simp [hk]) fun _ => .pure fun _ _ => ⟨.identifier hk, Nat.le_refl _⟩
  · refine Yields.bind (R := fun ts _ rest => rest = ts)
      (.of_ok fun s _ => ⟨s, s, rfl, rfl, rfl, rfl⟩) fun s => .ite (fun _ => ?_) fun _ => ?_
    · refine (Yields.lambda hr).mono ?_
      rintro us e rest h ts rfl vs ⟨rfl, -⟩
      exact h
    · refine (Yields.take (by simp [hk]) fun _ => (Yields.expressionRule hr).bind fun inner =>
        Yields.expectSymbol.bind fun _ => .pure ?_).mono fun _ _ _ h ts e => e ▸ h
      rintro us vs ⟨r, rfl, hr⟩ xs h -
      exact ⟨.group hk h hr, Nat.le_refl _⟩
  · refine .take (by simp [hk]) fun _ =>
      (Yields.looseCommaList (.expressionRule hr) _ fuel).bind fun items =>
      Yields.expectSymbol.bind fun _ => .pure ?_
    rintro us vs ⟨r, rfl, hr⟩ xs h -
    exact ⟨.array hk h hr, Nat.le_refl _⟩
  · refine .take (by simp [hk]) fun _ =>
      (Yields.looseCommaList (.entry hr) _ fuel).bind fun entries =>
      Yields.expectSymbol.bind fun _ => .pure ?_
    rintro us vs ⟨r, rfl, hr⟩ xs h -
    exact ⟨.object hk h hr, Nat.le_refl _⟩
  · exact .failHere

/-- The loop of accesses, after the expression `e` that starts at the tokens `ts`. -/
theorem Yields.accesses (fuel : Nat) (e : Expr) : Yields (accesses rules fuel e) fun us e' rest =>
    ∀ ts, Expression ts e us → postfixLevel ≤ e.level →
      Expression ts e' rest ∧ postfixLevel ≤ e'.level ∧ Stops unaryLevel rest := by
  induction fuel generalizing e with
  | zero => exact .throw
  | succ fuel ih =>
    refine .accept (by simp) ?_ (.accept (by simp) ?_ (.accept (by simp) ?_ (.pure ?_)))
    · refine (Yields.arguments hr).bind fun args => (ih _).mono ?_
      rintro us e' rest h vs ⟨r, hr, hargs⟩ l hl ts he hlev
      obtain ⟨t, ts, rfl, hp⟩ := he.head
      rw [hp] at h
      refine h _ ?_ (Nat.le_refl _)
      rcases hargs with ⟨rfl, rfl⟩ | hargs
      · exact .call he hlev hl hr
      · exact .callWith he hlev hl hargs hr
    · refine Yields.expectName.bind fun x => (ih _).mono ?_
      rintro us e' rest h vs ⟨rfl, hx⟩ d hd - ts he hlev
      obtain ⟨t, ts, rfl, hp⟩ := he.head
      rw [hp] at h
      exact h _ (.member he hlev hd hx) (Nat.le_refl _)
    · refine (Yields.expressionRule hr).bind fun key => Yields.expectSymbol.bind fun _ => (ih _).mono ?_
      rintro us e' rest h vs ⟨r, rfl, hr⟩ xs hkey l hl - - ts he hlev
      obtain ⟨t, ts, rfl, hp⟩ := he.head
      rw [hp] at h
      exact h _ (.index he hlev hl hkey hr) (Nat.le_refl _)
    · intro us h₃ h₂ h₁ ts he hlev
      refine ⟨he, hlev, fun t ht => TokenKind.continues_eq_false_iff.mpr ?_⟩
      refine ⟨⟨h₁ t ht, h₂ t ht, h₃ t ht⟩, fun h₀ => ?_, fun op _ => op.level_lt_unaryLevel⟩
      exact absurd h₀ (by decide)

theorem Yields.unary {fuel : Nat} : Yields (unary rules fuel) fun ts e rest =>
    Expression ts e rest ∧ unaryLevel ≤ e.level ∧ Stops unaryLevel rest := by
  refine Yields.peek.bind fun t => ?_
  split <;> rename_i op hop
  · have hk : t.kind ≠ .endOfInput := fun h => by rw [h] at hop; cases hop
    refine .take hk fun t' => hr.unary.bind fun x => .pure ?_
    rintro us vs ⟨h, hl, hs⟩ rfl
    exact ⟨.unary hop h hl, Nat.le_refl _, hs⟩
  · refine (Yields.primary hr).bind fun e => (Yields.accesses hr fuel e).mono ?_
    rintro us e' rest h ts ⟨he, hl⟩ vs ⟨rfl, -⟩
    obtain ⟨he, hl, hs⟩ := h _ he hl
    exact ⟨he, Nat.le_of_succ_le hl, hs⟩

/-- The loop of infix operators, after the expression `left` that starts at the tokens `ts`. -/
theorem Yields.climb {level : Nat} (h₁ : 1 ≤ level) (fuel : Nat) (left : Expr) :
    Yields (climb rules level fuel left) fun us e rest =>
      ∀ ts, Expression ts left us → level ≤ left.level → Fits left us →
        Expression ts e rest ∧ level ≤ e.level ∧ Stops level rest := by
  induction fuel generalizing left with
  | zero => exact .throw
  | succ fuel ih =>
    refine Yields.peek.bind fun o => ?_
    split <;> rename_i ho
    · rename_i op
      refine .ite (fun hlt => .pure ?_) fun hge => ?_
      · rintro us _ ⟨rfl, hs⟩ ts he hl hf
        refine ⟨he, hl, hf.1.of_levels h₁ (hs.next fun op' ho' => ?_)⟩
        rw [ho] at ho'
        cases ho'
        exact hlt
      · have hk : o.kind ≠ .endOfInput := fun h => by rw [h] at ho; cases ho
        refine .take hk fun _ => (hr.operand _ ?_ op.rightLevel_le_unaryLevel).bind fun right =>
          (ih _).mono ?_
        · exact Nat.le_trans op.one_le_level op.level_le_rightLevel
        rintro us e rest h vs ⟨hright, hlr, hst⟩ - ts he hl hf
        refine h _ (he.join ho hright (next_cons.mp hf.2 op ho) hlr) ?_ ?_
        · rw [Infix.level_join]
          omega
        · exact fits_join hst
    · refine .pure ?_
      rintro us _ ⟨rfl, hs⟩ ts he hl hf
      refine ⟨he, hl, hf.1.of_levels h₁ (hs.next fun op' ho' => ?_)⟩
      rw [ho] at ho'
      cases ho'

theorem Yields.operand {level fuel : Nat} (h₁ : 1 ≤ level) (h₈ : level ≤ unaryLevel) :
    Yields (operand rules fuel level) fun ts e rest =>
      Expression ts e rest ∧ level ≤ e.level ∧ Stops level rest := by
  refine (Yields.unary hr).bind fun left => (Yields.climb hr h₁ fuel left).mono ?_
  rintro us e rest h ts ⟨he, hl, hs⟩
  refine h ts he (Nat.le_trans h₈ hl) ⟨hs, fun t _ op _ => ?_⟩
  exact Nat.le_trans op.leftLevel_le_unaryLevel hl

theorem Yields.expression {fuel : Nat} : Yields (expression rules fuel) fun ts e rest =>
    Expression ts e rest ∧ Stops 0 rest := by
  refine (Yields.operand hr (Nat.le_refl 1) (by decide)).bind fun left =>
    Yields.check.bind fun b => .ite (fun hb => ?_) fun hb => .pure ?_
  · refine Yields.advance.bind fun q => hr.expression.bind fun value => ?_
    split <;> rename_i htarget
    · refine .pure ?_
      rintro us vs ⟨hvalue, hst⟩ xs ⟨hs, rfl⟩ ys ⟨rfl, h, -⟩ ts ⟨he, -, -⟩
      obtain ⟨q', hs', hq⟩ := h hb
      have e := hs'.eq_cons (by simp [hq])
      rw [e, seen_cons] at hs
      rw [e] at he
      obtain ⟨t, ts, rfl, hp⟩ := he.head
      rw [hp]
      exact ⟨.assign he htarget hq hvalue, hst⟩
    · exact .throw
  · rintro us vs ⟨rfl, -, h⟩ ts ⟨he, -, hst⟩
    refine ⟨he, fun t ht => ?_⟩
    obtain ⟨h₁, -, h₃⟩ := TokenKind.continues_eq_false_iff.mp (hst t ht)
    refine TokenKind.continues_eq_false_iff.mpr ⟨h₁, fun _ => ?_, fun op ho => ?_⟩
    · exact h (by simpa using hb) t ht
    · exact absurd (h₃ op ho) (by have := op.one_le_level; omega)

/-! ## Statements -/

/-- The tokens after the word for a variable of mode `mode`. -/
theorem Yields.variableDeclaration {p : Position} {mode : Mode} :
    Yields (variableDeclaration rules p mode) fun ts s rest =>
      ∀ w : Token, w.position = p → w.kind = .keyword mode.word →
        Statement (w :: ts) s rest ∧ ∃ name init, s = .declare p mode name init := by
  unfold Parser.variableDeclaration
  simp only [pure_bind]
  refine Yields.expectName.bind fun x => .accept (by simp) ?_ ?_
  · refine (Yields.expressionRule hr).bind fun e => .ite (fun hc => by simp at hc) fun _ => ?_
    refine Yields.expectTerminator.bind fun _ => .pure ?_
    rintro us vs ht xs he q hq ts ⟨rfl, hx⟩ w rfl hw
    exact ⟨.declareInit hw hx hq he ht, _, _, rfl⟩
  · refine .ite (fun _ => .failHere_bind) fun hc => ?_
    refine Yields.expectTerminator.bind fun _ => .pure ?_
    rintro us vs ht - ts ⟨rfl, hx⟩ w rfl hw
    cases mode with
    | constant => simp at hc
    | mutable => exact ⟨.declare hw hx ht, _, _, rfl⟩

theorem Yields.routine {fuel : Nat} {what : String} : Yields (routine rules fuel what) NamedRoutine := by
  refine Yields.expectName.bind fun x => Yields.parameters.bind fun params =>
    Yields.expectSymbol.bind fun _ => (Yields.block hr).bind fun body => .pure ?_
  rintro us vs ⟨r, hr, h⟩ xs ⟨b, rfl, hb⟩ ys hp ts ⟨rfl, hx⟩
  exact .mk hx hp hb h hr

theorem Yields.method {fuel : Nat} : Yields (method rules fuel) Method :=
  .acceptAny (by simp) ((Yields.routine hr).mono fun _ _ _ h => ⟨.plain h, fun _ hw => .withWord hw h⟩)

theorem Yields.classDefinition {fuel : Nat} {p : Position} :
    Yields (classDefinition rules fuel p) fun ts s rest =>
      ∀ w : Token, w.position = p → w.kind = .keyword .classWord → Statement (w :: ts) s rest := by
  refine Yields.expectName.bind fun x => Yields.expectSymbol.bind fun _ =>
    (Yields.itemsToBrace (.method hr) fuel).bind fun methods => Yields.expectSymbol.bind fun _ => .pure ?_
  rintro us vs ⟨r, rfl, hr⟩ xs h ys ⟨l, rfl, hl⟩ ts ⟨rfl, hx⟩ w rfl hw
  exact .classDef hw hx hl h hr

theorem Yields.conditional {p : Position} : Yields (conditional rules p) fun ts s rest =>
    ∀ w : Token, w.position = p → w.kind = .keyword .ifWord → Statement (w :: ts) s rest := by
  unfold Parser.conditional
  simp only [pure_bind]
  refine Yields.expectSymbol.bind fun _ => (Yields.expressionRule hr).bind fun test =>
    Yields.expectSymbol.bind fun _ => hr.statement.bind fun yes => .accept (by simp) ?_ (.pure ?_)
  · refine hr.statement.bind fun no => .pure ?_
    rintro us vs ⟨hno, dno⟩ o ho xs ⟨hyes, dyes⟩ ys ⟨r, rfl, hr⟩ zs htest ts ⟨l, rfl, hl⟩ w rfl hw
    exact .conditionalElse hw hl htest hr hyes dyes ho hno dno
  · rintro us hn xs ⟨hyes, dyes⟩ ys ⟨r, rfl, hr⟩ zs htest ts ⟨l, rfl, hl⟩ w rfl hw
    exact .conditional hw hl htest hr hyes dyes hn

theorem Yields.whileLoop {p : Position} : Yields (whileLoop rules p) fun ts s rest =>
    ∀ w : Token, w.position = p → w.kind = .keyword .whileWord → Statement (w :: ts) s rest := by
  refine Yields.expectSymbol.bind fun _ => (Yields.expressionRule hr).bind fun test =>
    Yields.expectSymbol.bind fun _ => hr.statement.bind fun body => .pure ?_
  rintro us vs ⟨hbody, dbody⟩ ys ⟨r, rfl, hr⟩ zs htest ts ⟨l, rfl, hl⟩ w rfl hw
  exact .whileLoop hw hl htest hr hbody dbody

theorem Yields.loopStart : Yields (loopStart rules) LoopStart := by
  refine Yields.peek.bind fun t => ?_
  split <;> rename_i hk
  · exact .take (by simp [hk]) fun _ => .pure fun _ _ => .none hk
  · refine .take (by simp [hk]) fun _ => (Yields.variableDeclaration hr).bind fun s => .pure ?_
    rintro us ts h -
    obtain ⟨h, name, init, rfl⟩ := h t rfl hk
    exact .declaration h
  · refine .take (by simp [hk]) fun _ => (Yields.variableDeclaration hr).bind fun s => .pure ?_
    rintro us ts h -
    obtain ⟨h, name, init, rfl⟩ := h t rfl hk
    exact .declaration h
  · refine (Yields.expressionRule hr).bind fun e => Yields.expectSymbol.bind fun _ => .pure ?_
    rintro us vs ⟨q, rfl, hq⟩ xs he ts ⟨rfl, hs⟩
    obtain ⟨t', ts, rfl, -⟩ := he.head
    obtain rfl := seen_cons.mp hs
    exact .expression he hq

theorem Yields.optionalBefore {close : Symbol} : Yields (optionalBefore rules close) Clause := by
  refine Yields.check.bind fun b => .ite (fun _ => .pure ?_) fun _ => ?_
  · rintro us ts ⟨rfl, -⟩
    exact .none
  · refine (Yields.expressionRule hr).bind fun e => .pure ?_
    rintro us vs h ts ⟨rfl, -⟩
    exact .some h

theorem Yields.forLoop {p : Position} : Yields (forLoop rules p) fun ts s rest =>
    ∀ w : Token, w.position = p → w.kind = .keyword .forWord → Statement (w :: ts) s rest := by
  refine Yields.expectSymbol.bind fun _ => (Yields.loopStart hr).bind fun init =>
    (Yields.optionalBefore hr).bind fun test => Yields.expectSymbol.bind fun _ =>
    (Yields.optionalBefore hr).bind fun step => Yields.expectSymbol.bind fun _ =>
    hr.statement.bind fun body => .pure ?_
  rintro us vs ⟨hbody, dbody⟩ xs ⟨r, rfl, hr⟩ ys hstep zs ⟨q, rfl, hq⟩ as htest bs hinit
    ts ⟨l, rfl, hl⟩ w rfl hw
  exact .forLoop hw hl hinit htest hq hstep hr hbody dbody

theorem Yields.foreachLoop {p : Position} : Yields (foreachLoop rules p) fun ts s rest =>
    ∀ w : Token, w.position = p → w.kind = .keyword .foreachWord → Statement (w :: ts) s rest := by
  unfold Parser.foreachLoop
  refine Yields.expectSymbol.bind fun _ => .acceptAny (by simp) <| Yields.expectName.bind fun x =>
    Yields.peek.bind fun c => .ite (fun hc => ?_) fun _ => ?_
  · simp only [Bool.and_eq_true, decide_eq_true_eq] at hc
    refine .take (by simp [hc.1]) fun _ => (Yields.expressionRule hr).bind fun items =>
      Yields.expectSymbol.bind fun _ => hr.statement.bind fun body => .pure ?_
    rintro us vs ⟨hbody, dbody⟩ xs ⟨r, rfl, hr⟩ ys hitems - ts ⟨rfl, hx⟩
    refine ⟨?_, fun o ho => ?_⟩ <;> rintro zs ⟨l, rfl, hl⟩ w rfl hw
    · exact .foreachLoop hw hl (.plain hx (.inr hc)) hitems hr hbody dbody
    · exact .foreachLoop hw hl (.declared ho hx (.inr hc)) hitems hr hbody dbody
  · refine Yields.expectSymbol.bind fun _ => (Yields.expressionRule hr).bind fun items =>
      Yields.expectSymbol.bind fun _ => hr.statement.bind fun body => .pure ?_
    rintro us vs ⟨hbody, dbody⟩ xs ⟨r, rfl, hr⟩ ys hitems zs ⟨c, rfl, hc⟩ as ⟨rfl, -⟩ ts ⟨rfl, hx⟩
    refine ⟨?_, fun o ho => ?_⟩ <;> rintro zs ⟨l, rfl, hl⟩ w rfl hw
    · exact .foreachLoop hw hl (.plain hx (.inl hc)) hitems hr hbody dbody
    · exact .foreachLoop hw hl (.declared ho hx (.inl hc)) hitems hr hbody dbody

theorem Yields.returnStatement {p : Position} : Yields (returnStatement rules p) fun ts s rest =>
    ∀ w : Token, w.position = p → w.kind = .keyword .returnWord → Statement (w :: ts) s rest := by
  unfold Parser.returnStatement
  simp only [pure_bind]
  refine Yields.check.bind fun a => Yields.check.bind fun b => Yields.atEnd.bind fun c =>
    .ite (fun _ => ?_) fun _ => ?_
  · refine Yields.expectTerminator.bind fun _ => .pure ?_
    rintro us vs ht xs ⟨rfl, -⟩ ys ⟨rfl, -⟩ ts ⟨rfl, -⟩ w rfl hw
    exact .returnNothing hw ht
  · refine (Yields.expressionRule hr).bind fun value => Yields.expectTerminator.bind fun _ => .pure ?_
    rintro us vs ht xs he ys ⟨rfl, -⟩ zs ⟨rfl, -⟩ ts ⟨rfl, -⟩ w rfl hw
    exact .returnValue hw he ht

theorem Yields.statement {fuel : Nat} : Yields (statement rules fuel) fun ts s rest =>
    Statement ts s rest ∧ s.isDeclaration = false := by
  have hs : ∀ {t : Token} {us rest : List Token} {s : Stmt}, t.kind.startsDeclaration = false →
      Statement (t :: us) s rest → Statement (t :: us) s rest ∧ s.isDeclaration = false :=
    fun ht h => ⟨h, h.isDeclaration_eq.trans ht⟩
  refine Yields.peek.bind fun t => ?_
  dsimp only
  split <;> rename_i hk
  · exact .take (by simp [hk]) fun _ => (Yields.conditional hr).mono fun _ _ _ h _ =>
      hs (by rw [hk]; rfl) (h t rfl hk)
  · exact .take (by simp [hk]) fun _ => (Yields.whileLoop hr).mono fun _ _ _ h _ =>
      hs (by rw [hk]; rfl) (h t rfl hk)
  · exact .take (by simp [hk]) fun _ => (Yields.forLoop hr).mono fun _ _ _ h _ =>
      hs (by rw [hk]; rfl) (h t rfl hk)
  · exact .take (by simp [hk]) fun _ => (Yields.foreachLoop hr).mono fun _ _ _ h _ =>
      hs (by rw [hk]; rfl) (h t rfl hk)
  · exact .take (by simp [hk]) fun _ => (Yields.returnStatement hr).mono fun _ _ _ h _ =>
      hs (by rw [hk]; rfl) (h t rfl hk)
  · exact .take (by simp [hk]) fun _ => Yields.expectTerminator.bind fun _ => .pure fun _ _ h _ =>
      ⟨.breakStmt hk h, rfl⟩
  · exact .take (by simp [hk]) fun _ => Yields.expectTerminator.bind fun _ => .pure fun _ _ h _ =>
      ⟨.continueStmt hk h, rfl⟩
  · refine .take (by simp [hk]) fun _ => (Yields.block hr).bind fun body => .pure ?_
    rintro us ts ⟨r, hr, h⟩ -
    exact ⟨.block hk h hr, rfl⟩
  · rename_i hb
    refine (Yields.expression hr).bind fun e => Yields.expectTerminator.bind fun _ => .pure ?_
    rintro us vs ht xs ⟨he, -⟩ ts ⟨rfl, hs⟩
    obtain ⟨t', ts, rfl, -⟩ := he.head
    obtain rfl := seen_cons.mp hs
    exact ⟨.expression hk he ht, rfl⟩

theorem Yields.declaration {fuel : Nat} : Yields (declaration rules fuel) Statement := by
  refine Yields.peek.bind fun t => ?_
  dsimp only
  split <;> rename_i hk
  · exact .take (by simp [hk]) fun _ => (Yields.variableDeclaration hr).mono fun _ _ _ h _ =>
      (h t rfl hk).1
  · exact .take (by simp [hk]) fun _ => (Yields.variableDeclaration hr).mono fun _ _ _ h _ =>
      (h t rfl hk).1
  · exact .take (by simp [hk]) fun _ => (Yields.routine hr).bind fun r => .pure fun _ _ h _ =>
      .function hk h
  · exact .take (by simp [hk]) fun _ => (Yields.classDefinition hr).mono fun _ _ _ h _ => h t rfl hk
  · refine (Yields.statement hr).mono ?_
    rintro us s rest h ts ⟨rfl, -⟩
    exact h.1

end

/-! ## Programs -/

/-- The parsers of all rules are sound, whatever the bound. -/
theorem rulesSound_parse (fuel : Nat) : RulesSound (fun rule s => Rule.parse fuel rule s) := by
  induction fuel with
  | zero =>
    exact ⟨.throw, fun _ _ _ => .throw, .throw, .throw, .throw⟩
  | succ fuel ih =>
    exact ⟨.expression ih, fun _ h₁ h₈ => .operand ih h₁ h₈, .unary ih, .declaration ih, .statement ih⟩

theorem Yields.program {rules : Rules} (hr : RulesSound rules) (fuel : Nat) :
    Yields (program rules fuel) fun ts ss rest => Sequence Statement ts ss rest ∧ rest = [] := by
  induction fuel with
  | zero => exact .throw
  | succ fuel ih =>
    refine Yields.atEnd.bind fun b => .ite (fun hb => .pure ?_) fun _ => ?_
    · rintro us ts ⟨rfl, h⟩
      exact ⟨.nil, h.mp hb⟩
    · refine hr.declaration.recovering.bind fun first => ih.bind fun rest => .pure ?_
      rintro us vs ⟨hrest, he⟩ xs ⟨s, rfl, hs⟩ ts ⟨rfl, -⟩
      exact ⟨.cons hs hrest, he⟩

end Scriptlet.Parser
