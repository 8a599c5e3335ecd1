import Scriptlet.Proofs.Syntax.Completeness
import Scriptlet.Proofs.Syntax.Seams
import Scriptlet.Proofs.Syntax.Soundness

/-!
# The search for a lambda finds what the parser reads

Before an opening parenthesis the parser looks ahead for the arrow of a lambda and
then either reads a lambda or a group. The search and the parser of parameters are
two loops over the same tokens. They are compared by way of the grammar: the search
succeeds exactly if the tokens begin with parameters and an arrow
(`startsLambda_iff_parameters`), and these the parser reads (`Reads.lambdaHead`) and
nothing else (`lambdaHead_sound`).

Reading the head of a lambda is the first half of `Parser.lambda`; the second half
reads its body (`lambda_eq`).
-/

namespace Scriptlet

/-- The kinds of the tokens of `(`, `n` names with a comma between any two, `)` and `=>`. -/
def lambdaHeadKinds (n : Nat) : List TokenKind :=
  .symbol .leftParen :: (List.replicate n .identifier).intersperse (.symbol .comma) ++
    [.symbol .rightParen, .symbol .arrow]

namespace Parser

/-- The head of a lambda: its parameters and the arrow. -/
def lambdaHead (fuel : Nat) : Parser (List String) := do
  let params ← parameters fuel
  expectSymbol .arrow "after lambda parameters"
  return params

/-- A lambda after its head. -/
def lambdaBody (rules : Rules) (fuel : Nat) (position : Position) (params : List String) :
    Parser Expr := do
  let body ←
    if ← accept (.symbol .leftBrace) then block rules fuel
    else
      let value ← rules .expression
      pure [.returnStmt value.position (some value)]
  return .lambda position ⟨lambdaName, params, body, position⟩

/-- An expression in parentheses. -/
def grouping (rules : Rules) (position : Position) : Parser Expr := do
  let _ ← advance
  let inner ← rules .expression
  expectSymbol .rightParen "after expression"
  return .group position inner

theorem lambda_eq (rules : Rules) (fuel : Nat) (s : ParserState) :
    lambda rules fuel s = (lambdaHead fuel >>= lambdaBody rules fuel s.next.position) s := by
  unfold lambda lambdaHead
  simp only [bind_assoc, pure_bind]
  rfl

/-- Before an opening parenthesis the search decides what is read. -/
theorem primary_leftParen (rules : Rules) (fuel : Nat) {s : ParserState}
    (h : s.next.kind = .symbol .leftParen) :
    primary rules fuel s =
      if startsLambda s.rest then lambda rules fuel s else grouping rules s.next.position s := by
  have hpeek : peek s = .ok s.next s := rfl
  have hget : (get : Parser ParserState) s = .ok s s := rfl
  unfold primary
  rw [bind_apply, hpeek]
  simp only [h]
  rw [bind_apply, hget]
  dsimp only
  split <;> rfl

end Parser

namespace Grammar

/-! ## What the search finds -/

theorem cons_isPrefix_kinds {k : TokenKind} {ks : List TokenKind} {ts : List Token}
    (h : k :: ks <+: ts.map Token.kind) :
    ∃ t us, ts = t :: us ∧ t.kind = k ∧ ks <+: us.map Token.kind := by
  cases ts with
  | nil => simp at h
  | cons t us =>
    rw [List.map_cons, List.cons_prefix_cons] at h
    exact ⟨t, us, rfl, h.1.symm, h.2⟩

theorem namesThenArrow_of_kinds (n : Nat) {ts : List Token}
    (h : (List.replicate (n + 1) .identifier).intersperse (.symbol .comma) ++
      [.symbol .rightParen, .symbol .arrow] <+: ts.map Token.kind) : namesThenArrow ts = true := by
  induction n generalizing ts with
  | zero =>
    obtain ⟨x, us, rfl, hx, h⟩ := cons_isPrefix_kinds h
    obtain ⟨r, us, rfl, hr, h⟩ := cons_isPrefix_kinds h
    obtain ⟨a, us, rfl, ha, -⟩ := cons_isPrefix_kinds h
    simp [Parser.namesThenArrow_cons_cons, hx, hr, ha]
  | succ n ih =>
    obtain ⟨x, us, rfl, hx, h⟩ := cons_isPrefix_kinds h
    obtain ⟨c, us, rfl, hc, h⟩ := cons_isPrefix_kinds h
    simp [Parser.namesThenArrow_cons_cons, hx, hc, ih h]

theorem startsLambda_of_kinds {n : Nat} {ts : List Token}
    (h : lambdaHeadKinds n <+: ts.map Token.kind) : startsLambda ts = true := by
  obtain ⟨l, us, rfl, hl, h⟩ := cons_isPrefix_kinds h
  rw [Parser.startsLambda_cons]
  cases n with
  | zero =>
    obtain ⟨r, us, rfl, hr, h⟩ := cons_isPrefix_kinds h
    obtain ⟨a, us, rfl, ha, -⟩ := cons_isPrefix_kinds h
    simp [hl, hr, ha]
  | succ n => simp [hl, namesThenArrow_of_kinds n h]

theorem commas_of_namesThenArrow : {ts : List Token} → namesThenArrow ts = true →
    ∃ params r a rest, Commas Parameter ts params (r :: a :: rest) ∧
      r.kind = .symbol .rightParen ∧ a.kind = .symbol .arrow
  | [], h => by cases h
  | [t], h => by
    by_cases ht : t.kind = .identifier
    · obtain ⟨k, l, p⟩ := t
      cases ht
      cases h
    · rw [Parser.namesThenArrow_cons_of_ne [] ht] at h
      cases h
  | x :: t :: ts, h => by
    rw [Parser.namesThenArrow_cons_cons, Bool.and_eq_true, decide_eq_true_eq, Bool.or_eq_true,
      Bool.and_eq_true, Bool.and_eq_true, decide_eq_true_eq, decide_eq_true_eq] at h
    obtain ⟨hx, ⟨hcomma, hmore⟩ | ⟨hr, harrow⟩⟩ := h
    · obtain ⟨params, r, a, rest, hnames, hr, ha⟩ := commas_of_namesThenArrow hmore
      exact ⟨_, r, a, rest, .more (.mk hx) hcomma hnames, hr, ha⟩
    · cases ts with
      | nil => cases harrow
      | cons a rest => exact ⟨_, t, a, rest, .one (.mk hx), hr, of_decide_eq_true harrow⟩

/-- The search succeeds exactly before parameters and an arrow. -/
theorem startsLambda_iff_parameters {ts : List Token} :
    startsLambda ts = true ↔
      ∃ params a rest, Parameters ts params (a :: rest) ∧ a.kind = .symbol .arrow := by
  refine ⟨fun h => ?_, fun ⟨params, a, rest, h, ha⟩ => startsLambda_of_parameters h ha⟩
  cases ts with
  | nil => cases h
  | cons l ts =>
    rw [Parser.startsLambda_cons, Bool.and_eq_true, decide_eq_true_eq, Bool.or_eq_true] at h
    obtain ⟨hl, hempty | hnames⟩ := h
    · rcases ts with _ | ⟨r, _ | ⟨a, rest⟩⟩
      · cases hempty
      · simp at hempty
      · obtain ⟨hr, ha⟩ : r.kind = .symbol .rightParen ∧ a.kind = .symbol .arrow := by
          simpa using hempty
        exact ⟨[], a, rest, .none hl hr, ha⟩
    · obtain ⟨params, r, a, rest, hnames, hr, ha⟩ := commas_of_namesThenArrow hnames
      exact ⟨params, a, rest, .some hl hnames hr, ha⟩

theorem kinds_of_commas {ts rest : List Token} {params : List String}
    (h : Commas Parameter ts params rest) : ∃ n, params.length = n + 1 ∧
      ts.map Token.kind =
        (List.replicate (n + 1) .identifier).intersperse (.symbol .comma) ++ rest.map Token.kind := by
  induction h with
  | one h =>
    obtain ⟨hx⟩ := h
    exact ⟨0, rfl, by simp [hx]⟩
  | more h hc _ ih =>
    obtain ⟨hx⟩ := h
    obtain ⟨n, hn, e⟩ := ih
    refine ⟨n + 1, by simp [hn], ?_⟩
    simp only [List.map_cons, hx, hc, e]
    rfl

/-- The kinds of the tokens that parameters and an arrow stand for. -/
theorem kinds_of_parameters {ts rest : List Token} {params : List String} {a : Token}
    (h : Parameters ts params (a :: rest)) (ha : a.kind = .symbol .arrow) :
    lambdaHeadKinds params.length ++ rest.map Token.kind = ts.map Token.kind := by
  cases h with
  | none hl hr => simp [lambdaHeadKinds, hl, hr, ha]
  | some hl h hr =>
    obtain ⟨n, hn, e⟩ := kinds_of_commas h
    simp [lambdaHeadKinds, hn, e, hl, hr, ha]

/-- A lambda of the grammar begins with its head. -/
theorem Expression.startsLambda {ts rest : List Token} {p : Position} {r : Routine}
    (h : Expression ts (.lambda p r) rest) : startsLambda ts = true := by
  cases h with
  | lambda h ha | lambdaReturning h ha => exact startsLambda_of_parameters h ha

end Grammar

namespace Parser

open Grammar

/-! ## What the parser of the head reads -/

/-- Where `p` succeeds it records no mistake. -/
def KeepsMistakes {α : Type} (p : Parser α) : Prop :=
  ∀ s a s', p s = .ok a s' → s'.mistakes = s.mistakes

namespace KeepsMistakes

variable {α β : Type}

theorem pure {a : α} : KeepsMistakes (Pure.pure a) := by
  rintro s _ _ ⟨⟩
  rfl

theorem bind {p : Parser α} {f : α → Parser β} (hp : KeepsMistakes p)
    (hf : ∀ a, KeepsMistakes (f a)) : KeepsMistakes (p >>= f) := by
  intro s b s' h
  rw [bind_apply] at h
  cases hs : p s with
  | error e s₁ => rw [hs] at h; cases h
  | ok a s₁ =>
    rw [hs] at h
    exact (hf a s₁ b s' h).trans (hp s a s₁ hs)

theorem check {k : TokenKind} : KeepsMistakes (check k) := by
  rintro s _ _ ⟨⟩
  rfl

theorem accept {k : TokenKind} : KeepsMistakes (accept k) := by
  intro s b s' h
  rw [accept_apply] at h
  split at h <;> cases h <;> rfl

theorem expect {k : TokenKind} {e : Expectation} : KeepsMistakes (expect k e) := by
  intro s t s' h
  rw [expect_apply] at h
  split at h <;> cases h
  rfl

theorem commaList {item : Parser α} (hi : KeepsMistakes item) (fuel : Nat) :
    KeepsMistakes (commaList item fuel) := by
  induction fuel with
  | zero => rintro s _ _ ⟨⟩
  | succ fuel ih =>
    refine hi.bind fun a => accept.bind fun b => ?_
    cases b with
    | true => exact ih.bind fun as => pure
    | false => exact pure

theorem expectSymbol {k : Symbol} {place : String} : KeepsMistakes (expectSymbol k place) :=
  expect.bind fun _ => pure

theorem parameters {fuel : Nat} : KeepsMistakes (parameters fuel) := by
  refine expectSymbol.bind fun _ => check.bind fun b => ?_
  cases b with
  | true => exact pure.bind fun _ => expectSymbol.bind fun _ => pure
  | false =>
    exact (commaList (expect.bind fun _ => pure) fuel).bind fun _ => expectSymbol.bind fun _ => pure

theorem lambdaHead {fuel : Nat} : KeepsMistakes (lambdaHead fuel) :=
  parameters.bind fun _ => expectSymbol.bind fun _ => pure

end KeepsMistakes

/-- What the parser of the head accepts are parameters and an arrow. -/
theorem lambdaHead_sound {fuel : Nat} {s s' : ParserState} {params : List String}
    (hend : s.endToken.kind = .endOfInput) (h : lambdaHead fuel s = .ok params s') :
    ∃ a, a.kind = .symbol .arrow ∧ Parameters s.rest params (a :: s'.rest) := by
  have hy : Yields (lambdaHead fuel) fun ts params rest =>
      ∃ a, a.kind = .symbol .arrow ∧ Parameters ts params (a :: rest) := by
    refine Yields.parameters.bind fun params => Yields.expectSymbol.bind fun _ => .pure ?_
    rintro us vs ⟨a, rfl, ha⟩ ts hp
    exact ⟨a, ha, hp⟩
  have hy := hy s hend
  rw [h] at hy
  exact hy.2 (KeepsMistakes.lambdaHead s params s' h)

theorem Reads.lambdaHead {fuel : Nat} {ts rest : List Token} {params : List String} {a : Token}
    (h : Parameters ts params (a :: rest)) (ha : a.kind = .symbol .arrow) (hf : ts.length < fuel) :
    Reads (lambdaHead fuel) ts params rest :=
  (Reads.parameters h hf).bind ((Reads.expectSymbol ha).bind .pure)

end Parser

/-- Before an opening parenthesis, with a bound that exceeds the number of unread tokens: the search
for a lambda succeeds exactly if the tokens are of the kinds of a lambda's head, and exactly if its
head can be read. If it succeeds, the head is read without a mistake and all that is left is the
body. If it fails, a group is read, and the tokens begin with no lambda: neither does its parser
accept them, with whatever bound, nor does the grammar derive one. -/
theorem lambda_lookahead {s : ParserState} {fuel : Nat} (hend : s.endToken.kind = .endOfInput)
    (hopen : s.next.kind = .symbol .leftParen) (hfuel : s.rest.length < fuel) :
    (startsLambda s.rest = true ↔ ∃ n, lambdaHeadKinds n <+: s.rest.map Token.kind) ∧
    (startsLambda s.rest = true ↔ ∃ params s', Parser.lambdaHead fuel s = .ok params s') ∧
    (startsLambda s.rest = true → ∃ params a rest,
      Grammar.Parameters s.rest params (a :: rest) ∧ a.kind = .symbol .arrow ∧
      Parser.lambdaHead fuel s = .ok params { s with rest := rest } ∧
      ∀ rules : Rules, Parser.primary rules fuel s =
        Parser.lambdaBody rules fuel s.next.position params { s with rest := rest }) ∧
    (startsLambda s.rest = false →
      (∀ rules : Rules, Parser.primary rules fuel s = Parser.grouping rules s.next.position s) ∧
      (∀ (rules : Rules) (bound : Nat) e s', Parser.lambda rules bound s ≠ .ok e s') ∧
      ∀ p r rest, ¬ Grammar.Expression s.rest (.lambda p r) rest) := by
  have hread : ∀ {params a rest}, Grammar.Parameters s.rest params (a :: rest) →
      a.kind = .symbol .arrow → Parser.lambdaHead fuel s = .ok params { s with rest := rest } :=
    fun hp ha => Parser.Reads.lambdaHead hp ha hfuel s hend rfl
  have hsound : ∀ {bound params s'}, Parser.lambdaHead bound s = .ok params s' →
      startsLambda s.rest = true := by
    intro bound params s' h
    obtain ⟨a, ha, hp⟩ := Parser.lambdaHead_sound hend h
    exact Grammar.startsLambda_of_parameters hp ha
  refine ⟨⟨fun h => ?_, fun ⟨n, h⟩ => Grammar.startsLambda_of_kinds h⟩,
    ⟨fun h => ?_, fun ⟨params, s', h⟩ => hsound h⟩, fun h => ?_, fun h => ⟨fun rules => ?_, ?_, ?_⟩⟩
  · obtain ⟨params, a, rest, hp, ha⟩ := Grammar.startsLambda_iff_parameters.mp h
    exact ⟨params.length, _, Grammar.kinds_of_parameters hp ha⟩
  · obtain ⟨params, a, rest, hp, ha⟩ := Grammar.startsLambda_iff_parameters.mp h
    exact ⟨params, _, hread hp ha⟩
  · obtain ⟨params, a, rest, hp, ha⟩ := Grammar.startsLambda_iff_parameters.mp h
    refine ⟨params, a, rest, hp, ha, hread hp ha, fun rules => ?_⟩
    rw [Parser.primary_leftParen rules fuel hopen, if_pos h, Parser.lambda_eq, Parser.bind_apply,
      hread hp ha]
  · rw [Parser.primary_leftParen rules fuel hopen, h, if_neg Bool.false_ne_true]
  · intro rules bound e s' hl
    rw [Parser.lambda_eq, Parser.bind_apply] at hl
    cases hh : Parser.lambdaHead bound s with
    | error e s₁ => rw [hh] at hl; cases hl
    | ok params s₁ => exact Bool.false_ne_true (h.symm.trans (hsound hh))
  · exact fun p r rest he => Bool.false_ne_true (h.symm.trans he.startsLambda)

/-- A state before the tokens of `(x, y) => x`. -/
def ParserState.beforePair : ParserState where
  rest := [⟨.symbol .leftParen, "(", .start⟩, ⟨.identifier, "x", ⟨1, 2⟩⟩, ⟨.symbol .comma, ",", ⟨1, 3⟩⟩,
    ⟨.identifier, "y", ⟨1, 5⟩⟩, ⟨.symbol .rightParen, ")", ⟨1, 6⟩⟩, ⟨.symbol .arrow, "=>", ⟨1, 8⟩⟩,
    ⟨.identifier, "x", ⟨1, 11⟩⟩]
  endToken := ⟨.endOfInput, "", ⟨1, 12⟩⟩
  blockDepth := 0
  mistakes := []

/-- The same tokens, cut off after the comma. -/
def ParserState.beforeCut : ParserState :=
  { ParserState.beforePair with rest := ParserState.beforePair.rest.take 3 }

/-- All of the tokens begin a lambda with two parameters; cut off after a comma they begin a group. -/
theorem lambda_lookahead_sample :
    (∃ n, lambdaHeadKinds n <+: ParserState.beforePair.rest.map Token.kind) ∧
    (∃ params s', Parser.lambdaHead 8 .beforePair = .ok params s') ∧
    ∀ rules : Rules, Parser.primary rules 4 .beforeCut = Parser.grouping rules .start .beforeCut := by
  have hpair := @lambda_lookahead .beforePair 8 rfl rfl (by decide)
  have hcut := @lambda_lookahead .beforeCut 4 rfl rfl (by decide)
  have hstarts : startsLambda ParserState.beforePair.rest = true := rfl
  exact ⟨hpair.1.mp hstarts, hpair.2.1.mp hstarts, (hcut.2.2.2 rfl).1⟩

end Scriptlet
