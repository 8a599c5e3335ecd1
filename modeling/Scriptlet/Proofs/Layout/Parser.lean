import Scriptlet.Proofs.Layout.Move
import Scriptlet.Proofs.Syntax.Mistakes

/-!
# Parsing follows a move of the tokens

The parser decides by the kinds and the texts of tokens only, and takes positions over as
they are. So what it reads from tokens at other positions is what it reads from the tokens
themselves, at other positions: the same trees, and the same mistakes in the same order
(`Reading.ofTokens_move`). There is one lemma for each of the parser's smallest steps and
for each rule.
-/

namespace Scriptlet

open Scriptlet.Parser

instance : Movable Abort where
  move ρ
    | .mistake e => .mistake (move ρ e)
    | .exhausted => .exhausted

instance : Movable ParserState where
  move ρ s := ⟨move ρ s.rest, move ρ s.endToken, s.blockDepth, move ρ s.mistakes⟩

variable {ρ : Position → Position}

/-! ## Looking at tokens -/

theorem ParserState.next_move (s : ParserState) : (move ρ s).next = move ρ s.next := by
  obtain ⟨rest, endToken, depth, mistakes⟩ := s
  cases rest <;> rfl

theorem namesThenArrow_move (ts : List Token) : namesThenArrow (move ρ ts) = namesThenArrow ts := by
  fun_induction namesThenArrow ts with
  | case1 _ _ _ _ rest ih => exact ih
  | case2 => rfl
  | case3 ts hmore hlast =>
    rw [namesThenArrow.eq_def]
    split
    · rename_i heq
      rcases ts with _ | ⟨⟨k, l, p⟩, _ | ⟨⟨k', l', p'⟩, ts⟩⟩ <;> cases heq
      exact absurd rfl (hmore _ _ _ _ _)
    · rename_i heq
      rcases ts with _ | ⟨⟨k, l, p⟩, _ | ⟨⟨k', l', p'⟩, _ | ⟨⟨k'', l'', p''⟩, ts⟩⟩⟩ <;> cases heq
      exact absurd rfl (hlast _ _ _ _ _ _ _)
    · rfl

theorem startsLambda_move (ts : List Token) : startsLambda (move ρ ts) = startsLambda ts := by
  fun_cases startsLambda ts with
  | case1 => rfl
  | case2 l p rest hempty =>
    rw [← namesThenArrow_move (ρ := ρ) rest, startsLambda.eq_def]
    split
    · rename_i heq
      rcases rest with _ | ⟨⟨k, l, p⟩, _ | ⟨⟨k', l', p'⟩, ts⟩⟩ <;> cases heq
      exact absurd rfl (hempty _ _ _ _ _)
    · rename_i heq
      cases heq
      rfl
    · rename_i hother
      exact absurd rfl (hother _ _ _)
  | case3 ts hempty hother =>
    have hhead (l : String) (p : Position) (rest : List Token) :
        move ρ ts ≠ ⟨.symbol .leftParen, l, p⟩ :: rest := by
      intro heq
      rcases ts with _ | ⟨⟨k, l, p⟩, ts⟩
      · cases heq
      · injection heq with heq
        cases heq
        exact hother _ _ _ rfl
    rw [startsLambda.eq_def]
    split
    · exact absurd ‹_› (hhead _ _ _)
    · exact absurd ‹_› (hhead _ _ _)
    · rfl

theorem resume_move (inBlock : Bool) (ts : List Token) :
    resume inBlock (move ρ ts) = move ρ (resume inBlock ts) := by
  induction ts with
  | nil => rfl
  | cons t ts ih =>
    rw [move_cons]
    unfold resume
    rw [Token.kind_move]
    split
    · rfl
    · split
      · rfl
      · exact ih

theorem numberLiteral?_move (t : Token) :
    numberLiteral? (move ρ t) = move ρ (numberLiteral? t) := by
  have hlexeme : (move ρ t).lexeme = t.lexeme := rfl
  unfold numberLiteral?
  rw [hlexeme]
  dsimp only
  have hfloat : (Number.readFloat? t.lexeme).map (Expr.float (move ρ t).position) =
      move ρ ((Number.readFloat? t.lexeme).map (Expr.float t.position)) := by
    cases Number.readFloat? t.lexeme <;> rfl
  split
  · exact hfloat
  · cases Number.readInteger? t.lexeme with
    | none => exact hfloat
    | some n => rfl

theorem Infix.join_move (op : Infix) (l r : Expr) :
    op.join (move ρ l) (move ρ r) = move ρ (op.join l r) := by
  cases op <;> simp only [Infix.join, Expr.position_move] <;> rfl

/-! ## The smallest steps -/

/-- The parsers of the rules follow the move. -/
structure RulesFollow (ρ : Position → Position) (rules : Rules) : Prop where
  expression : Follows ρ (rules .expression) (rules .expression)
  operand (level : Nat) : Follows ρ (rules (.operand level)) (rules (.operand level))
  unary : Follows ρ (rules .unary) (rules .unary)
  declaration : Follows ρ (rules .declaration) (rules .declaration)
  statement : Follows ρ (rules .statement) (rules .statement)

namespace Follows

variable {α β : Type} [Movable α] [Movable β]

theorem exhausted : Follows ρ (throw .exhausted : Parser α) (throw .exhausted) := .raise _

theorem mistake (e : Expectation) (t : Token) :
    Follows ρ (throw (.mistake ⟨e, t⟩) : Parser α) (throw (.mistake ⟨e, move ρ t⟩)) := .raise _

theorem peek : Follows ρ Parser.peek Parser.peek := fun s =>
  congrArg (EStateM.Result.ok · (move ρ s)) s.next_move

theorem atEnd : Follows ρ Parser.atEnd Parser.atEnd := by
  rintro ⟨rest, endToken, depth, mistakes⟩
  cases rest <;> rfl

theorem advance : Follows ρ Parser.advance Parser.advance := by
  rintro ⟨rest, endToken, depth, mistakes⟩
  cases rest <;> rfl

theorem modifyDepth (f : Nat → Nat) : Follows ρ
    (modify fun s => { s with blockDepth := f s.blockDepth } : Parser Unit)
    (modify fun s => { s with blockDepth := f s.blockDepth }) := .change fun _ => rfl

theorem check (k : TokenKind) : Follows ρ (Parser.check k) (Parser.check k) :=
  peek.bind fun _ => .pure _

theorem accept (k : TokenKind) : Follows ρ (Parser.accept k) (Parser.accept k) :=
  (check k).bind fun _ => .ite (advance.bind fun _ => .pure _) (.pure _)

theorem failHere (e : Expectation) :
    Follows ρ (Parser.failHere e : Parser α) (Parser.failHere e) :=
  peek.bind fun t => mistake e t

theorem expect (k : TokenKind) (e : Expectation) :
    Follows ρ (Parser.expect k e) (Parser.expect k e) :=
  (check k).bind fun _ => .ite advance (failHere e)

theorem expectSymbol (s : Symbol) (place : String) :
    Follows ρ (Parser.expectSymbol s place) (Parser.expectSymbol s place) :=
  (expect _ _).bind fun _ => .pure _

theorem expectTerminator (place : String) :
    Follows ρ (Parser.expectTerminator place) (Parser.expectTerminator place) :=
  (accept _).bind fun _ => .ite (.pure _) <| (check _).bind fun _ => .ite (.pure _) <|
    atEnd.bind fun _ => .ite (.pure _) (failHere _)

theorem commaList {item : Parser α} (hi : Follows ρ item item) (fuel : Nat) :
    Follows ρ (Parser.commaList item fuel) (Parser.commaList item fuel) := by
  induction fuel with
  | zero => exact exhausted
  | succ fuel ih =>
    exact hi.bind fun _ => (accept _).bind fun _ => .ite (ih.bind fun _ => .pure _) (.pure _)

theorem looseCommaList {item : Parser α} (hi : Follows ρ item item) (close : Symbol) (fuel : Nat) :
    Follows ρ (Parser.looseCommaList close item fuel) (Parser.looseCommaList close item fuel) := by
  induction fuel with
  | zero => exact exhausted
  | succ fuel ih =>
    refine (check _).bind fun _ => .ite (.pure _) <| hi.bind fun _ => (accept _).bind fun _ => ?_
    exact .ite (ih.bind fun _ => .pure _) (.pure _)

theorem itemsToBrace {item : Parser α} (hi : Follows ρ item item) (fuel : Nat) :
    Follows ρ (Parser.itemsToBrace item fuel) (Parser.itemsToBrace item fuel) := by
  induction fuel with
  | zero => exact exhausted
  | succ fuel ih =>
    refine (check _).bind fun _ => atEnd.bind fun _ => .ite (.pure _) <| hi.bind fun _ => ?_
    exact ih.bind fun _ => .pure _

theorem parameters (fuel : Nat) : Follows ρ (Parser.parameters fuel) (Parser.parameters fuel) := by
  have hname : Follows ρ (do return (← Parser.expectName "parameter name").lexeme)
      (do return (← Parser.expectName "parameter name").lexeme) := (expect _ _).bind fun _ => .pure _
  unfold Parser.parameters
  refine (expectSymbol _ _).bind fun _ => (check _).bind fun _ => .ite ?_ ?_
  · exact (expectSymbol _ _).bind fun _ => .pure []
  · exact (commaList hname fuel).bind fun _ => (expectSymbol _ _).bind fun _ => .pure _

/-- After a mistake, reading resumes at the same place. -/
theorem recovering {item : Parser α} (hi : Follows ρ item item) :
    Follows ρ (Parser.recovering item) (Parser.recovering item) := by
  intro s
  rw [recovering_apply, recovering_apply, hi s]
  cases item s with
  | ok a s₁ => rfl
  | error e s₁ =>
    cases e with
    | exhausted => rfl
    | mistake e =>
      have hrest : resume (0 < s₁.blockDepth) (move ρ s₁.rest) =
        move ρ (resume (0 < s₁.blockDepth) s₁.rest) := resume_move _ _
      exact congrArg (fun rest => EStateM.Result.ok none
        (ParserState.mk rest (move ρ s₁.endToken) s₁.blockDepth (move ρ (e :: s₁.mistakes)))) hrest

/-! ## The rules -/

section

variable {rules : Rules} (hr : RulesFollow ρ rules) (fuel : Nat)
include hr

theorem block : Follows ρ (block rules fuel) (block rules fuel) := by
  refine (modifyDepth (· + 1)).bind fun _ => ?_
  refine (itemsToBrace (recovering hr.declaration) fuel).bind fun body => ?_
  refine (modifyDepth (· - 1)).bind fun _ => (expectSymbol _ _).bind fun _ => ?_
  exact .made (filterMap_id_move ρ body).symm

theorem arguments : Follows ρ (arguments rules fuel) (arguments rules fuel) := by
  unfold Parser.arguments
  refine (check _).bind fun _ => .ite ?_ ?_
  · exact (expectSymbol _ _).bind fun _ => .pure []
  · exact (commaList hr.expression fuel).bind fun _ => (expectSymbol _ _).bind fun _ =>
      .pure _

theorem entry : Follows ρ (entry rules) (entry rules) := by
  refine peek.bind fun t => .ite ?_ (failHere _)
  exact advance.bind fun _ => (expectSymbol _ _).bind fun _ => hr.expression.bind fun _ =>
    .pure _

theorem lambda : Follows ρ (lambda rules fuel) (lambda rules fuel) := by
  have hend (p : Position) (params : List String) (body : List Stmt) :
      Follows ρ (Pure.pure (.lambda p ⟨lambdaName, params, body, p⟩) : Parser Expr)
        (Pure.pure (.lambda (ρ p) ⟨lambdaName, move ρ params, move ρ body, ρ p⟩)) := by
    rw [move_strings]
    exact .made (congrArg (Expr.lambda (ρ p)) (Routine.move_mk ρ lambdaName params body p))
  unfold Parser.lambda
  refine peek.bind fun t => (parameters fuel).bind fun params => (expectSymbol _ _).bind fun _ =>
    (accept _).bind fun _ => .ite ?_ ?_
  · exact (block hr fuel).bind fun body => hend _ _ _
  · refine hr.expression.bind fun value => ?_
    rw [Expr.position_move]
    exact hend _ _ [.returnStmt value.position (some value)]

theorem primary : Follows ρ (primary rules fuel) (primary rules fuel) := by
  refine peek.bind fun t => ?_
  dsimp only
  rw [Token.kind_move]
  split
  · refine advance.bind fun _ => ?_
    rw [numberLiteral?_move]
    cases numberLiteral? t with
    | some e => exact .pure e
    | none => exact mistake _ _
  iterate 6 exact advance.bind fun _ => .pure _
  · refine .look fun s => ?_
    have hstarts : startsLambda (move ρ s).rest = startsLambda s.rest := startsLambda_move s.rest
    rw [hstarts]
    refine .ite (lambda hr fuel) <| advance.bind fun _ => ?_
    exact hr.expression.bind fun _ => (expectSymbol _ _).bind fun _ => .pure _
  · refine advance.bind fun _ => (looseCommaList hr.expression _ fuel).bind fun items =>
      (expectSymbol _ _).bind fun _ => ?_
    exact .made (Expr.move_array ρ t.position items)
  · refine advance.bind fun _ => (looseCommaList (entry hr) _ fuel).bind fun entries =>
      (expectSymbol _ _).bind fun _ => ?_
    exact .made (Expr.move_object ρ t.position entries)
  · exact failHere _

theorem accesses (e : Expr) :
    Follows ρ (accesses rules fuel e) (accesses rules fuel (move ρ e)) := by
  induction fuel generalizing e with
  | zero => exact exhausted
  | succ fuel ih =>
    unfold Parser.accesses
    rw [Expr.position_move]
    refine (accept _).bind fun _ => .ite ?_ <| (accept _).bind fun _ => .ite ?_ <|
      (accept _).bind fun _ => .ite ?_ (.pure _)
    · refine (arguments hr fuel).bind fun args => ?_
      rw [← Expr.move_call]
      exact ih _
    · exact (expect _ _).bind fun _ => ih _
    · exact hr.expression.bind fun _ => (expectSymbol _ _).bind fun _ => ih _

theorem unary : Follows ρ (unary rules fuel) (unary rules fuel) := by
  refine peek.bind fun t => ?_
  rw [Token.kind_move]
  split
  · exact advance.bind fun _ => hr.unary.bind fun _ => .pure _
  · exact (primary hr fuel).bind fun _ => accesses hr fuel _

theorem climb (level : Nat) (left : Expr) :
    Follows ρ (climb rules level fuel left) (climb rules level fuel (move ρ left)) := by
  induction fuel generalizing left with
  | zero => exact exhausted
  | succ fuel ih =>
    refine peek.bind fun t => ?_
    rw [Token.kind_move]
    split
    · refine .ite (.pure _) <| advance.bind fun _ => (hr.operand _).bind fun right => ?_
      rw [Infix.join_move]
      exact ih _
    · exact .pure _

theorem operand (level : Nat) : Follows ρ (operand rules fuel level) (operand rules fuel level) :=
  (unary hr fuel).bind fun _ => climb hr fuel level _

theorem expression : Follows ρ (expression rules fuel) (expression rules fuel) := by
  refine (operand hr fuel 1).bind fun left => (check _).bind fun _ => .ite ?_ (.pure _)
  refine advance.bind fun equals => hr.expression.bind fun value => ?_
  rw [Expr.target?_move, Expr.position_move]
  cases left.target? with
  | some target => exact .pure _
  | none => exact mistake _ _

theorem variableDeclaration (p : Position) (mode : Mode) :
    Follows ρ (variableDeclaration rules p mode) (variableDeclaration rules (ρ p) mode) := by
  have hend (x : Token) (init : Option Expr) : Follows ρ
      (do
        if mode = .constant && init.isNone then
          Parser.failHere (.symbol .equal "after constant name")
        Parser.expectTerminator "after variable declaration"
        return Stmt.declare p mode x.lexeme init)
      (do
        if mode = .constant && (move ρ init).isNone then
          Parser.failHere (.symbol .equal "after constant name")
        Parser.expectTerminator "after variable declaration"
        return Stmt.declare (ρ p) mode x.lexeme (move ρ init)) := by
    have hnone : (move ρ init).isNone = init.isNone := by cases init <;> rfl
    rw [hnone, ← Stmt.move_declare]
    refine .ite ((failHere _).bind fun _ => ?_) ?_
    · exact (expectTerminator _).bind fun _ => .pure _
    · exact (expectTerminator _).bind fun _ => .pure _
  unfold Parser.variableDeclaration
  refine (expect _ _).bind fun x => (accept _).bind fun _ => .ite ?_ (hend x none)
  exact hr.expression.bind fun value => hend x (some value)

theorem routine (what : String) :
    Follows ρ (routine rules fuel what) (routine rules fuel what) := by
  refine (expect _ _).bind fun x => (parameters fuel).bind fun params =>
    (expectSymbol _ _).bind fun _ => (block hr fuel).bind fun body => ?_
  rw [move_strings]
  exact .made (Routine.move_mk ρ x.lexeme params body x.position)

theorem method : Follows ρ (method rules fuel) (method rules fuel) :=
  (accept _).bind fun _ => routine hr fuel _

theorem classDefinition (p : Position) :
    Follows ρ (classDefinition rules fuel p) (classDefinition rules fuel (ρ p)) := by
  refine (expect _ _).bind fun x => (expectSymbol _ _).bind fun _ =>
    (itemsToBrace (method hr fuel) fuel).bind fun methods => (expectSymbol _ _).bind fun _ => ?_
  exact .made (Stmt.move_classDef ρ p x.lexeme methods)

theorem conditional (p : Position) :
    Follows ρ (conditional rules p) (conditional rules (ρ p)) := by
  unfold Parser.conditional
  refine (expectSymbol _ _).bind fun _ => hr.expression.bind fun test =>
    (expectSymbol _ _).bind fun _ => hr.statement.bind fun yes => (accept _).bind fun _ =>
    .ite ?_ (.pure (Stmt.conditional p test yes none))
  exact hr.statement.bind fun no => .pure (Stmt.conditional p test yes (some no))

theorem whileLoop (p : Position) : Follows ρ (whileLoop rules p) (whileLoop rules (ρ p)) :=
  (expectSymbol _ _).bind fun _ => hr.expression.bind fun _ =>
    (expectSymbol _ _).bind fun _ => hr.statement.bind fun _ => .pure _

theorem loopStart : Follows ρ (loopStart rules) (loopStart rules) := by
  refine peek.bind fun t => ?_
  rw [Token.kind_move]
  split
  · exact advance.bind fun _ => .pure none
  · exact advance.bind fun _ => (variableDeclaration hr _ _).bind fun _ => .pure _
  · exact advance.bind fun _ => (variableDeclaration hr _ _).bind fun _ => .pure _
  · exact hr.expression.bind fun _ => (expectSymbol _ _).bind fun _ => .pure _

theorem optionalBefore (close : Symbol) :
    Follows ρ (optionalBefore rules close) (optionalBefore rules close) :=
  (check _).bind fun _ => .ite (.pure none) (hr.expression.bind fun _ => .pure _)

theorem forLoop (p : Position) : Follows ρ (forLoop rules p) (forLoop rules (ρ p)) := by
  refine (expectSymbol _ _).bind fun _ => (loopStart hr).bind fun init =>
    (optionalBefore hr _).bind fun test => (expectSymbol _ _).bind fun _ =>
    (optionalBefore hr _).bind fun next => (expectSymbol _ _).bind fun _ =>
    hr.statement.bind fun body => ?_
  exact .made (Stmt.move_forLoop ρ p init test next body)

theorem foreachLoop (p : Position) : Follows ρ (foreachLoop rules p) (foreachLoop rules (ρ p)) := by
  have hrest (x : Token) : Follows ρ
      (do
        let items ← rules .expression
        Parser.expectSymbol .rightParen "after foreach iterable"
        return Stmt.foreachLoop p x.lexeme items (← rules .statement))
      (do
        let items ← rules .expression
        Parser.expectSymbol .rightParen "after foreach iterable"
        return Stmt.foreachLoop (ρ p) x.lexeme items (← rules .statement)) :=
    hr.expression.bind fun _ => (expectSymbol _ _).bind fun _ =>
      hr.statement.bind fun _ => .pure _
  unfold Parser.foreachLoop
  refine (expectSymbol _ _).bind fun _ => (accept _).bind fun _ => (expect _ _).bind fun x =>
    peek.bind fun _ => .ite ?_ ?_
  · exact advance.bind fun _ => hrest x
  · exact (expectSymbol _ _).bind fun _ => hrest x

theorem returnStatement (p : Position) :
    Follows ρ (returnStatement rules p) (returnStatement rules (ρ p)) := by
  unfold Parser.returnStatement
  refine (check _).bind fun _ => (check _).bind fun _ => atEnd.bind fun _ => .ite ?_ ?_
  · exact (expectTerminator _).bind fun _ => .pure (Stmt.returnStmt p none)
  · exact hr.expression.bind fun value => (expectTerminator _).bind fun _ =>
      .pure (Stmt.returnStmt p (some value))

theorem statement : Follows ρ (statement rules fuel) (statement rules fuel) := by
  refine peek.bind fun t => ?_
  dsimp only
  rw [Token.kind_move]
  split
  · exact advance.bind fun _ => conditional hr _
  · exact advance.bind fun _ => whileLoop hr _
  · exact advance.bind fun _ => forLoop hr _
  · exact advance.bind fun _ => foreachLoop hr _
  · exact advance.bind fun _ => returnStatement hr _
  · exact advance.bind fun _ => (expectTerminator _).bind fun _ => .pure _
  · exact advance.bind fun _ => (expectTerminator _).bind fun _ => .pure _
  · refine advance.bind fun _ => (block hr fuel).bind fun body => ?_
    exact .made (Stmt.move_block ρ t.position body)
  · exact (expression hr fuel).bind fun _ => (expectTerminator _).bind fun _ => .pure _

theorem declaration : Follows ρ (declaration rules fuel) (declaration rules fuel) := by
  refine peek.bind fun t => ?_
  dsimp only
  rw [Token.kind_move]
  split
  · exact advance.bind fun _ => variableDeclaration hr _ _
  · exact advance.bind fun _ => variableDeclaration hr _ _
  · exact advance.bind fun _ => (routine hr fuel _).bind fun _ => .pure _
  · exact advance.bind fun _ => classDefinition hr fuel _
  · exact statement hr fuel

theorem program : Follows ρ (program rules fuel) (program rules fuel) := by
  induction fuel with
  | zero => exact exhausted
  | succ fuel ih =>
    refine atEnd.bind fun _ => .ite (.pure []) <| (recovering hr.declaration).bind
      fun first => ih.bind fun rest => ?_
    exact .made (by cases first <;> rfl)

end

end Follows

theorem rules_follow (ρ : Position → Position) (fuel : Nat) :
    RulesFollow ρ fun rule s => Rule.parse fuel rule s := by
  induction fuel with
  | zero => exact ⟨.exhausted, fun _ => .exhausted, .exhausted, .exhausted, .exhausted⟩
  | succ fuel ih =>
    exact {
      expression := .expression ih (fuel + 1)
      operand := .operand ih (fuel + 1)
      unary := .unary ih (fuel + 1)
      declaration := .declaration ih (fuel + 1)
      statement := .statement ih (fuel + 1) }

/-! ## Lists of tokens -/

instance : Movable TokenStream := ⟨fun ρ s => ⟨move ρ s.tokens, move ρ s.endToken, move ρ s.faults⟩⟩

instance : Movable Reading := ⟨fun ρ r => ⟨move ρ r.statements, move ρ r.faults, move ρ r.mistakes⟩⟩

theorem Token.fault?_move (t : Token) : (move ρ t).fault? = move ρ t.fault? := by
  obtain ⟨kind, lexeme, p⟩ := t
  cases kind <;> rfl

theorem Token.fault?_isNone_move (t : Token) : (move ρ t).fault?.isNone = t.fault?.isNone := by
  rw [Token.fault?_move]
  cases t.fault? <;> rfl

theorem TokenStream.ofTokens_move {ts : List Token} (h : ∃ t ∈ ts, t.kind = .endOfInput) :
    TokenStream.ofTokens (move ρ ts) = move ρ (TokenStream.ofTokens ts) := by
  have hbefore : (move ρ ts).takeWhile (fun t => t.kind ≠ .endOfInput) =
      move ρ (ts.takeWhile fun t => t.kind ≠ .endOfInput) := List.takeWhile_map
  have hkept (us : List Token) : (move ρ us).filter (fun t => t.fault?.isNone) =
      move ρ (us.filter fun t => t.fault?.isNone) := by
    refine List.filter_map.trans (congrArg (List.map (move ρ)) ?_)
    exact List.filter_congr fun t _ => t.fault?_isNone_move
  have hfaults (us : List Token) : (move ρ us).filterMap Token.fault? =
      move ρ (us.filterMap Token.fault?) := by
    refine List.filterMap_map.trans (Eq.trans ?_ List.map_filterMap.symm)
    exact List.filterMap_congr fun t _ => t.fault?_move
  have hfound : (move ρ ts).find? (fun t => t.kind = .endOfInput) =
      move ρ (ts.find? fun t => t.kind = .endOfInput) := List.find?_map
  obtain ⟨t, ht, hk⟩ := h
  have hsome : (ts.find? fun t => t.kind = .endOfInput).isSome = true :=
    List.find?_isSome.mpr ⟨t, ht, decide_eq_true hk⟩
  obtain ⟨u, hu⟩ := Option.isSome_iff_exists.mp hsome
  unfold TokenStream.ofTokens
  dsimp only
  rw [hbefore, hkept, hfaults, hfound, hu]
  rfl

/-- Reading moved tokens gives what reading the tokens gives, moved. -/
theorem Reading.ofTokens_move {ts : List Token} (h : ∃ t ∈ ts, t.kind = .endOfInput) :
    Reading.ofTokens (move ρ ts) = move ρ (Reading.ofTokens ts) := by
  have hstream := TokenStream.ofTokens_move (ρ := ρ) h
  obtain ⟨statements, s, hrun, hreading⟩ := exists_reading ts
  obtain ⟨statements', s', hrun', hreading'⟩ := exists_reading (move ρ ts)
  rw [hstream] at hrun' hreading'
  have hlength : (move ρ (TokenStream.ofTokens ts)).tokens.length =
      (TokenStream.ofTokens ts).tokens.length := List.length_map _
  have hparser : (move ρ (TokenStream.ofTokens ts)).parser = (TokenStream.ofTokens ts).parser := by
    unfold TokenStream.parser
    rw [hlength]
  have hfollows : Follows ρ (TokenStream.ofTokens ts).parser (TokenStream.ofTokens ts).parser :=
    .program (rules_follow ρ _) _
  have hmoved := hfollows (TokenStream.ofTokens ts).start
  rw [hrun] at hmoved
  rw [hparser] at hrun'
  cases hrun'.symm.trans hmoved
  rw [hreading', hreading]
  exact congrArg (Reading.mk (move ρ statements) (move ρ (TokenStream.ofTokens ts).faults))
    List.map_reverse.symm

/-- The errors of moved tokens are the errors of the tokens, moved, if these keep their order. -/
theorem Reading.errors_move {r : Reading} (h : ∀ a ∈ r.faults ++ r.mistakes.map SyntaxError.parse,
    ∀ b ∈ r.faults ++ r.mistakes.map SyntaxError.parse,
      a.position.le b.position = (ρ a.position).le (ρ b.position)) :
    (move ρ r).errors = move ρ r.errors := by
  have position_move (e : SyntaxError) : (move ρ e).position = ρ e.position := by cases e <;> rfl
  have hall : (move ρ r).faults ++ (move ρ r).mistakes.map SyntaxError.parse =
      move ρ (r.faults ++ r.mistakes.map SyntaxError.parse) := by
    rw [move_append]
    refine congrArg (move ρ r.faults ++ ·) ?_
    exact List.map_map.trans (List.map_map (g := move ρ) (f := SyntaxError.parse)).symm
  unfold Reading.errors
  rw [hall]
  refine (List.map_mergeSort fun a ha b hb => ?_).symm
  rw [position_move, position_move]
  exact h a ha b hb

end Scriptlet
