import Mathlib.Data.List.Forall2
import Scriptlet.Syntax.Parser.Expression

/-!
# The grammar

The grammar as relations between tokens and trees, said without the parser.
`Expression ts e rest` states that the tokens `ts` begin with the expression `e`
and that `rest` follows it; the other relations are read the same way. A rule
names every token it covers, and the position in its conclusion is that of the
first one. What follows a phrase is all that follows, up to the end of input, so
a rule can say what must not come next:

* a lambda whose body is an expression takes all of it (`Stops`);
* a conditional without `else` is not followed by one;
* a statement that leaves its semicolon out is followed by a closing brace or
  by the end of input (`Terminator`).

How tightly operators bind is said by comparing levels: that of an operator
(`Infix.level`) with that of its operands (`Expr.level`).
-/

namespace Scriptlet

/-- The least level of the left operand: only `^` does not group to the left. -/
def Infix.leftLevel (op : Infix) : Nat :=
  if op = binary .power then op.level + 1 else op.level

/-- The level of unary expressions, above those of all infix operators. -/
def unaryLevel : Nat := 8

/-- The level of calls, accesses and primary expressions. -/
def postfixLevel : Nat := 9

/-- How tightly the expression holds together: 0 for an assignment, the level of the operator for an
infix expression, and more for what binds tighter than all infix operators. -/
def Expr.level : Expr → Nat
  | .assign .. => 0
  | .binary _ op _ _ => (Infix.binary op).level
  | .logical _ op _ _ => (Infix.logical op).level
  | .unary .. => unaryLevel
  | _ => postfixLevel

/-- Whether the statement is a declaration, which may not be the body of a loop or a branch. -/
def Stmt.isDeclaration : Stmt → Bool
  | .declare .. | .function .. | .classDef .. => true
  | _ => false

/-- The word that introduces a variable. -/
def Mode.word : Mode → Keyword
  | .mutable => .letWord
  | .constant => .constWord

/-- Whether a token of this kind continues an expression of at least level `level` before it. -/
def TokenKind.continues (level : Nat) (k : TokenKind) : Bool :=
  k = .symbol .leftParen || k = .symbol .dot || k = .symbol .leftBracket ||
    (level = 0 && k = .symbol .equal) || (Infix.ofKind? k).any fun op => level ≤ op.level

/-- Whether a token of this kind can start an expression. -/
def TokenKind.startsExpression : TokenKind → Bool
  | .number | .string | .identifier
  | .keyword .trueWord | .keyword .falseWord | .keyword .nullWord | .keyword .undefinedWord
  | .symbol .leftParen | .symbol .leftBracket | .symbol .leftBrace
  | .symbol .bang | .symbol .minus => true
  | _ => false

/-- Whether a token of this kind starts a declaration. -/
def TokenKind.startsDeclaration : TokenKind → Bool
  | .keyword .letWord | .keyword .constWord | .keyword .functionWord | .keyword .classWord => true
  | _ => false

/-! ## Levels -/

namespace Infix

theorem one_le_level (op : Infix) : 1 ≤ op.level := by
  rcases op with op | op <;> cases op <;> decide

theorem level_lt_unaryLevel (op : Infix) : op.level < unaryLevel := by
  rcases op with op | op <;> cases op <;> decide

theorem leftLevel_le_unaryLevel (op : Infix) : op.leftLevel ≤ unaryLevel := by
  rcases op with op | op <;> cases op <;> decide

theorem level_le_leftLevel (op : Infix) : op.level ≤ op.leftLevel := by
  rcases op with op | op <;> cases op <;> decide

theorem level_le_rightLevel (op : Infix) : op.level ≤ op.rightLevel := by
  rcases op with op | op <;> cases op <;> decide

theorem rightLevel_le_unaryLevel (op : Infix) : op.rightLevel ≤ unaryLevel := by
  rcases op with op | op <;> cases op <;> decide

/-- An operator can follow the right operand of another one exactly if it can take the whole as its
left operand. -/
theorem level_lt_rightLevel_iff (op op' : Infix) :
    op'.level < op.rightLevel ↔ op'.leftLevel ≤ op.level := by
  rcases op with op | op <;> cases op <;> rcases op' with op' | op' <;> cases op' <;> decide

theorem level_join (op : Infix) (l r : Expr) : (op.join l r).level = op.level := by
  cases op <;> rfl

end Infix

theorem TokenKind.continues_eq_false_iff {level : Nat} {k : TokenKind} :
    k.continues level = false ↔
      (k ≠ .symbol .leftParen ∧ k ≠ .symbol .dot ∧ k ≠ .symbol .leftBracket) ∧
      (level = 0 → k ≠ .symbol .equal) ∧ ∀ op, Infix.ofKind? k = some op → op.level < level := by
  simp only [TokenKind.continues, Bool.or_eq_false_iff, Bool.and_eq_false_iff,
    decide_eq_false_iff_not, Option.any_eq_false, Nat.not_le, and_assoc, Decidable.imp_iff_not_or]

namespace Grammar

/-- The next token, if there is one, has the property `P`. -/
def Next (P : TokenKind → Prop) (ts : List Token) : Prop := ∀ t ∈ ts.head?, P t.kind

@[simp] theorem next_nil {P : TokenKind → Prop} : Next P [] := by simp [Next]

@[simp] theorem next_cons {P : TokenKind → Prop} {t : Token} {ts : List Token} :
    Next P (t :: ts) ↔ P t.kind := by simp [Next]

/-- The next token does not continue an expression of at least level `level`. -/
def Stops (level : Nat) (ts : List Token) : Prop := Next (fun k => k.continues level = false) ts

theorem Stops.mono {level level' : Nat} {ts : List Token} (h : Stops level ts)
    (hl : level ≤ level') : Stops level' ts := by
  intro t ht
  obtain ⟨h₁, h₂, h₃⟩ := TokenKind.continues_eq_false_iff.mp (h t ht)
  refine TokenKind.continues_eq_false_iff.mpr ⟨h₁, fun h₀ => h₂ (by omega), fun op ho => ?_⟩
  exact Nat.lt_of_lt_of_le (h₃ op ho) hl

/-- What no access and no infix operator of at least level `level` continues. -/
theorem Stops.of_levels {level : Nat} {ts : List Token} (h : Stops unaryLevel ts) (h₁ : 1 ≤ level)
    (hn : Next (fun k => ∀ op, Infix.ofKind? k = some op → op.level < level) ts) :
    Stops level ts := by
  intro t ht
  obtain ⟨ha, -, -⟩ := TokenKind.continues_eq_false_iff.mp (h t ht)
  exact TokenKind.continues_eq_false_iff.mpr ⟨ha, fun h₀ => by omega, hn t ht⟩

/-- The end of a simple statement: a semicolon, or nothing before a closing brace and at the end of
input. -/
inductive Terminator : List Token → List Token → Prop
  | semicolon {t : Token} {rest : List Token} :
    t.kind = .symbol .semicolon → Terminator (t :: rest) rest
  | brace {t : Token} {rest : List Token} :
    t.kind = .symbol .rightBrace → Terminator (t :: rest) (t :: rest)
  | finish : Terminator [] []

section Lists

variable {α : Type} (Item : List Token → α → List Token → Prop)

/-- One or more items with a comma between any two. -/
inductive Commas : List Token → List α → List Token → Prop
  | one {ts rest : List Token} {a : α} : Item ts a rest → Commas ts [a] rest
  | more {ts us rest : List Token} {c : Token} {a : α} {as : List α} :
    Item ts a (c :: us) → c.kind = .symbol .comma → Commas us as rest → Commas ts (a :: as) rest

/-- No items, or some with a comma between any two and perhaps one after the last. -/
inductive LooseCommas : List Token → List α → List Token → Prop
  | none {rest : List Token} : LooseCommas rest [] rest
  | one {ts rest : List Token} {a : α} : Item ts a rest → LooseCommas ts [a] rest
  | more {ts us rest : List Token} {c : Token} {a : α} {as : List α} :
    Item ts a (c :: us) → c.kind = .symbol .comma → LooseCommas us as rest →
    LooseCommas ts (a :: as) rest

/-- Items one after the other. -/
inductive Sequence : List Token → List α → List Token → Prop
  | nil {rest : List Token} : Sequence rest [] rest
  | cons {ts us rest : List Token} {a : α} {as : List α} :
    Item ts a us → Sequence us as rest → Sequence ts (a :: as) rest

end Lists

/-- A parameter. -/
inductive Parameter : List Token → String → List Token → Prop
  | mk {x : Token} {rest : List Token} : x.kind = .identifier → Parameter (x :: rest) x.lexeme rest

/-- The parameters of a routine, in parentheses. -/
inductive Parameters : List Token → List String → List Token → Prop
  | none {l r : Token} {rest : List Token} :
    l.kind = .symbol .leftParen → r.kind = .symbol .rightParen → Parameters (l :: r :: rest) [] rest
  | some {l r : Token} {ts rest : List Token} {params : List String} :
    l.kind = .symbol .leftParen → Commas Parameter ts params (r :: rest) →
    r.kind = .symbol .rightParen → Parameters (l :: ts) params rest

/-- Whether the token stands between the variable and the items of a `foreach` loop. -/
def Separates (t : Token) : Prop :=
  t.kind = .symbol .colon ∨ (t.kind = .identifier ∧ t.lexeme = "in")

/-- The variable of a `foreach` loop up to its items. -/
inductive LoopVariable : List Token → String → List Token → Prop
  | plain {x c : Token} {rest : List Token} :
    x.kind = .identifier → Separates c → LoopVariable (x :: c :: rest) x.lexeme rest
  | declared {w x c : Token} {rest : List Token} :
    w.kind = .keyword .letWord → x.kind = .identifier → Separates c →
    LoopVariable (w :: x :: c :: rest) x.lexeme rest

mutual

/-- An expression. -/
inductive Expression : List Token → Expr → List Token → Prop
  | integer {t : Token} {rest : List Token} {n : Int64} :
    t.kind = .number → numberLiteral? t = some (.integer t.position n) →
    Expression (t :: rest) (.integer t.position n) rest
  | float {t : Token} {rest : List Token} {x : Float} :
    t.kind = .number → numberLiteral? t = some (.float t.position x) →
    Expression (t :: rest) (.float t.position x) rest
  | string {t : Token} {rest : List Token} :
    t.kind = .string → Expression (t :: rest) (.string t.position t.lexeme) rest
  | trueWord {t : Token} {rest : List Token} :
    t.kind = .keyword .trueWord → Expression (t :: rest) (.boolean t.position true) rest
  | falseWord {t : Token} {rest : List Token} :
    t.kind = .keyword .falseWord → Expression (t :: rest) (.boolean t.position false) rest
  | null {t : Token} {rest : List Token} :
    t.kind = .keyword .nullWord → Expression (t :: rest) (.null t.position) rest
  | undefined {t : Token} {rest : List Token} :
    t.kind = .keyword .undefinedWord → Expression (t :: rest) (.undefined t.position) rest
  | identifier {t : Token} {rest : List Token} :
    t.kind = .identifier → Expression (t :: rest) (.identifier t.position t.lexeme) rest
  | unary {t : Token} {ts rest : List Token} {op : UnaryOp} {x : Expr} :
    UnaryOp.ofKind? t.kind = some op → Expression ts x rest → unaryLevel ≤ x.level →
    Expression (t :: ts) (.unary t.position op x) rest
  | binary {t o : Token} {ts us rest : List Token} {op : BinaryOp} {l r : Expr} :
    Expression (t :: ts) l (o :: us) → Infix.ofKind? o.kind = some (.binary op) →
    Expression us r rest →
    (Infix.binary op).leftLevel ≤ l.level → (Infix.binary op).rightLevel ≤ r.level →
    Expression (t :: ts) (.binary t.position op l r) rest
  | logical {t o : Token} {ts us rest : List Token} {op : LogicalOp} {l r : Expr} :
    Expression (t :: ts) l (o :: us) → Infix.ofKind? o.kind = some (.logical op) →
    Expression us r rest →
    (Infix.logical op).leftLevel ≤ l.level → (Infix.logical op).rightLevel ≤ r.level →
    Expression (t :: ts) (.logical t.position op l r) rest
  | assign {t q : Token} {ts us rest : List Token} {left value : Expr} {target : Target} :
    Expression (t :: ts) left (q :: us) → left.target? = some target →
    q.kind = .symbol .equal → Expression us value rest →
    Expression (t :: ts) (.assign t.position target value) rest
  | call {t l r : Token} {ts rest : List Token} {callee : Expr} :
    Expression (t :: ts) callee (l :: r :: rest) → postfixLevel ≤ callee.level →
    l.kind = .symbol .leftParen → r.kind = .symbol .rightParen →
    Expression (t :: ts) (.call t.position callee []) rest
  | callWith {t l r : Token} {ts us rest : List Token} {callee : Expr} {args : List Expr} :
    Expression (t :: ts) callee (l :: us) → postfixLevel ≤ callee.level →
    l.kind = .symbol .leftParen → Commas Expression us args (r :: rest) →
    r.kind = .symbol .rightParen →
    Expression (t :: ts) (.call t.position callee args) rest
  | member {t d x : Token} {ts rest : List Token} {owner : Expr} :
    Expression (t :: ts) owner (d :: x :: rest) → postfixLevel ≤ owner.level →
    d.kind = .symbol .dot → x.kind = .identifier →
    Expression (t :: ts) (.member t.position owner x.lexeme) rest
  | index {t l r : Token} {ts us rest : List Token} {owner key : Expr} :
    Expression (t :: ts) owner (l :: us) → postfixLevel ≤ owner.level →
    l.kind = .symbol .leftBracket → Expression us key (r :: rest) →
    r.kind = .symbol .rightBracket →
    Expression (t :: ts) (.index t.position owner key) rest
  | group {l r : Token} {ts rest : List Token} {inner : Expr} :
    l.kind = .symbol .leftParen → Expression ts inner (r :: rest) →
    r.kind = .symbol .rightParen →
    Expression (l :: ts) (.group l.position inner) rest
  | array {l r : Token} {ts rest : List Token} {items : List Expr} :
    l.kind = .symbol .leftBracket → LooseCommas Expression ts items (r :: rest) →
    r.kind = .symbol .rightBracket →
    Expression (l :: ts) (.array l.position items) rest
  | object {l r : Token} {ts rest : List Token} {entries : List Entry} :
    l.kind = .symbol .leftBrace → LooseCommas ObjectEntry ts entries (r :: rest) →
    r.kind = .symbol .rightBrace →
    Expression (l :: ts) (.object l.position entries) rest
  | lambda {l a b r : Token} {ts us rest : List Token} {params : List String} {body : List Stmt} :
    Parameters (l :: ts) params (a :: b :: us) → a.kind = .symbol .arrow →
    b.kind = .symbol .leftBrace → Sequence Statement us body (r :: rest) →
    r.kind = .symbol .rightBrace →
    Expression (l :: ts) (.lambda l.position ⟨lambdaName, params, body, l.position⟩) rest
  | lambdaReturning {l a v : Token} {ts us rest : List Token} {params : List String}
      {value : Expr} :
    Parameters (l :: ts) params (a :: v :: us) → a.kind = .symbol .arrow →
    v.kind ≠ .symbol .leftBrace → Expression (v :: us) value rest → Stops 0 rest →
    Expression (l :: ts) (.lambda l.position
      ⟨lambdaName, params, [.returnStmt v.position (some value)], l.position⟩) rest

/-- A key with its value in an object literal. -/
inductive ObjectEntry : List Token → Entry → List Token → Prop
  | mk {k c : Token} {ts rest : List Token} {value : Expr} :
    k.kind = .identifier ∨ k.kind = .string → c.kind = .symbol .colon →
    Expression ts value rest → ObjectEntry (k :: c :: ts) ⟨k.lexeme, value⟩ rest

/-- A name, parameters and a body. -/
inductive NamedRoutine : List Token → Routine → List Token → Prop
  | mk {x b r : Token} {ts us rest : List Token} {params : List String} {body : List Stmt} :
    x.kind = .identifier → Parameters ts params (b :: us) → b.kind = .symbol .leftBrace →
    Sequence Statement us body (r :: rest) → r.kind = .symbol .rightBrace →
    NamedRoutine (x :: ts) ⟨x.lexeme, params, body, x.position⟩ rest

/-- A method of a class. -/
inductive Method : List Token → Routine → List Token → Prop
  | plain {ts rest : List Token} {m : Routine} : NamedRoutine ts m rest → Method ts m rest
  | withWord {w : Token} {ts rest : List Token} {m : Routine} :
    w.kind = .keyword .functionWord → NamedRoutine ts m rest → Method (w :: ts) m rest

/-- What a `for` loop starts with, up to its test. -/
inductive LoopStart : List Token → Option Stmt → List Token → Prop
  | none {t : Token} {rest : List Token} :
    t.kind = .symbol .semicolon → LoopStart (t :: rest) none rest
  | declaration {ts rest : List Token} {p : Position} {mode : Mode} {name : String}
      {init : Option Expr} :
    Statement ts (.declare p mode name init) rest → LoopStart ts (some (.declare p mode name init)) rest
  | expression {t q : Token} {ts rest : List Token} {e : Expr} :
    Expression (t :: ts) e (q :: rest) → q.kind = .symbol .semicolon →
    LoopStart (t :: ts) (some (.expression t.position e)) rest

/-- A clause of a `for` loop that may be left out. -/
inductive Clause : List Token → Option Expr → List Token → Prop
  | none {rest : List Token} : Clause rest none rest
  | some {ts rest : List Token} {e : Expr} : Expression ts e rest → Clause ts (some e) rest

/-- A declaration or a statement. -/
inductive Statement : List Token → Stmt → List Token → Prop
  | expression {t : Token} {ts us rest : List Token} {e : Expr} :
    t.kind ≠ .symbol .leftBrace → Expression (t :: ts) e us → Terminator us rest →
    Statement (t :: ts) (.expression t.position e) rest
  | declare {w x : Token} {ts rest : List Token} :
    w.kind = .keyword .letWord → x.kind = .identifier → Terminator ts rest →
    Statement (w :: x :: ts) (.declare w.position .mutable x.lexeme none) rest
  | declareInit {w x q : Token} {ts us rest : List Token} {mode : Mode} {e : Expr} :
    w.kind = .keyword mode.word → x.kind = .identifier → q.kind = .symbol .equal →
    Expression ts e us → Terminator us rest →
    Statement (w :: x :: q :: ts) (.declare w.position mode x.lexeme (some e)) rest
  | block {l r : Token} {ts rest : List Token} {body : List Stmt} :
    l.kind = .symbol .leftBrace → Sequence Statement ts body (r :: rest) →
    r.kind = .symbol .rightBrace →
    Statement (l :: ts) (.block l.position body) rest
  | conditional {w l r : Token} {ts us rest : List Token} {test : Expr} {yes : Stmt} :
    w.kind = .keyword .ifWord → l.kind = .symbol .leftParen → Expression ts test (r :: us) →
    r.kind = .symbol .rightParen → Statement us yes rest → yes.isDeclaration = false →
    Next (· ≠ .keyword .elseWord) rest →
    Statement (w :: l :: ts) (.conditional w.position test yes none) rest
  | conditionalElse {w l r o : Token} {ts us vs rest : List Token} {test : Expr} {yes no : Stmt} :
    w.kind = .keyword .ifWord → l.kind = .symbol .leftParen → Expression ts test (r :: us) →
    r.kind = .symbol .rightParen → Statement us yes (o :: vs) → yes.isDeclaration = false →
    o.kind = .keyword .elseWord → Statement vs no rest → no.isDeclaration = false →
    Statement (w :: l :: ts) (.conditional w.position test yes (some no)) rest
  | whileLoop {w l r : Token} {ts us rest : List Token} {test : Expr} {body : Stmt} :
    w.kind = .keyword .whileWord → l.kind = .symbol .leftParen → Expression ts test (r :: us) →
    r.kind = .symbol .rightParen → Statement us body rest → body.isDeclaration = false →
    Statement (w :: l :: ts) (.whileLoop w.position test body) rest
  | forLoop {w l q r : Token} {ts us vs xs rest : List Token} {init : Option Stmt}
      {test step : Option Expr} {body : Stmt} :
    w.kind = .keyword .forWord → l.kind = .symbol .leftParen → LoopStart ts init us →
    Clause us test (q :: vs) → q.kind = .symbol .semicolon →
    Clause vs step (r :: xs) → r.kind = .symbol .rightParen →
    Statement xs body rest → body.isDeclaration = false →
    Statement (w :: l :: ts) (.forLoop w.position init test step body) rest
  | foreachLoop {w l r : Token} {ts us vs rest : List Token} {name : String} {items : Expr}
      {body : Stmt} :
    w.kind = .keyword .foreachWord → l.kind = .symbol .leftParen → LoopVariable ts name us →
    Expression us items (r :: vs) → r.kind = .symbol .rightParen →
    Statement vs body rest → body.isDeclaration = false →
    Statement (w :: l :: ts) (.foreachLoop w.position name items body) rest
  | function {w : Token} {ts rest : List Token} {routine : Routine} :
    w.kind = .keyword .functionWord → NamedRoutine ts routine rest →
    Statement (w :: ts) (.function w.position routine) rest
  | classDef {w x l r : Token} {ts rest : List Token} {methods : List Routine} :
    w.kind = .keyword .classWord → x.kind = .identifier → l.kind = .symbol .leftBrace →
    Sequence Method ts methods (r :: rest) → r.kind = .symbol .rightBrace →
    Statement (w :: x :: l :: ts) (.classDef w.position x.lexeme methods) rest
  | returnNothing {w : Token} {ts rest : List Token} :
    w.kind = .keyword .returnWord → Terminator ts rest →
    Statement (w :: ts) (.returnStmt w.position none) rest
  | returnValue {w : Token} {ts us rest : List Token} {value : Expr} :
    w.kind = .keyword .returnWord → Expression ts value us → Terminator us rest →
    Statement (w :: ts) (.returnStmt w.position (some value)) rest
  | breakStmt {w : Token} {ts rest : List Token} :
    w.kind = .keyword .breakWord → Terminator ts rest →
    Statement (w :: ts) (.breakStmt w.position) rest
  | continueStmt {w : Token} {ts rest : List Token} :
    w.kind = .keyword .continueWord → Terminator ts rest →
    Statement (w :: ts) (.continueStmt w.position) rest

end

/-! ## Where phrases start -/

/-- The position of an expression is that of its first token. -/
theorem Expression.head {ts rest : List Token} {e : Expr} (h : Expression ts e rest) :
    ∃ t us, ts = t :: us ∧ e.position = t.position := by
  cases h <;> exact ⟨_, _, rfl, rfl⟩

/-- The position of a statement is that of its first token. -/
theorem Statement.head {ts rest : List Token} {s : Stmt} (h : Statement ts s rest) :
    ∃ t us, ts = t :: us ∧ s.position = t.position := by
  cases h <;> exact ⟨_, _, rfl, rfl⟩

/-- The rule for infix expressions, for either kind of operator. -/
theorem Expression.join {ts us rest : List Token} {o : Token} {op : Infix} {l r : Expr}
    (hl : Expression ts l (o :: us)) (ho : Infix.ofKind? o.kind = some op)
    (hr : Expression us r rest) (hll : op.leftLevel ≤ l.level) (hlr : op.rightLevel ≤ r.level) :
    Expression ts (op.join l r) rest := by
  obtain ⟨t, vs, rfl, hp⟩ := hl.head
  cases op with
  | binary op => rw [Infix.join, hp]; exact .binary hl ho hr hll hlr
  | logical op => rw [Infix.join, hp]; exact .logical hl ho hr hll hlr

theorem startsExpression_of_unary {k : TokenKind} {op : UnaryOp} (h : UnaryOp.ofKind? k = some op) :
    k.startsExpression = true := by
  unfold UnaryOp.ofKind? at h
  split at h <;> first | rfl | cases h

theorem Parameters.head {ts rest : List Token} {params : List String} (h : Parameters ts params rest) :
    Next (· = .symbol .leftParen) ts := by
  cases h <;> simpa

/-- An expression starts with a token that can start one. -/
theorem Expression.starts : ∀ {ts rest : List Token} {e : Expr}, Expression ts e rest →
    Next (·.startsExpression = true) ts
  | _, _, _, .integer h _ | _, _, _, .float h _ | _, _, _, .string h | _, _, _, .trueWord h
  | _, _, _, .falseWord h | _, _, _, .null h | _, _, _, .undefined h | _, _, _, .identifier h
  | _, _, _, .group h _ _ | _, _, _, .array h _ _ | _, _, _, .object h _ _ => by
    rw [next_cons, h]; rfl
  | _, _, _, .unary h _ _ => next_cons.mpr (startsExpression_of_unary h)
  | _, _, _, .binary h _ _ _ _ | _, _, _, .logical h _ _ _ _ | _, _, _, .assign h _ _ _
  | _, _, _, .call h _ _ _ | _, _, _, .callWith h _ _ _ _ | _, _, _, .member h _ _ _
  | _, _, _, .index h _ _ _ _ => h.starts
  | _, _, _, .lambda h _ _ _ _ | _, _, _, .lambdaReturning h _ _ _ _ => by
    rw [next_cons, next_cons.mp h.head]; rfl

/-- A statement starts with a word for one, or as an expression does. -/
theorem Statement.starts {ts rest : List Token} {s : Stmt} (h : Statement ts s rest) :
    Next (fun k => k.startsExpression = true ∨ k.startsStatement = true) ts := by
  cases h with
  | expression _ h _ => exact next_cons.mpr (.inl (next_cons.mp h.starts))
  | block h _ _ => rw [next_cons, h]; exact .inl rfl
  | @declareInit _ _ _ _ _ _ mode _ h => rw [next_cons, h]; cases mode <;> exact .inr rfl
  | declare h | conditional h | conditionalElse h | whileLoop h | forLoop h | foreachLoop h
  | function h | classDef h | returnNothing h | returnValue h | breakStmt h | continueStmt h =>
    rw [next_cons, h]; exact .inr rfl

theorem startsDeclaration_of_startsExpression {k : TokenKind} (h : k.startsExpression = true) :
    k.startsDeclaration = false := by
  unfold TokenKind.startsExpression at h
  split at h <;> first | rfl | cases h

/-- A declaration is known by its first token. -/
theorem Statement.isDeclaration_eq {t : Token} {ts rest : List Token} {s : Stmt}
    (h : Statement (t :: ts) s rest) : s.isDeclaration = t.kind.startsDeclaration := by
  cases h with
  | expression _ h _ =>
    rw [startsDeclaration_of_startsExpression (next_cons.mp h.starts)]; rfl
  | @declareInit _ _ _ _ _ _ mode _ h => rw [h]; cases mode <;> rfl
  | block h | declare h | conditional h | conditionalElse h | whileLoop h | forLoop h
  | foreachLoop h | function h | classDef h | returnNothing h | returnValue h | breakStmt h
  | continueStmt h => rw [h]; rfl

/-! ## What phrases cover -/

/-- `rest` is what is left of `ts` after at least one token. -/
def After (ts rest : List Token) : Prop := ∃ t us, ts = t :: us ∧ rest <:+ us

theorem After.of_suffix {t : Token} {ts rest : List Token} (h : rest <:+ ts) : After (t :: ts) rest :=
  ⟨t, ts, rfl, h⟩

theorem After.suffix {ts rest : List Token} (h : After ts rest) : rest <:+ ts := by
  obtain ⟨t, us, rfl, h⟩ := h
  exact h.trans (List.suffix_cons t us)

theorem After.trans_suffix {ts us rest : List Token} (h : After ts us) (h' : rest <:+ us) :
    After ts rest := by
  obtain ⟨t, vs, rfl, h⟩ := h
  exact ⟨t, vs, rfl, h'.trans h⟩

theorem After.tail {ts rest : List Token} {c : Token} (h : After ts (c :: rest)) : After ts rest :=
  h.trans_suffix (List.suffix_cons c rest)

theorem After.length_lt {ts rest : List Token} (h : After ts rest) : rest.length < ts.length := by
  obtain ⟨t, us, rfl, h⟩ := h
  exact Nat.lt_succ_of_le h.length_le

theorem Terminator.suffix {ts rest : List Token} (h : Terminator ts rest) : rest <:+ ts := by
  cases h with
  | semicolon => exact List.suffix_cons _ _
  | brace | finish => exact List.suffix_refl _

theorem Commas.after {α : Type} {Item : List Token → α → List Token → Prop}
    (hi : ∀ {ts a rest}, Item ts a rest → After ts rest) {ts rest : List Token} {as : List α}
    (h : Commas Item ts as rest) : After ts rest := by
  induction h with
  | one h => exact hi h
  | more h _ _ ih => exact (hi h).tail.trans_suffix ih.suffix

theorem Parameters.after {ts rest : List Token} {params : List String}
    (h : Parameters ts params rest) : After ts rest := by
  cases h with
  | none => exact .of_suffix (List.suffix_cons _ _)
  | some _ h _ =>
    have hp : ∀ {ts x rest}, Parameter ts x rest → After ts rest := fun h => by
      cases h; exact .of_suffix (List.suffix_refl _)
    exact .of_suffix (h.after hp).tail.suffix

theorem LoopVariable.after {ts rest : List Token} {name : String} (h : LoopVariable ts name rest) :
    After ts rest := by
  cases h with
  | plain => exact .of_suffix (List.suffix_cons _ _)
  | declared => exact .of_suffix ((List.suffix_cons _ _).trans (List.suffix_cons _ _))

mutual

/-- An expression covers at least one token. -/
theorem Expression.after : ∀ {ts rest : List Token} {e : Expr}, Expression ts e rest → After ts rest
  | _, _, _, .integer _ _ | _, _, _, .float _ _ | _, _, _, .string _ | _, _, _, .trueWord _
  | _, _, _, .falseWord _ | _, _, _, .null _ | _, _, _, .undefined _ | _, _, _, .identifier _ =>
    .of_suffix (List.suffix_refl _)
  | _, _, _, .unary _ h _ => .of_suffix h.after.suffix
  | _, _, _, .binary h _ h' _ _ | _, _, _, .logical h _ h' _ _ | _, _, _, .assign h _ _ h' =>
    h.after.tail.trans_suffix h'.after.suffix
  | _, _, _, .call h _ _ _ | _, _, _, .member h _ _ _ => h.after.tail.tail
  | _, _, _, .callWith h _ _ h' _ => h.after.tail.trans_suffix (exprs_after h').tail.suffix
  | _, _, _, .index h _ _ h' _ => h.after.tail.trans_suffix h'.after.tail.suffix
  | _, _, _, .group _ h _ => .of_suffix h.after.tail.suffix
  | _, _, _, .array _ h _ => .of_suffix ((List.suffix_cons _ _).trans (items_suffix h))
  | _, _, _, .object _ h _ => .of_suffix ((List.suffix_cons _ _).trans (entries_suffix h))
  | _, _, _, .lambda h _ _ h' _ =>
    h.after.tail.tail.trans_suffix ((List.suffix_cons _ _).trans (statements_suffix h'))
  | _, _, _, .lambdaReturning h _ _ h' _ => h.after.tail.trans_suffix h'.after.suffix

theorem exprs_after : ∀ {ts rest : List Token} {es : List Expr}, Commas Expression ts es rest →
    After ts rest
  | _, _, _, .one h => h.after
  | _, _, _, .more h _ h' => h.after.tail.trans_suffix (exprs_after h').suffix

theorem items_suffix : ∀ {ts rest : List Token} {es : List Expr}, LooseCommas Expression ts es rest →
    rest <:+ ts
  | _, _, _, .none => List.suffix_refl _
  | _, _, _, .one h => h.after.suffix
  | _, _, _, .more h _ h' => (items_suffix h').trans h.after.tail.suffix

theorem entries_suffix : ∀ {ts rest : List Token} {es : List Entry},
    LooseCommas ObjectEntry ts es rest → rest <:+ ts
  | _, _, _, .none => List.suffix_refl _
  | _, _, _, .one h => h.after.suffix
  | _, _, _, .more h _ h' => (entries_suffix h').trans h.after.tail.suffix

theorem statements_suffix : ∀ {ts rest : List Token} {ss : List Stmt},
    Sequence Statement ts ss rest → rest <:+ ts
  | _, _, _, .nil => List.suffix_refl _
  | _, _, _, .cons h h' => (statements_suffix h').trans h.after.suffix

theorem methods_suffix : ∀ {ts rest : List Token} {ms : List Routine},
    Sequence Method ts ms rest → rest <:+ ts
  | _, _, _, .nil => List.suffix_refl _
  | _, _, _, .cons h h' => (methods_suffix h').trans h.after.suffix

theorem ObjectEntry.after : ∀ {ts rest : List Token} {e : Entry}, ObjectEntry ts e rest →
    After ts rest
  | _, _, _, .mk _ _ h => .of_suffix (h.after.suffix.trans (List.suffix_cons _ _))

theorem NamedRoutine.after : ∀ {ts rest : List Token} {r : Routine}, NamedRoutine ts r rest →
    After ts rest
  | _, _, _, .mk _ h _ h' _ => .of_suffix
    (h.after.tail.trans_suffix ((List.suffix_cons _ _).trans (statements_suffix h'))).suffix

theorem Method.after : ∀ {ts rest : List Token} {r : Routine}, Method ts r rest → After ts rest
  | _, _, _, .plain h => h.after
  | _, _, _, .withWord _ h => .of_suffix h.after.suffix

theorem LoopStart.suffix : ∀ {ts rest : List Token} {init : Option Stmt}, LoopStart ts init rest →
    rest <:+ ts
  | _, _, _, .none _ => List.suffix_cons _ _
  | _, _, _, .declaration h => h.after.suffix
  | _, _, _, .expression h _ => h.after.tail.suffix

theorem Clause.suffix : ∀ {ts rest : List Token} {e : Option Expr}, Clause ts e rest → rest <:+ ts
  | _, _, _, .none => List.suffix_refl _
  | _, _, _, .some h => h.after.suffix

/-- A statement covers at least one token. -/
theorem Statement.after : ∀ {ts rest : List Token} {s : Stmt}, Statement ts s rest → After ts rest
  | _, _, _, .expression _ h h' => h.after.trans_suffix h'.suffix
  | _, _, _, .declare _ _ h => .of_suffix (h.suffix.trans (List.suffix_cons _ _))
  | _, _, _, .declareInit _ _ _ h h' => .of_suffix <| h'.suffix.trans <| h.after.suffix.trans <|
      (List.suffix_cons _ _).trans (List.suffix_cons _ _)
  | _, _, _, .block _ h _ => .of_suffix ((List.suffix_cons _ _).trans (statements_suffix h))
  | _, _, _, .conditional _ _ h _ h' _ _ | _, _, _, .whileLoop _ _ h _ h' _ =>
    .of_suffix (h'.after.suffix.trans (h.after.tail.suffix.trans (List.suffix_cons _ _)))
  | _, _, _, .conditionalElse _ _ h _ h' _ _ h'' _ => .of_suffix <| h''.after.suffix.trans <|
      h'.after.tail.suffix.trans <| h.after.tail.suffix.trans (List.suffix_cons _ _)
  | _, _, _, .forLoop _ _ h h₁ _ h₂ _ h₃ _ => .of_suffix <| h₃.after.suffix.trans <|
      (List.suffix_cons _ _).trans <| h₂.suffix.trans <| (List.suffix_cons _ _).trans <|
      h₁.suffix.trans <| h.suffix.trans (List.suffix_cons _ _)
  | _, _, _, .foreachLoop _ _ h h' _ h'' _ => .of_suffix <| h''.after.suffix.trans <|
      h'.after.tail.suffix.trans <| h.after.suffix.trans (List.suffix_cons _ _)
  | _, _, _, .function _ h => .of_suffix h.after.suffix
  | _, _, _, .classDef _ _ _ h _ => .of_suffix <| (List.suffix_cons _ _).trans <|
      (methods_suffix h).trans <| (List.suffix_cons _ _).trans (List.suffix_cons _ _)
  | _, _, _, .returnNothing _ h | _, _, _, .breakStmt _ h | _, _, _, .continueStmt _ h =>
    .of_suffix h.suffix
  | _, _, _, .returnValue _ h h' => .of_suffix (h'.suffix.trans h.after.suffix)

end

/-- Statements one after the other cut their tokens into pieces, one for each statement, and a
statement has the position of the first token of its piece. -/
theorem Sequence.pieces {ts rest : List Token} {ss : List Stmt} (h : Sequence Statement ts ss rest) :
    ∃ pieces : List (List Token), ts = pieces.flatten ++ rest ∧
      List.Forall₂ (fun piece s => ∃ t us, piece = t :: us ∧ s.position = t.position) pieces ss := by
  induction h with
  | nil => exact ⟨[], rfl, .nil⟩
  | cons h _ ih =>
    obtain ⟨pieces, rfl, hp⟩ := ih
    obtain ⟨t, us, rfl, ht⟩ := h.head
    obtain ⟨t', us', e, vs, rfl⟩ := h.after
    cases e
    exact ⟨(t :: vs) :: pieces, by simp, .cons ⟨t, vs, rfl, ht⟩ hp⟩

end Grammar

end Scriptlet
