import Scriptlet.Proofs.Syntax.Progress

/-!
# What is read up to a semicolon does not depend on what follows it

Two states stand before the same tokens up to a semicolon, and before any tokens behind it;
a `Seam` holds such a pair. While no token before the semicolon is a brace or starts a
statement, no rule for expressions reads past the semicolon, and a rule for a statement that
succeeds reads exactly up to it. So two runs of a rule, one from either state and each with a
bound of its own, do the same (`Alike`): they return the same or end with the same mistake, at
the same place. A run that uses its bound up is not compared; bounds that suffice are the
business of `Progress`.
-/

namespace Scriptlet

/-- A token that neither ends a statement nor starts one, and is no brace. -/
structure Token.Inner (t : Token) : Prop where
  semicolon : t.kind ≠ .symbol .semicolon
  leftBrace : t.kind ≠ .symbol .leftBrace
  rightBrace : t.kind ≠ .symbol .rightBrace
  word : t.kind.startsStatement = false

namespace Parser

/-- Two states that have just read the same semicolon, and the tokens before it. -/
structure Seam where
  inner : List Token
  semicolon : Token
  one : ParserState
  other : ParserState
  inner_inner : ∀ t ∈ inner, t.Inner
  kind_semicolon : semicolon.kind = .symbol .semicolon
  /-- A statement that ends with the semicolon does not go on behind it. -/
  one_next : one.next.kind ≠ .keyword .elseWord
  other_next : other.next.kind ≠ .keyword .elseWord

namespace Seam

variable (m : Seam)

/-- The state from which reading `ts` and the semicolon leads to `s`. -/
def before (s : ParserState) (ts : List Token) : ParserState :=
  { s with rest := ts ++ m.semicolon :: s.rest }

/-- The next token before `ts` and the semicolon. -/
def next (ts : List Token) : Token := ts.headD m.semicolon

/-- The tokens up to the semicolon, which is the last one. -/
def tokens : List Token := m.inner ++ [m.semicolon]

/-- Both states stand at the same place before the semicolon. -/
def Inside (s s' : ParserState) : Prop :=
  ∃ ts, ts <:+ m.inner ∧ s = m.before m.one ts ∧ s' = m.before m.other ts

/-- Both states stand just behind the semicolon. -/
def Behind (s s' : ParserState) : Prop := s = m.one ∧ s' = m.other

variable {m} {ts : List Token}

theorem next_before (s : ParserState) : (m.before s ts).next = m.next ts := by
  cases ts <;> rfl

theorem next_cases (h : ts <:+ m.inner) : m.next ts = m.semicolon ∨ (m.next ts).Inner := by
  cases ts with
  | nil => exact .inl rfl
  | cons t ts => exact .inr (m.inner_inner t (h.subset List.mem_cons_self))

theorem next_mem (h : ts <:+ m.inner) : m.next ts ∈ m.tokens := by
  cases ts with
  | nil => exact List.mem_append_right _ List.mem_cons_self
  | cons t ts => exact List.mem_append_left _ (h.subset List.mem_cons_self)

theorem next_ne_leftBrace (h : ts <:+ m.inner) : (m.next ts).kind ≠ .symbol .leftBrace := by
  rcases next_cases h with h | h
  · rw [h, m.kind_semicolon]
    decide
  · exact h.leftBrace

theorem next_ne_rightBrace (h : ts <:+ m.inner) : (m.next ts).kind ≠ .symbol .rightBrace := by
  rcases next_cases h with h | h
  · rw [h, m.kind_semicolon]
    decide
  · exact h.rightBrace

theorem next_startsStatement (h : ts <:+ m.inner) : (m.next ts).kind.startsStatement = false := by
  rcases next_cases h with h | h
  · rw [h, m.kind_semicolon]
    rfl
  · exact h.word

end Seam

/-! ## Two runs that do the same -/

variable {α β : Type}

/-- Two outcomes that are the same: both succeed with one result and leave states related by `ok`, or
both end with one mistake, at a token of the seam. If a bound is used up, nothing is said. -/
inductive Agree (m : Seam) (ok : ParserState → ParserState → Prop) :
    EStateM.Result Abort ParserState α → EStateM.Result Abort ParserState α → Prop where
  | ok (a : α) {s s' : ParserState} (h : ok s s') : Agree m ok (.ok a s) (.ok a s')
  | mistake (e : ParseError) {s s' : ParserState} (he : e.found ∈ m.tokens) (h : m.Inside s s') :
      Agree m ok (.error (.mistake e) s) (.error (.mistake e) s')
  | exhausted (s : ParserState) (r : EStateM.Result Abort ParserState α) :
      Agree m ok (.error .exhausted s) r
  | exhausted' (s : ParserState) (r : EStateM.Result Abort ParserState α) :
      Agree m ok r (.error .exhausted s)

/-- Before the tokens `ts` and the semicolon the steps do the same. -/
def AlikeAt (m : Seam) (ok : ParserState → ParserState → Prop) (ts : List Token)
    (p p' : Parser α) : Prop := Agree m ok (p (m.before m.one ts)) (p' (m.before m.other ts))

/-- Wherever in the seam the steps begin, they do the same. -/
def Alike (m : Seam) (ok : ParserState → ParserState → Prop) (p p' : Parser α) : Prop :=
  ∀ ts, ts <:+ m.inner → AlikeAt m ok ts p p'

variable {m : Seam} {ok : ParserState → ParserState → Prop} {ts : List Token} {p p' : Parser α}

theorem Agree.bind {s s' : ParserState} {f f' : α → Parser β}
    {after : ParserState → ParserState → Prop} (hp : Agree m ok (p s) (p' s'))
    (hf : ∀ a s s', ok s s' → Agree m after (f a s) (f' a s')) :
    Agree m after ((p >>= f) s) ((p' >>= f') s') := by
  rw [bind_apply, bind_apply]
  generalize p s = r, p' s' = r' at hp
  cases hp with
  | ok a h => exact hf a _ _ h
  | mistake e he h => exact .mistake e he h
  | exhausted => exact .exhausted _ _
  | exhausted' => exact .exhausted' _ _

/-- The other run, unless its bound is used up, returns the same. -/
theorem Agree.of_ok {a : α} {s : ParserState} {r : EStateM.Result Abort ParserState α}
    {good bad : ParserState → Prop} (h : Agree m m.Behind (.ok a s) r) (hr : Ends good bad r) :
    r = .ok a m.other := by
  cases h with
  | ok a h => rw [h.2]
  | exhausted' => exact hr.elim

/-- The other run, unless its bound is used up, ends with the same mistake. -/
theorem Agree.of_mistake {e : ParseError} {s : ParserState}
    {r : EStateM.Result Abort ParserState α} {good bad : ParserState → Prop}
    (h : Agree m ok (.error (.mistake e) s) r) (hr : Ends good bad r) :
    e.found ∈ m.tokens ∧ ∃ ts, ts <:+ m.inner ∧ r = .error (.mistake e) (m.before m.other ts) := by
  cases h with
  | mistake e he h =>
    obtain ⟨ts, hts, -, rfl⟩ := h
    exact ⟨he, ts, hts, rfl⟩
  | exhausted' => exact hr.elim

theorem AlikeAt.bind {f f' : α → Parser β} (hp : AlikeAt m m.Inside ts p p')
    (hf : ∀ a, Alike m ok (f a) (f' a)) : AlikeAt m ok ts (p >>= f) (p' >>= f') := by
  refine Agree.bind hp fun a s s' h => ?_
  obtain ⟨us, hus, rfl, rfl⟩ := h
  exact hf a us hus

/-- Looking at the next token. -/
theorem AlikeAt.peek {f f' : Token → Parser β} (h : AlikeAt m ok ts (f (m.next ts)) (f' (m.next ts))) :
    AlikeAt m ok ts (Parser.peek >>= f) (Parser.peek >>= f') := by
  have hpeek (s : ParserState) : Parser.peek (m.before s ts) = .ok (m.next ts) (m.before s ts) :=
    congrArg (EStateM.Result.ok · _) (Seam.next_before s)
  unfold AlikeAt
  rw [bind_apply, bind_apply, hpeek, hpeek]
  exact h

/-- Reading the token in front. -/
theorem AlikeAt.advance {t : Token} {f f' : Token → Parser β} (h : ts <:+ m.inner)
    (hf : Alike m ok (f t) (f' t)) :
    AlikeAt m ok (t :: ts) (Parser.advance >>= f) (Parser.advance >>= f') := by
  unfold AlikeAt
  rw [bind_apply, bind_apply]
  exact hf ts h

/-- Reading a token that is not the semicolon. -/
theorem AlikeAt.take {f f' : Token → Parser β} (h : ts <:+ m.inner)
    (hk : (m.next ts).kind ≠ .symbol .semicolon)
    (hf : ∀ t ∈ m.tokens, Alike m ok (f t) (f' t)) :
    AlikeAt m ok ts (Parser.advance >>= f) (Parser.advance >>= f') := by
  cases ts with
  | nil => exact absurd m.kind_semicolon hk
  | cons t us =>
    have ht : m.next (t :: us) ∈ m.tokens := Seam.next_mem h
    exact .advance ((List.suffix_cons t us).trans h) (hf t ht)

theorem AlikeAt.mistake {e : ParseError} (h : ts <:+ m.inner) (he : e.found ∈ m.tokens) :
    AlikeAt m ok ts (throw (.mistake e) : Parser α) (throw (.mistake e)) :=
  Agree.mistake e he ⟨ts, h, rfl, rfl⟩

namespace Alike

theorem pure (a : α) : Alike m m.Inside (pure a : Parser α) (Pure.pure a) :=
  fun ts h => .ok a ⟨ts, h, rfl, rfl⟩

theorem mistake {e : ParseError} (he : e.found ∈ m.tokens) :
    Alike m ok (throw (.mistake e) : Parser α) (throw (.mistake e)) :=
  fun _ h => .mistake h he

theorem exhausted : Alike m ok (throw .exhausted : Parser α) p' := fun _ _ => .exhausted _ _

theorem exhausted' : Alike m ok p (throw .exhausted : Parser α) := fun _ _ => .exhausted' _ _

theorem bind {f f' : α → Parser β} (hp : Alike m m.Inside p p')
    (hf : ∀ a, Alike m ok (f a) (f' a)) : Alike m ok (p >>= f) (p' >>= f') :=
  fun ts h => (hp ts h).bind hf

/-- What is returned behind the semicolon is made of the same results. -/
theorem map (hp : Alike m m.Behind p p') (g : α → β) :
    Alike m m.Behind (p >>= fun a => Pure.pure (g a)) (p' >>= fun a => Pure.pure (g a)) :=
  fun ts h => Agree.bind (hp ts h) fun a _ _ h => .ok (g a) h

theorem ite {c : Prop} [Decidable c] {q q' : Parser α} (hp : Alike m ok p p')
    (hq : Alike m ok q q') : Alike m ok (if c then p else q) (if c then p' else q') := by
  split
  · exact hp
  · exact hq

/-! ## The smallest steps -/

theorem peek {f f' : Token → Parser β}
    (hf : ∀ ts, ts <:+ m.inner → AlikeAt m ok ts (f (m.next ts)) (f' (m.next ts))) :
    Alike m ok (Parser.peek >>= f) (Parser.peek >>= f') := fun ts h => .peek (hf ts h)

theorem failHere (e : Expectation) : Alike m ok (Parser.failHere e : Parser α) (Parser.failHere e) :=
  peek fun _ h => .mistake h (Seam.next_mem h)

theorem check (k : TokenKind) : Alike m m.Inside (Parser.check k) (Parser.check k) :=
  peek fun ts h => pure _ ts h

/-- A step behind a test for a token of kind `k` that comes next. -/
theorem checkThen {k : TokenKind} {q q' : Parser α}
    (hp : ∀ ts, ts <:+ m.inner → (m.next ts).kind = k → AlikeAt m ok ts p p')
    (hq : ∀ ts, ts <:+ m.inner → (m.next ts).kind ≠ k → AlikeAt m ok ts q q') :
    Alike m ok (Parser.check k >>= fun b => if b = true then p else q)
      (Parser.check k >>= fun b => if b = true then p' else q') := by
  intro ts h
  unfold AlikeAt
  rw [bind_apply, bind_apply, check_apply, check_apply, Seam.next_before, Seam.next_before]
  by_cases hk : (m.next ts).kind = k
  · rw [decide_eq_true hk]
    exact hp ts h hk
  · rw [decide_eq_false hk]
    exact hq ts h hk

theorem atEnd : Alike m m.Inside Parser.atEnd Parser.atEnd := by
  intro ts h
  have hfalse (s : ParserState) : Parser.atEnd (m.before s ts) = .ok false (m.before s ts) := by
    cases ts <;> rfl
  unfold AlikeAt
  rw [hfalse, hfalse]
  exact .ok false ⟨ts, h, rfl, rfl⟩

theorem accept {k : TokenKind} (hk : k ≠ .symbol .semicolon) :
    Alike m m.Inside (Parser.accept k) (Parser.accept k) :=
  checkThen (fun _ h hc => .take h (hc ▸ hk) fun _ _ => pure true) fun ts h _ => pure false ts h

theorem expect {k : TokenKind} (hk : k ≠ .symbol .semicolon) (e : Expectation) :
    Alike m m.Inside (Parser.expect k e) (Parser.expect k e) :=
  checkThen (fun ts h hc => by
    have htake : AlikeAt m m.Inside ts (Parser.advance >>= Pure.pure)
        (Parser.advance >>= Pure.pure) := .take h (hc ▸ hk) fun t _ => pure t
    simpa only [bind_pure] using htake) fun ts h _ => failHere e ts h

theorem expectSymbol {s : Symbol} (hs : s ≠ .semicolon) (place : String) :
    Alike m m.Inside (Parser.expectSymbol s place) (Parser.expectSymbol s place) :=
  (expect (fun h => hs (TokenKind.symbol.inj h)) _).bind fun _ => pure ()

/-- The semicolon is the only end of a statement within reach. -/
theorem expectTerminator (place : String) :
    Alike m m.Behind (Parser.expectTerminator place) (Parser.expectTerminator place) := by
  intro ts h
  by_cases hk : (m.next ts).kind = .symbol .semicolon
  · have hts : ts = [] := by
      cases ts with
      | nil => rfl
      | cons t us => exact absurd hk (m.inner_inner t (h.subset List.mem_cons_self)).semicolon
    have hread (s : ParserState) : Parser.expectTerminator place (m.before s ts) = .ok () s := by
      unfold Parser.expectTerminator
      rw [bind_apply, accept_apply, Seam.next_before, if_pos hk, hts]
      rfl
    unfold AlikeAt
    rw [hread, hread]
    exact .ok () ⟨rfl, rfl⟩
  · have hread (s : ParserState) : Parser.expectTerminator place (m.before s ts) =
        .error (.mistake ⟨.symbol .semicolon place, m.next ts⟩) (m.before s ts) := by
      unfold Parser.expectTerminator
      rw [bind_apply, accept_apply, Seam.next_before, if_neg hk]
      have hcheck : Parser.checkSymbol .rightBrace (m.before s ts) = .ok false (m.before s ts) := by
        unfold Parser.checkSymbol
        rw [check_apply, Seam.next_before, decide_eq_false (Seam.next_ne_rightBrace h)]
      have hend : Parser.atEnd (m.before s ts) = .ok false (m.before s ts) := by
        cases ts <;> rfl
      simp only [Bool.false_eq_true, ↓reduceIte, bind_apply, hcheck, hend]
      show EStateM.Result.error (Abort.mistake ⟨_, (m.before s ts).next⟩) _ = _
      rw [Seam.next_before]
    unfold AlikeAt
    rw [hread, hread]
    exact .mistake _ (Seam.next_mem h) ⟨ts, h, rfl, rfl⟩

theorem commaList {item item' : Parser α} (hi : Alike m m.Inside item item') (fuel fuel' : Nat) :
    Alike m m.Inside (Parser.commaList item fuel) (Parser.commaList item' fuel') := by
  induction fuel generalizing fuel' with
  | zero => exact exhausted
  | succ fuel ih =>
    cases fuel' with
    | zero => exact exhausted'
    | succ fuel' =>
      refine hi.bind fun _ => (accept (by decide)).bind fun _ => ite ?_ (pure _)
      exact (ih fuel').bind fun _ => pure _

theorem looseCommaList {close : Symbol} {item item' : Parser α} (hi : Alike m m.Inside item item')
    (fuel fuel' : Nat) : Alike m m.Inside (Parser.looseCommaList close item fuel)
      (Parser.looseCommaList close item' fuel') := by
  induction fuel generalizing fuel' with
  | zero => exact exhausted
  | succ fuel ih =>
    cases fuel' with
    | zero => exact exhausted'
    | succ fuel' =>
      refine (check _).bind fun _ => ite (pure _) <| hi.bind fun _ =>
        (accept (by decide)).bind fun _ => ite ?_ (pure _)
      exact (ih fuel').bind fun _ => pure _

theorem parameters (fuel fuel' : Nat) :
    Alike m m.Inside (Parser.parameters fuel) (Parser.parameters fuel') := by
  have hname : Alike m m.Inside (do return (← Parser.expectName "parameter name").lexeme)
      (do return (← Parser.expectName "parameter name").lexeme) :=
    (expect (by decide) _).bind fun _ => pure _
  unfold Parser.parameters
  refine (expectSymbol (by decide) _).bind fun _ => (check _).bind fun _ => ite ?_ ?_
  · exact (expectSymbol (by decide) _).bind fun _ => pure []
  · exact (commaList hname fuel fuel').bind fun _ =>
      (expectSymbol (by decide) _).bind fun _ => pure _

end Alike

/-! ## Looking for the arrow of a lambda -/

/-- What the search for an arrow asks of the next two tokens and of the one behind them. -/
theorem namesThenArrow_cons_cons (t t' : Token) (ts : List Token) :
    namesThenArrow (t :: t' :: ts) =
      (decide (t.kind = .identifier) && (decide (t'.kind = .symbol .comma) && namesThenArrow ts ||
        decide (t'.kind = .symbol .rightParen) && ts.head?.any (·.kind = .symbol .arrow))) := by
  obtain ⟨k, l, p⟩ := t
  obtain ⟨k', l', p'⟩ := t'
  rw [namesThenArrow.eq_def]
  split
  · simp_all
  · simp_all
  · rename_i hmore hlast
    have hcomma : k = .identifier → k' ≠ .symbol .comma := by
      rintro rfl rfl
      exact hmore _ _ _ _ _ rfl
    have harrow : k = .identifier → k' = .symbol .rightParen →
        ts.head?.any (·.kind = .symbol .arrow) = false := by
      rintro rfl rfl
      rcases ts with _ | ⟨⟨k'', l'', p''⟩, ts⟩
      · rfl
      · have hk : k'' ≠ .symbol .arrow := by
          rintro rfl
          exact hlast _ _ _ _ _ _ _ rfl
        simpa using hk
    grind

theorem namesThenArrow_cons_of_ne {t : Token} (ts : List Token) (ht : t.kind ≠ .identifier) :
    namesThenArrow (t :: ts) = false := by
  obtain ⟨k, l, p⟩ := t
  rw [namesThenArrow.eq_def]
  split <;> simp_all

/-- An arrow that is looked for stands before the semicolon or not at all. -/
theorem namesThenArrow_before (m : Seam) (us us' : List Token) : (ts : List Token) →
    namesThenArrow (ts ++ m.semicolon :: us) = namesThenArrow (ts ++ m.semicolon :: us')
  | [] => by
    have hk : m.semicolon.kind ≠ .identifier := by simp [m.kind_semicolon]
    exact (namesThenArrow_cons_of_ne us hk).trans (namesThenArrow_cons_of_ne us' hk).symm
  | [t] => by simp [namesThenArrow_cons_cons, m.kind_semicolon]
  | t :: t' :: ts => by
    have ih := namesThenArrow_before m us us' ts
    simp only [List.cons_append, namesThenArrow_cons_cons, ih]
    cases ts <;> rfl

theorem startsLambda_cons (t : Token) (ts : List Token) :
    startsLambda (t :: ts) = (decide (t.kind = .symbol .leftParen) &&
      (ts.head?.any (·.kind = .symbol .rightParen) && ts.tail.head?.any (·.kind = .symbol .arrow) ||
        namesThenArrow ts)) := by
  obtain ⟨k, l, p⟩ := t
  rw [startsLambda.eq_def]
  split
  · rename_i heq
    cases heq
    rfl
  · rename_i hempty heq
    cases heq
    have hfalse : (ts.head?.any (·.kind = .symbol .rightParen) &&
        ts.tail.head?.any (·.kind = .symbol .arrow)) = false := by
      rcases ts with _ | ⟨⟨k', l', p'⟩, _ | ⟨⟨k'', l'', p''⟩, ts⟩⟩
      · rfl
      · simp
      · by_contra htrue
        simp only [List.head?_cons, Option.any_some, List.tail_cons, Bool.not_eq_false,
          Bool.and_eq_true, decide_eq_true_eq] at htrue
        obtain ⟨rfl, rfl⟩ := htrue
        exact hempty _ _ _ _ _ rfl
    rw [hfalse]
    rfl
  · rename_i hother
    have hk : k ≠ .symbol .leftParen := by
      rintro rfl
      exact hother _ _ _ rfl
    simp [hk]

theorem startsLambda_before (m : Seam) (us us' ts : List Token) :
    startsLambda (ts ++ m.semicolon :: us) = startsLambda (ts ++ m.semicolon :: us') := by
  have hk := m.kind_semicolon
  cases ts with
  | nil => simp [startsLambda_cons, hk]
  | cons t ts =>
    have hnames := namesThenArrow_before m us us' ts
    simp only [List.cons_append, startsLambda_cons, hnames]
    rcases ts with _ | ⟨t', _ | ⟨t'', ts⟩⟩ <;> simp [hk]

/-! ## The rules -/

/-- The parsers of the rules do the same on both sides of the seam. -/
structure RulesAlike (m : Seam) (rules rules' : Rules) : Prop where
  expression : Alike m m.Inside (rules .expression) (rules' .expression)
  operand (level : Nat) : Alike m m.Inside (rules (.operand level)) (rules' (.operand level))
  unary : Alike m m.Inside (rules .unary) (rules' .unary)
  statement : Alike m m.Behind (rules .statement) (rules' .statement)

namespace Alike

section

variable {rules rules' : Rules} (hr : RulesAlike m rules rules') (fuel fuel' : Nat)
include hr

theorem arguments : Alike m m.Inside (arguments rules fuel) (arguments rules' fuel') := by
  unfold Parser.arguments
  refine (check _).bind fun _ => ite ?_ ?_
  · exact (expectSymbol (by decide) _).bind fun _ => pure []
  · exact (commaList hr.expression _ _).bind fun _ =>
      (expectSymbol (by decide) _).bind fun _ => pure _

omit hr in
/-- A body in braces is not within reach. -/
theorem acceptBrace {p p' q q' : Parser α} (hq : Alike m ok q q') :
    Alike m ok (Parser.accept (.symbol .leftBrace) >>= fun b => if b = true then p else q)
      (Parser.accept (.symbol .leftBrace) >>= fun b => if b = true then p' else q') := by
  intro ts h
  have hk := Seam.next_ne_leftBrace h
  unfold AlikeAt
  rw [bind_apply, bind_apply, accept_apply, accept_apply, Seam.next_before, Seam.next_before,
    if_neg hk, if_neg hk]
  exact hq ts h

theorem lambda : Alike m m.Inside (lambda rules fuel) (lambda rules' fuel') := by
  unfold Parser.lambda
  refine peek fun ts h => ((parameters fuel fuel').bind fun params => ?_) ts h
  refine (expectSymbol (by decide) _).bind fun _ => acceptBrace ?_
  exact hr.expression.bind fun value => pure _

theorem primary : Alike m m.Inside (primary rules fuel) (primary rules' fuel') := by
  refine peek fun ts h => ?_
  dsimp only
  split <;> rename_i hk
  · refine .take h (by simp [hk]) fun _ _ => ?_
    split
    · exact pure _
    · exact mistake (Seam.next_mem h)
  iterate 6 exact .take h (by simp [hk]) fun _ _ => pure _
  · have hstarts : startsLambda (m.before m.one ts).rest = startsLambda (m.before m.other ts).rest :=
      startsLambda_before m _ _ ts
    show Agree m m.Inside
      ((if startsLambda (m.before m.one ts).rest = true then Parser.lambda rules fuel else _) _)
      ((if startsLambda (m.before m.other ts).rest = true then Parser.lambda rules' fuel' else _) _)
    rw [hstarts]
    split
    · exact lambda hr fuel fuel' ts h
    · exact AlikeAt.take h (by simp [hk]) fun _ _ => hr.expression.bind fun _ =>
        (expectSymbol (by decide) _).bind fun _ => pure _
  · exact .take h (by simp [hk]) fun _ _ => (looseCommaList hr.expression _ _).bind fun _ =>
      (expectSymbol (by decide) _).bind fun _ => pure _
  · exact absurd hk (Seam.next_ne_leftBrace h)
  · exact failHere _ ts h

theorem accesses (e : Expr) :
    Alike m m.Inside (accesses rules fuel e) (accesses rules' fuel' e) := by
  induction fuel generalizing fuel' e with
  | zero => exact exhausted
  | succ fuel ih =>
    cases fuel' with
    | zero => exact exhausted'
    | succ fuel' =>
      refine (accept (by decide)).bind fun _ => ite ?_ <| (accept (by decide)).bind fun _ => ite ?_ <|
        (accept (by decide)).bind fun _ => ite ?_ (pure _)
      · exact (arguments hr fuel fuel').bind fun args => ih fuel' _
      · exact (expect (by decide) _).bind fun _ => ih fuel' _
      · exact hr.expression.bind fun _ => (expectSymbol (by decide) _).bind fun _ => ih fuel' _

theorem unary : Alike m m.Inside (unary rules fuel) (unary rules' fuel') := by
  refine peek fun ts h => ?_
  split <;> rename_i hop
  · have hk : (m.next ts).kind ≠ .symbol .semicolon := fun hk => by
      rw [hk] at hop
      cases hop
    exact .take h hk fun t _ => hr.unary.bind fun _ => pure _
  · exact ((primary hr fuel fuel').bind fun e => accesses hr fuel fuel' e) ts h

theorem climb (level : Nat) (left : Expr) :
    Alike m m.Inside (climb rules level fuel left) (climb rules' level fuel' left) := by
  induction fuel generalizing fuel' left with
  | zero => exact exhausted
  | succ fuel ih =>
    cases fuel' with
    | zero => exact exhausted'
    | succ fuel' =>
      refine peek fun ts h => ?_
      split <;> rename_i hop
      · have hk : (m.next ts).kind ≠ .symbol .semicolon := fun hk => by
          rw [hk] at hop
          cases hop
        split
        · exact pure _ ts h
        · exact .take h hk fun _ _ => (hr.operand _).bind fun right => ih fuel' _
      · exact pure _ ts h

theorem operand (level : Nat) :
    Alike m m.Inside (operand rules fuel level) (operand rules' fuel' level) :=
  (unary hr fuel fuel').bind fun _ => climb hr fuel fuel' level _

theorem expression : Alike m m.Inside (expression rules fuel) (expression rules' fuel') := by
  refine (operand hr fuel fuel' 1).bind fun left => checkThen (fun ts h hk => ?_) fun ts h _ =>
    pure _ ts h
  refine .take h (by simp [hk]) fun equals hequals => hr.expression.bind fun value => ?_
  split
  · exact pure _
  · exact mistake hequals

theorem variableDeclaration (p : Position) (mode : Mode) :
    Alike m m.Behind (variableDeclaration rules p mode) (variableDeclaration rules' p mode) := by
  have hend (x : Token) (init : Option Expr) : Alike m m.Behind
      (do
        if mode = .constant && init.isNone then
          Parser.failHere (.symbol .equal "after constant name")
        Parser.expectTerminator "after variable declaration"
        return Stmt.declare p mode x.lexeme init)
      (do
        if mode = .constant && init.isNone then
          Parser.failHere (.symbol .equal "after constant name")
        Parser.expectTerminator "after variable declaration"
        return Stmt.declare p mode x.lexeme init) := by
    have hend := (expectTerminator (m := m) "after variable declaration").map
      fun _ => Stmt.declare p mode x.lexeme init
    exact ite ((failHere _).bind fun _ => hend) hend
  unfold Parser.variableDeclaration
  refine (expect (by decide) _).bind fun x => (accept (by decide)).bind fun _ => ite ?_ (hend x none)
  exact hr.expression.bind fun value => hend x (some value)

omit hr in
/-- An opening brace is not within reach, so a mistake is reported where one is asked for. -/
theorem expectBrace (place : String) (f : Unit → Parser α) (f' : Unit → Parser α) :
    Alike m ok (Parser.expectSymbol .leftBrace place >>= f)
      (Parser.expectSymbol .leftBrace place >>= f') := by
  intro ts h
  have hread (s : ParserState) : Parser.expectSymbol .leftBrace place (m.before s ts) =
      .error (.mistake ⟨.symbol .leftBrace place, m.next ts⟩) (m.before s ts) := by
    unfold Parser.expectSymbol
    rw [bind_apply, expect_apply, Seam.next_before, if_neg (Seam.next_ne_leftBrace h)]
  unfold AlikeAt
  rw [bind_apply, bind_apply, hread, hread]
  exact .mistake _ (Seam.next_mem h) ⟨ts, h, rfl, rfl⟩

omit hr in
theorem routine (what : String) :
    Alike m m.Behind (routine rules fuel what) (routine rules' fuel' what) :=
  (expect (by decide) _).bind fun _ => (parameters _ _).bind fun _ => expectBrace _ _ _

omit hr in
theorem classDefinition (p : Position) :
    Alike m m.Behind (classDefinition rules fuel p) (classDefinition rules' fuel' p) :=
  (expect (by decide) _).bind fun _ => expectBrace _ _ _

/-- The statement ends with the semicolon, behind which there is no `else`. -/
theorem conditional (p : Position) :
    Alike m m.Behind (conditional rules p) (conditional rules' p) := by
  unfold Parser.conditional
  refine (expectSymbol (by decide) _).bind fun _ => hr.expression.bind fun test =>
    (expectSymbol (by decide) _).bind fun _ ts h => Agree.bind (hr.statement ts h) ?_
  rintro yes s s' ⟨rfl, rfl⟩
  rw [bind_apply, bind_apply, accept_apply, accept_apply, if_neg m.one_next, if_neg m.other_next]
  exact .ok (Stmt.conditional p test yes none) ⟨rfl, rfl⟩

theorem whileLoop (p : Position) : Alike m m.Behind (whileLoop rules p) (whileLoop rules' p) :=
  (expectSymbol (by decide) _).bind fun _ => hr.expression.bind fun _ =>
    (expectSymbol (by decide) _).bind fun _ => hr.statement.map _

theorem foreachLoop (p : Position) : Alike m m.Behind (foreachLoop rules p) (foreachLoop rules' p) := by
  have hrest (x : Token) : Alike m m.Behind
      (do
        let items ← rules .expression
        Parser.expectSymbol .rightParen "after foreach iterable"
        return Stmt.foreachLoop p x.lexeme items (← rules .statement))
      (do
        let items ← rules' .expression
        Parser.expectSymbol .rightParen "after foreach iterable"
        return Stmt.foreachLoop p x.lexeme items (← rules' .statement)) :=
    hr.expression.bind fun _ => (expectSymbol (by decide) _).bind fun _ => hr.statement.map _
  unfold Parser.foreachLoop
  refine (expectSymbol (by decide) _).bind fun _ => (accept (by decide)).bind fun _ =>
    (expect (by decide) _).bind fun x => peek fun ts h => ?_
  split <;> rename_i hin
  · simp only [Bool.and_eq_true, decide_eq_true_eq] at hin
    exact .take h (by simp [hin.1]) fun _ _ => hrest x
  · exact ((expectSymbol (by decide) _).bind fun _ => hrest x) ts h

theorem returnStatement (p : Position) :
    Alike m m.Behind (returnStatement rules p) (returnStatement rules' p) := by
  have hend (value : Option Expr) := (expectTerminator (m := m) "after return value").map
    fun _ => Stmt.returnStmt p value
  unfold Parser.returnStatement
  refine (check _).bind fun _ => (check _).bind fun _ => atEnd.bind fun _ => ite (hend none) ?_
  exact hr.expression.bind fun value => hend (some value)

/-- A statement within the seam is an expression. -/
theorem statement : Alike m m.Behind (statement rules fuel) (statement rules' fuel') := by
  refine peek fun ts h => ?_
  have hword := Seam.next_startsStatement h
  dsimp only
  split <;> rename_i hk
  iterate 7
    rw [hk] at hword
    cases hword
  · exact absurd hk (Seam.next_ne_leftBrace h)
  · exact ((expression hr fuel fuel').bind fun e => (expectTerminator _).map _) ts h

theorem declaration : Alike m m.Behind (declaration rules fuel) (declaration rules' fuel') := by
  refine peek fun ts h => ?_
  have hword := Seam.next_startsStatement h
  dsimp only
  split <;> rename_i hk
  iterate 4
    rw [hk] at hword
    cases hword
  · exact statement hr fuel fuel' ts h

/-- A declaration or a statement that starts with a word for one, but for a loop with clauses. -/
theorem declarationWord {t : Token} (hword : t.kind.startsStatement = true)
    (hfor : t.kind ≠ .keyword .forWord) (h : ts <:+ m.inner) :
    AlikeAt m m.Behind (t :: ts) (Parser.declaration rules fuel)
      (Parser.declaration rules' fuel') := by
  refine .peek ?_
  have hnext : m.next (t :: ts) = t := rfl
  rw [hnext]
  dsimp only
  split <;> rename_i hk
  · exact .advance h (variableDeclaration hr _ _)
  · exact .advance h (variableDeclaration hr _ _)
  · exact .advance h ((routine fuel fuel' _).map _)
  · exact .advance h (classDefinition fuel fuel' _)
  · refine .peek ?_
    rw [hnext]
    dsimp only
    split <;> rename_i hk'
    · exact .advance h (conditional hr _)
    · exact .advance h (whileLoop hr _)
    · exact absurd hk' hfor
    · exact .advance h (foreachLoop hr _)
    · exact .advance h (returnStatement hr _)
    · exact .advance h ((expectTerminator _).map _)
    · exact .advance h ((expectTerminator _).map _)
    · rw [hk'] at hword
      cases hword
    · cases hkind : t.kind with
      | keyword w => cases w <;> simp_all [TokenKind.startsStatement, Keyword.startsStatement]
      | _ =>
        rw [hkind] at hword
        cases hword

end

end Alike

/-- Parsers with bounds of their own do the same, unless they use these up. -/
theorem rulesAlike_parse (m : Seam) (n n' : Nat) :
    RulesAlike m (fun rule s => Rule.parse n rule s) (fun rule s => Rule.parse n' rule s) := by
  induction n generalizing n' with
  | zero => exact ⟨.exhausted, fun _ => .exhausted, .exhausted, .exhausted⟩
  | succ n ih =>
    cases n' with
    | zero => exact ⟨.exhausted', fun _ => .exhausted', .exhausted', .exhausted'⟩
    | succ n' =>
      exact {
        expression := .expression (ih n') _ _
        operand := .operand (ih n') _ _
        unary := .unary (ih n') _ _
        statement := .statement (ih n') _ _ }

/-- After a mistake, reading resumes behind the semicolon. -/
theorem resume_before (m : Seam) (inBlock : Bool) {ts : List Token} (h : ts <:+ m.inner)
    (us : List Token) : resume inBlock (ts ++ m.semicolon :: us) = us := by
  induction ts with
  | nil => simp [resume, m.kind_semicolon, TokenKind.startsStatement]
  | cons t ts ih =>
    have ht := m.inner_inner t (h.subset List.mem_cons_self)
    have hgo : ¬ (t.kind.startsStatement || (inBlock && t.kind = .symbol .rightBrace)) = true := by
      simp [ht.word, ht.rightBrace]
    rw [List.cons_append, resume, if_neg hgo, if_neg ht.semicolon]
    exact ih ((List.suffix_cons t ts).trans h)

end Parser

end Scriptlet
