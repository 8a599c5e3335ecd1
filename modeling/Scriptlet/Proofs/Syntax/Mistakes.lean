import Scriptlet.Proofs.Syntax.Termination

/-!
# Where mistakes are reported

A mistake names the token that does not fit, and so has its position. That this is a
token of the text, or the end of input behind it, is what `Reports` says of a step of
the parser: if all that the step may look at is in a list of tokens, then so are the
tokens of the mistakes that it records or ends with; and a number that cannot be read is
reported only of a number token that has no literal (`ParseError.Fits`). There is one rule
for each of the parser's smallest steps and one for each way to put steps together.

`parse_error` joins this with the faults of the text: all errors are at tokens, they
come in the order of their positions, and each fault is among them once.
-/

namespace Scriptlet

/-- The mistake is at a token of the list; if it is that a number cannot be read, then the token is a
number and has no literal. -/
structure ParseError.Fits (pool : List Token) (e : ParseError) : Prop where
  found : e.found ∈ pool
  number : e.expectation = .validNumber → e.found.kind = .number ∧ numberLiteral? e.found = none

/-- All tokens that the state knows, in the text ahead and in mistakes, are in the list. -/
structure ParserState.DrawsOn (pool : List Token) (s : ParserState) : Prop where
  rest : s.rest ⊆ pool
  endToken : s.endToken ∈ pool
  mistakes : ∀ e ∈ s.mistakes, e.Fits pool

namespace Parser

variable {α β : Type} {pool : List Token} {Q : α → Prop} {R : β → Prop}

/-- If the state draws on the list of tokens, so do the state after the step and the mistake that the
step ends with; a result satisfies `Q`. -/
def Reports (pool : List Token) (p : Parser α) (Q : α → Prop) : Prop :=
  ∀ s : ParserState, s.DrawsOn pool →
    match p s with
    | .ok a s' => s'.DrawsOn pool ∧ Q a
    | .error (.mistake e) s' => s'.DrawsOn pool ∧ e.Fits pool
    | .error .exhausted _ => True

namespace Reports

theorem pure {a : α} (h : Q a) : Reports pool (Pure.pure a) Q := fun _ hs => ⟨hs, h⟩

theorem done {a : α} : Reports pool (Pure.pure a) fun _ => True := pure trivial

theorem exhausted : Reports pool (throw .exhausted : Parser α) Q := fun _ _ => trivial

theorem mistake {e : ParseError} (h : e.Fits pool) :
    Reports pool (throw (.mistake e) : Parser α) Q := fun _ hs => ⟨hs, h⟩

theorem bind {p : Parser α} {f : α → Parser β} (hp : Reports pool p Q)
    (hf : ∀ a, Q a → Reports pool (f a) R) : Reports pool (p >>= f) R := by
  intro s hs
  have hp := hp s hs
  rw [bind_apply]
  cases h : p s with
  | ok a s₁ =>
    rw [h] at hp
    exact hf a hp.2 s₁ hp.1
  | error e s₁ =>
    rw [h] at hp
    cases e <;> exact hp

theorem ite {c : Prop} [Decidable c] {p q : Parser α} (hp : Reports pool p Q)
    (hq : Reports pool q Q) : Reports pool (if c then p else q) Q := by
  split
  · exact hp
  · exact hq

theorem next_mem {s : ParserState} (hs : s.DrawsOn pool) : s.next ∈ pool := by
  unfold ParserState.next
  cases h : s.rest with
  | nil => exact hs.endToken
  | cons t ts => exact hs.rest (by rw [h]; exact List.mem_cons_self)

theorem peek : Reports pool peek fun t => t ∈ pool := fun _ hs => ⟨hs, next_mem hs⟩

theorem advance : Reports pool advance fun t => t ∈ pool := fun s hs =>
  ⟨⟨List.Subset.trans (List.tail_sublist s.rest).subset hs.rest, hs.endToken, hs.mistakes⟩,
    next_mem hs⟩

theorem get : Reports pool get fun _ => True := fun _ hs => ⟨hs, trivial⟩

theorem modifyDepth (f : Nat → Nat) :
    Reports pool (modify fun s => { s with blockDepth := f s.blockDepth }) fun _ => True :=
  fun _ hs => ⟨⟨hs.rest, hs.endToken, hs.mistakes⟩, trivial⟩

theorem failHere {e : Expectation} (he : e ≠ .validNumber) :
    Reports pool (failHere e : Parser α) Q :=
  peek.bind fun _ ht => mistake ⟨ht, fun hnumber => absurd hnumber he⟩

theorem check {k : TokenKind} : Reports pool (check k) fun _ => True := peek.bind fun _ _ => done

theorem atEnd : Reports pool atEnd fun _ => True := get.bind fun _ _ => done

theorem accept {k : TokenKind} : Reports pool (accept k) fun _ => True :=
  check.bind fun _ _ => ite (advance.bind fun _ _ => done) done

theorem expect {k : TokenKind} {e : Expectation} (he : e ≠ .validNumber) :
    Reports pool (expect k e) fun _ => True :=
  check.bind fun _ _ => ite (advance.bind fun _ _ => done) (failHere he)

theorem expectSymbol {k : Symbol} {place : String} :
    Reports pool (expectSymbol k place) fun _ => True :=
  (expect (by simp)).bind fun _ _ => done

theorem expectName {what : String} : Reports pool (expectName what) fun _ => True := expect nofun

theorem expectTerminator {place : String} : Reports pool (expectTerminator place) fun _ => True :=
  accept.bind fun _ _ => ite done <| check.bind fun _ _ => ite done <|
    atEnd.bind fun _ _ => ite done (failHere nofun)

theorem commaList {item : Parser α} (hi : Reports pool item fun _ => True) (fuel : Nat) :
    Reports pool (commaList item fuel) fun _ => True := by
  induction fuel with
  | zero => exact exhausted
  | succ fuel ih =>
    exact hi.bind fun _ _ => accept.bind fun _ _ => ite (ih.bind fun _ _ => done) done

theorem looseCommaList {item : Parser α} (hi : Reports pool item fun _ => True) {close : Symbol}
    (fuel : Nat) : Reports pool (looseCommaList close item fuel) fun _ => True := by
  induction fuel with
  | zero => exact exhausted
  | succ fuel ih =>
    refine check.bind fun _ _ => ite done <| hi.bind fun _ _ => accept.bind fun _ _ => ite ?_ done
    exact ih.bind fun _ _ => done

theorem itemsToBrace {item : Parser α} (hi : Reports pool item fun _ => True) (fuel : Nat) :
    Reports pool (itemsToBrace item fuel) fun _ => True := by
  induction fuel with
  | zero => exact exhausted
  | succ fuel ih =>
    refine check.bind fun _ _ => atEnd.bind fun _ _ => ite done <| hi.bind fun _ _ => ?_
    exact ih.bind fun _ _ => done

theorem parameters {fuel : Nat} : Reports pool (parameters fuel) fun _ => True := by
  unfold Parser.parameters
  refine expectSymbol.bind fun _ _ => check.bind fun _ _ => ?_
  have hend (params : List String) : Reports pool (do
      Parser.expectSymbol .rightParen "after parameters"
      return params) fun _ => True := expectSymbol.bind fun _ _ => done
  refine ite (hend []) ?_
  exact (commaList (expectName.bind fun _ _ => done) fuel).bind fun _ _ => hend _

/-- A mistake that is recorded is kept, and reading resumes within the tokens. -/
theorem recovering {item : Parser α} (hi : Reports pool item fun _ => True) :
    Reports pool (recovering item) fun _ => True := by
  intro s hs
  have hi := hi s hs
  rw [recovering_apply]
  cases h : item s with
  | ok a s₁ =>
    rw [h] at hi
    exact hi
  | error e s₁ =>
    rw [h] at hi
    cases e with
    | exhausted => exact trivial
    | mistake e =>
      obtain ⟨h₁, he⟩ := hi
      refine ⟨⟨?_, h₁.endToken, List.forall_mem_cons.mpr ⟨he, h₁.mistakes⟩⟩, trivial⟩
      exact List.Subset.trans (resume_suffix _ s₁.rest).subset h₁.rest

/-! ## The rules -/

section

variable {rules : Rules}
  (hr : ∀ {α : Type} (rule : Rule α), Reports pool (rules rule) fun _ => True)
include hr

theorem block {fuel : Nat} : Reports pool (block rules fuel) fun _ => True :=
  (modifyDepth (· + 1)).bind fun _ _ => (itemsToBrace (recovering (hr .declaration)) fuel).bind
    fun _ _ => (modifyDepth (· - 1)).bind fun _ _ => expectSymbol.bind fun _ _ => done

theorem arguments {fuel : Nat} : Reports pool (arguments rules fuel) fun _ => True := by
  unfold Parser.arguments
  refine check.bind fun _ _ => ite (expectSymbol.bind fun _ _ => done) ?_
  exact (commaList (hr .expression) fuel).bind fun _ _ => expectSymbol.bind fun _ _ => done

theorem entry : Reports pool (entry rules) fun _ => True :=
  peek.bind fun _ _ => ite (advance.bind fun _ _ => expectSymbol.bind fun _ _ =>
    (hr .expression).bind fun _ _ => done) (failHere nofun)

theorem lambda {fuel : Nat} : Reports pool (lambda rules fuel) fun _ => True := by
  unfold Parser.lambda
  refine peek.bind fun _ _ => parameters.bind fun _ _ => expectSymbol.bind fun _ _ =>
    accept.bind fun _ _ => ite ?_ ?_
  · exact (block hr).bind fun _ _ => done
  · exact (hr .expression).bind fun _ _ => done

theorem primary {fuel : Nat} : Reports pool (primary rules fuel) fun _ => True := by
  refine peek.bind fun t ht => ?_
  dsimp only
  split
  · rename_i hk
    refine advance.bind fun _ _ => ?_
    split
    · exact done
    · rename_i hnone
      exact mistake ⟨ht, fun _ => ⟨hk, hnone⟩⟩
  iterate 6 exact advance.bind fun _ _ => done
  · refine get.bind fun _ _ => ite (lambda hr) <| advance.bind fun _ _ => ?_
    exact (hr .expression).bind fun _ _ => expectSymbol.bind fun _ _ => done
  · exact advance.bind fun _ _ => (looseCommaList (hr .expression) fuel).bind fun _ _ =>
      expectSymbol.bind fun _ _ => done
  · exact advance.bind fun _ _ => (looseCommaList (entry hr) fuel).bind fun _ _ =>
      expectSymbol.bind fun _ _ => done
  · exact failHere nofun

theorem accesses (fuel : Nat) (e : Expr) : Reports pool (accesses rules fuel e) fun _ => True := by
  induction fuel generalizing e with
  | zero => exact exhausted
  | succ fuel ih =>
    refine accept.bind fun _ _ => ite ?_ <| accept.bind fun _ _ => ite ?_ <|
      accept.bind fun _ _ => ite ?_ done
    · exact (arguments hr).bind fun _ _ => ih _
    · exact expectName.bind fun _ _ => ih _
    · exact (hr .expression).bind fun _ _ => expectSymbol.bind fun _ _ => ih _

theorem unary {fuel : Nat} : Reports pool (unary rules fuel) fun _ => True := by
  refine peek.bind fun _ _ => ?_
  split
  · exact advance.bind fun _ _ => (hr .unary).bind fun _ _ => done
  · exact (primary hr).bind fun _ _ => accesses hr fuel _

theorem climb {level : Nat} (fuel : Nat) (left : Expr) :
    Reports pool (climb rules level fuel left) fun _ => True := by
  induction fuel generalizing left with
  | zero => exact exhausted
  | succ fuel ih =>
    refine peek.bind fun _ _ => ?_
    split
    · exact ite done <| advance.bind fun _ _ => (hr (.operand _)).bind fun _ _ => ih _
    · exact done

theorem operand {level fuel : Nat} : Reports pool (operand rules fuel level) fun _ => True :=
  (unary hr).bind fun _ _ => climb hr fuel _

theorem expression {fuel : Nat} : Reports pool (expression rules fuel) fun _ => True := by
  refine (operand hr).bind fun left _ => check.bind fun _ _ => ite ?_ done
  refine advance.bind fun equals hequals => (hr .expression).bind fun _ _ => ?_
  split
  · exact done
  · exact mistake ⟨hequals, nofun⟩

theorem variableDeclaration {p : Position} {mode : Mode} :
    Reports pool (variableDeclaration rules p mode) fun _ => True := by
  unfold Parser.variableDeclaration
  have hend (x : Token) (init : Option Expr) : Reports pool (do
      if mode = .constant && init.isNone then
        Parser.failHere (.symbol .equal "after constant name")
      Parser.expectTerminator "after variable declaration"
      return Stmt.declare p mode x.lexeme init) fun _ => True := by
    refine ite ((failHere (by simp)).bind (Q := fun _ => True) fun _ _ => ?_) ?_
    · exact expectTerminator.bind fun _ _ => done
    · exact expectTerminator.bind fun _ _ => done
  refine expectName.bind fun x _ => accept.bind fun _ _ => ite ?_ (hend x none)
  exact (hr .expression).bind fun value _ => hend x (some value)

theorem routine {fuel : Nat} {what : String} :
    Reports pool (routine rules fuel what) fun _ => True :=
  expectName.bind fun _ _ => parameters.bind fun _ _ => expectSymbol.bind fun _ _ =>
    (block hr).bind fun _ _ => done

theorem method {fuel : Nat} : Reports pool (method rules fuel) fun _ => True :=
  accept.bind fun _ _ => routine hr

theorem classDefinition {fuel : Nat} {p : Position} :
    Reports pool (classDefinition rules fuel p) fun _ => True :=
  expectName.bind fun _ _ => expectSymbol.bind fun _ _ => (itemsToBrace (method hr) fuel).bind
    fun _ _ => expectSymbol.bind fun _ _ => done

theorem conditional {p : Position} : Reports pool (conditional rules p) fun _ => True := by
  unfold Parser.conditional
  refine expectSymbol.bind fun _ _ => (hr .expression).bind fun _ _ => expectSymbol.bind fun _ _ =>
    (hr .statement).bind fun _ _ => accept.bind fun _ _ => ite ?_ done
  exact (hr .statement).bind fun _ _ => done

theorem whileLoop {p : Position} : Reports pool (whileLoop rules p) fun _ => True :=
  expectSymbol.bind fun _ _ => (hr .expression).bind fun _ _ => expectSymbol.bind fun _ _ =>
    (hr .statement).bind fun _ _ => done

theorem loopStart : Reports pool (loopStart rules) fun _ => True := by
  refine peek.bind fun _ _ => ?_
  split
  · exact advance.bind fun _ _ => done
  · exact advance.bind fun _ _ => (variableDeclaration hr).bind fun _ _ => done
  · exact advance.bind fun _ _ => (variableDeclaration hr).bind fun _ _ => done
  · exact (hr .expression).bind fun _ _ => expectSymbol.bind fun _ _ => done

theorem optionalBefore {close : Symbol} : Reports pool (optionalBefore rules close) fun _ => True :=
  check.bind fun _ _ => ite done ((hr .expression).bind fun _ _ => done)

theorem forLoop {p : Position} : Reports pool (forLoop rules p) fun _ => True :=
  expectSymbol.bind fun _ _ => (loopStart hr).bind fun _ _ => (optionalBefore hr).bind fun _ _ =>
    expectSymbol.bind fun _ _ => (optionalBefore hr).bind fun _ _ => expectSymbol.bind fun _ _ =>
    (hr .statement).bind fun _ _ => done

theorem foreachLoop {p : Position} : Reports pool (foreachLoop rules p) fun _ => True := by
  have hrest (x : Token) : Reports pool (do
      let items ← rules .expression
      Parser.expectSymbol .rightParen "after foreach iterable"
      return Stmt.foreachLoop p x.lexeme items (← rules .statement)) fun _ => True :=
    (hr .expression).bind fun _ _ => expectSymbol.bind fun _ _ => (hr .statement).bind fun _ _ => done
  unfold Parser.foreachLoop
  refine expectSymbol.bind fun _ _ => accept.bind fun _ _ => expectName.bind fun x _ =>
    peek.bind fun _ _ => ite ?_ ?_
  · exact advance.bind fun _ _ => hrest x
  · exact expectSymbol.bind fun _ _ => hrest x

theorem returnStatement {p : Position} : Reports pool (returnStatement rules p) fun _ => True := by
  unfold Parser.returnStatement
  refine check.bind fun _ _ => check.bind fun _ _ => atEnd.bind fun _ _ => ite ?_ ?_
  · exact expectTerminator.bind fun _ _ => done
  · exact (hr .expression).bind fun _ _ => expectTerminator.bind fun _ _ => done

theorem statement {fuel : Nat} : Reports pool (statement rules fuel) fun _ => True := by
  refine peek.bind fun _ _ => ?_
  dsimp only
  split
  · exact advance.bind fun _ _ => conditional hr
  · exact advance.bind fun _ _ => whileLoop hr
  · exact advance.bind fun _ _ => forLoop hr
  · exact advance.bind fun _ _ => foreachLoop hr
  · exact advance.bind fun _ _ => returnStatement hr
  · exact advance.bind fun _ _ => expectTerminator.bind fun _ _ => done
  · exact advance.bind fun _ _ => expectTerminator.bind fun _ _ => done
  · exact advance.bind fun _ _ => (block hr).bind fun _ _ => done
  · exact (expression hr).bind fun _ _ => expectTerminator.bind fun _ _ => done

theorem declaration {fuel : Nat} : Reports pool (declaration rules fuel) fun _ => True := by
  refine peek.bind fun _ _ => ?_
  dsimp only
  split
  · exact advance.bind fun _ _ => variableDeclaration hr
  · exact advance.bind fun _ _ => variableDeclaration hr
  · exact advance.bind fun _ _ => (routine hr).bind fun _ _ => done
  · exact advance.bind fun _ _ => classDefinition hr
  · exact statement hr

theorem program (fuel : Nat) : Reports pool (program rules fuel) fun _ => True := by
  induction fuel with
  | zero => exact exhausted
  | succ fuel ih =>
    refine atEnd.bind fun _ _ => ite done <| (recovering (hr .declaration)).bind fun _ _ => ?_
    exact ih.bind fun _ _ => done

end

theorem rule (fuel : Nat) {α : Type} (rule : Rule α) :
    Reports pool (fun s => Rule.parse fuel rule s) fun _ => True := by
  induction fuel generalizing α with
  | zero => exact exhausted
  | succ fuel ih =>
    cases rule with
    | expression => exact expression ih
    | operand => exact operand ih
    | unary => exact unary ih
    | declaration => exact declaration ih
    | statement => exact statement ih

end Reports

end Parser

/-! ## The errors of a list of tokens -/

/-- The end of input at which reading stops is the one of the list. -/
theorem endToken_mem {ts : List Token} (h : ∃ t ∈ ts, t.kind = .endOfInput) :
    (TokenStream.ofTokens ts).endToken ∈ ts := by
  obtain ⟨t, ht, hk⟩ := h
  have hsome : (ts.find? fun t => t.kind = .endOfInput).isSome = true :=
    List.find?_isSome.mpr ⟨t, ht, decide_eq_true hk⟩
  obtain ⟨u, hu⟩ := Option.isSome_iff_exists.mp hsome
  have hend : (TokenStream.ofTokens ts).endToken = u := by
    unfold TokenStream.ofTokens
    rw [hu]
    rfl
  rw [hend]
  exact List.mem_of_find?_eq_some hu

theorem drawsOn_start {ts : List Token} (h : ∃ t ∈ ts, t.kind = .endOfInput) :
    (TokenStream.ofTokens ts).start.DrawsOn ts where
  rest := (List.filter_sublist.trans (List.takeWhile_sublist _)).subset
  endToken := endToken_mem h
  mistakes := fun _ he => nomatch he

/-- The mistakes are at tokens of the list. -/
theorem Reading.fits {ts : List Token} (h : ∃ t ∈ ts, t.kind = .endOfInput) :
    ∀ e ∈ (Reading.ofTokens ts).mistakes, e.Fits ts := by
  obtain ⟨statements, s', hrun, hreading⟩ := exists_reading ts
  have hreports : Parser.Reports ts (TokenStream.ofTokens ts).parser fun _ => True :=
    .program (.rule _) _
  have hs' := hreports _ (drawsOn_start h)
  rw [hrun] at hs'
  rw [hreading]
  intro e he
  exact hs'.1.mistakes e (List.mem_reverse.mp he)

namespace SyntaxError

/-- Errors in the order in which they are reported. -/
def le (a b : SyntaxError) : Bool := a.position.le b.position

theorem le_trans (a b c : SyntaxError) (h : a.le b = true) (h' : b.le c = true) : a.le c = true := by
  simp only [le, Position.le, Bool.or_eq_true, Bool.and_eq_true, decide_eq_true_eq,
    beq_iff_eq] at *
  omega

theorem le_total (a b : SyntaxError) : (a.le b || b.le a) = true := by
  simp only [le, Position.le, Bool.or_eq_true, Bool.and_eq_true, decide_eq_true_eq, beq_iff_eq]
  omega

end SyntaxError

theorem Token.position_of_fault {t : Token} {e : SyntaxError} (h : t.fault? = some e) :
    e.position = t.position ∧ e.isMistake = false := by
  unfold Token.fault? at h
  split at h
  · cases h
    exact ⟨rfl, rfl⟩
  · cases h

theorem Reading.errors_pairwise (r : Reading) : r.errors.Pairwise fun a b => a.le b = true :=
  List.pairwise_mergeSort SyntaxError.le_trans SyntaxError.le_total _

/-- Faults that are in order keep their order among all errors, and none is added or lost. -/
theorem Reading.filter_errors {r : Reading} (hfaults : ∀ e ∈ r.faults, e.isMistake = false)
    (hsorted : r.faults.Pairwise fun a b => a.le b = true) :
    (r.errors.filter fun e => !e.isMistake) = r.faults := by
  have hself : (r.faults.filter fun e => !e.isMistake) = r.faults :=
    List.filter_eq_self.mpr fun e he => by rw [hfaults e he]; rfl
  have hsublist : r.faults.Sublist r.errors :=
    List.sublist_mergeSort SyntaxError.le_trans SyntaxError.le_total hsorted
      (List.sublist_append_left _ _)
  have hperm : (r.errors.filter fun e => !e.isMistake).Perm r.faults := by
    have hnone : ((r.mistakes.map SyntaxError.parse).filter fun e => !e.isMistake) = [] := by
      rw [List.filter_map]
      exact List.map_eq_nil_iff.mpr (List.filter_eq_nil_iff.mpr fun _ _ => Bool.false_ne_true)
    have h := (List.mergeSort_perm (r.faults ++ r.mistakes.map SyntaxError.parse)
      SyntaxError.le).filter fun e => !e.isMistake
    rwa [List.filter_append, hself, hnone, List.append_nil] at h
  have hfiltered := hsublist.filter fun e => !e.isMistake
  rw [hself] at hfiltered
  exact (hfiltered.eq_of_length hperm.length_eq.symm).symm

theorem Reading.faults_ofTokens (ts : List Token) :
    (Reading.ofTokens ts).faults = (textTokens ts).filterMap Token.fault? := by
  obtain ⟨statements, s', -, hreading⟩ := exists_reading ts
  rw [hreading]
  rfl

/-- The errors of a list of tokens are at positions of tokens. -/
theorem Reading.exists_token {ts : List Token} (hend : ∃ t ∈ ts, t.kind = .endOfInput) :
    ∀ e ∈ (Reading.ofTokens ts).faults ++ (Reading.ofTokens ts).mistakes.map SyntaxError.parse,
      ∃ t ∈ ts, e.position = t.position := by
  intro e he
  rcases List.mem_append.mp he with he | he
  · rw [Reading.faults_ofTokens] at he
    obtain ⟨t, ht, hfault⟩ := List.mem_filterMap.mp he
    exact ⟨t, (List.takeWhile_sublist _).subset ht, (Token.position_of_fault hfault).1⟩
  · obtain ⟨mistake, hmistake, rfl⟩ := List.mem_map.mp he
    exact ⟨mistake.found, (Reading.fits hend mistake hmistake).found, rfl⟩

/-- If tokens that are in order do not make a program, there are errors, in the order of their
positions; each is at the position of a token, and those that are no mistakes of the grammar are the
faults of the text, each once. -/
theorem parse_error {ts : List Token} (hend : ∃ t ∈ ts, t.kind = .endOfInput)
    (hsorted : ts.Pairwise fun t u => t.position.le u.position = true) {errors : List SyntaxError}
    (h : parse ts = .error errors) :
    errors ≠ [] ∧ errors.Pairwise (fun a b => a.le b = true) ∧
      (∀ e ∈ errors, ∃ t ∈ ts, e.position = t.position) ∧
      (errors.filter fun e => !e.isMistake) = (textTokens ts).filterMap Token.fault? := by
  have hfaults := Reading.faults_ofTokens ts
  have hlexical : ∀ e ∈ (Reading.ofTokens ts).faults, e.isMistake = false := by
    intro e he
    rw [hfaults] at he
    obtain ⟨t, ht, hfault⟩ := List.mem_filterMap.mp he
    exact (Token.position_of_fault hfault).2
  have hfaults_sorted : (Reading.ofTokens ts).faults.Pairwise fun a b => a.le b = true := by
    rw [hfaults, List.pairwise_filterMap]
    refine (hsorted.sublist (List.takeWhile_sublist _)).imp fun hle a ha b hb => ?_
    rw [SyntaxError.le, (Token.position_of_fault ha).1, (Token.position_of_fault hb).1]
    exact hle
  unfold parse Reading.result at h
  split at h
  · cases h
  · rename_i hsome
    cases h
    have hperm := List.mergeSort_perm ((Reading.ofTokens ts).faults ++
      (Reading.ofTokens ts).mistakes.map SyntaxError.parse) SyntaxError.le
    refine ⟨fun hnil => hsome ?_, Reading.errors_pairwise _, fun e he => ?_, ?_⟩
    · have hnil : List.mergeSort _ SyntaxError.le = [] := hnil
      rw [hnil] at hperm
      have hnone := List.append_eq_nil_iff.mp hperm.nil_eq.symm
      rw [hnone.1, List.map_eq_nil_iff.mp hnone.2]
      rfl
    · exact Reading.exists_token hend e (hperm.mem_iff.mp he)
    · rw [← hfaults]
      exact Reading.filter_errors hlexical hfaults_sorted

end Scriptlet
