import Scriptlet.Proofs.Syntax.Steps

/-!
# The parser always gets to the end

The bounds in the parser never matter: with more units than unread tokens no rule
uses its bound up. What makes this so is that every rule reads a token before it
refers to another one, and that every round of a loop reads a token.

A mistake that is recorded is paid for by a token. The `budget` of a state is the
number of unread tokens and of recorded mistakes together; it never grows
(`Onward`), and it shrinks where a rule reads a token of its own (`Past`). Three
judgements say so of a step with more than a number of tokens to its bound: `Safe`
of any step, `Item` of a step that either reads something or, failing, changes
nothing, and `Past` in both outcomes (`StrictAt`) of one that has read its first
token.
-/

namespace Scriptlet

/-- The number of unread tokens and of recorded mistakes together. -/
def ParserState.budget (s : ParserState) : Nat := s.mistakes.length + s.rest.length

namespace Parser

variable {α β : Type}

/-- `s'` may be reached from `s`: tokens are read from the front, blocks that were entered are left,
and there is no more to pay than before. -/
structure Onward (s s' : ParserState) : Prop extends Kept s s' where
  blockDepth : s'.blockDepth = s.blockDepth
  rest : s'.rest <:+ s.rest
  budget : s'.budget ≤ s.budget

theorem Onward.refl (s : ParserState) : Onward s s :=
  ⟨.refl s, rfl, List.suffix_refl _, Nat.le_refl _⟩

theorem Onward.trans {s s₁ s₂ : ParserState} (h : Onward s s₁) (h' : Onward s₁ s₂) : Onward s s₂ :=
  ⟨h.toKept.trans h'.toKept, h'.blockDepth.trans h.blockDepth, h'.rest.trans h.rest,
    Nat.le_trans h'.budget h.budget⟩

/-- `s'` is reached from `s` by reading a token that no mistake has used up. -/
structure Past (s s' : ParserState) : Prop extends Onward s s' where
  less : s'.budget < s.budget

theorem Past.trans {s s₁ s₂ : ParserState} (h : Past s s₁) (h' : Onward s₁ s₂) : Past s s₂ :=
  ⟨h.toOnward.trans h', Nat.lt_of_le_of_lt h'.budget h.less⟩

theorem Past.length_lt {s s' : ParserState} (h : Past s s') : s'.rest.length < s.rest.length := by
  have hl := h.less
  have hm := h.mistakes.length_le
  simp only [ParserState.budget] at hl
  omega

/-- Reading the next token, unless the input is at its end. -/
theorem past_tail {s : ParserState} (h : s.rest ≠ []) : Past s { s with rest := s.rest.tail } := by
  obtain ⟨t, ts, e⟩ := List.exists_cons_of_ne_nil h
  refine ⟨⟨⟨rfl, List.suffix_refl _⟩, rfl, List.tail_suffix _, ?_⟩, ?_⟩ <;>
    simp only [ParserState.budget, e, List.tail_cons, List.length_cons] <;> omega

theorem rest_ne_nil {s : ParserState} (hs : s.endToken.kind = .endOfInput)
    (hk : s.next.kind ≠ .endOfInput) : s.rest ≠ [] := by
  rw [(seen_next hs).eq_cons hk]
  exact List.cons_ne_nil _ _

/-- The bound is not used up, and the state afterwards satisfies `ok`, or `bad` after a mistake. -/
def Ends (ok bad : ParserState → Prop) : EStateM.Result Abort ParserState α → Prop
  | .ok _ s' => ok s'
  | .error (.mistake _) s' => bad s'
  | .error .exhausted _ => False

theorem Ends.mono {ok bad ok' bad' : ParserState → Prop} {r : EStateM.Result Abort ParserState α}
    (h : Ends ok bad r) (ho : ∀ s, ok s → ok' s) (hb : ∀ s, bad s → bad' s) : Ends ok' bad' r := by
  cases r with
  | ok a s => exact ho s h
  | error e s =>
    cases e with
    | mistake e => exact hb s h
    | exhausted => exact h

theorem Ends.bind {ok bad ok' bad' : ParserState → Prop} {p : Parser α} {f : α → Parser β}
    {s : ParserState} (hp : Ends ok bad (p s)) (hf : ∀ a s', ok s' → Ends ok' bad' (f a s'))
    (hb : ∀ s, bad s → bad' s) : Ends ok' bad' ((p >>= f) s) := by
  rw [bind_apply]
  cases h : p s with
  | ok a s₁ =>
    rw [h] at hp
    exact hf a s₁ hp
  | error e s₁ =>
    rw [h] at hp
    cases e with
    | mistake e => exact hb s₁ hp
    | exhausted => exact hp

/-- The step goes onward, or fails on the way. -/
def SafeAt (p : Parser α) (s : ParserState) : Prop := Ends (Onward s) (Onward s) (p s)

/-- The step reads a token of its own; if it fails, it may also have done nothing. -/
def ItemAt (p : Parser α) (s : ParserState) : Prop :=
  Ends (Past s) (fun s' => Past s s' ∨ s' = s) (p s)

/-- The step reads a token of its own, also if it fails. -/
def StrictAt (p : Parser α) (s : ParserState) : Prop := Ends (Past s) (Past s) (p s)

/-- A step before fewer than `n` tokens. -/
def Safe (n : Nat) (p : Parser α) : Prop :=
  ∀ s : ParserState, s.endToken.kind = .endOfInput → s.rest.length < n → SafeAt p s

/-- A step before fewer than `n` tokens that reads a token of its own. -/
def Item (n : Nat) (p : Parser α) : Prop :=
  ∀ s : ParserState, s.endToken.kind = .endOfInput → s.rest.length < n → ItemAt p s

theorem StrictAt.item {p : Parser α} {s : ParserState} (h : StrictAt p s) : ItemAt p s :=
  Ends.mono h (fun _ h => h) fun _ h => .inl h

theorem Item.safe {n : Nat} {p : Parser α} (h : Item n p) : Safe n p := fun s hs hn =>
  Ends.mono (h s hs hn) (fun _ h => h.toOnward) fun s' h => by
    rcases h with h | rfl
    · exact h.toOnward
    · exact .refl _

theorem Safe.mono {m n : Nat} {p : Parser α} (h : Safe n p) (hmn : m ≤ n) : Safe m p :=
  fun s hs hm => h s hs (Nat.lt_of_lt_of_le hm hmn)

theorem Item.mono {m n : Nat} {p : Parser α} (h : Item n p) (hmn : m ≤ n) : Item m p :=
  fun s hs hm => h s hs (Nat.lt_of_lt_of_le hm hmn)

theorem Safe.pure {n : Nat} {a : α} : Safe n (pure a : Parser α) := fun s _ _ => Onward.refl s

theorem Safe.mistake {n : Nat} {e : ParseError} : Safe n (throw (.mistake e) : Parser α) :=
  fun s _ _ => Onward.refl s

theorem Item.failHere {n : Nat} {e : Expectation} : Item n (failHere e : Parser α) :=
  fun _ _ _ => .inr rfl

theorem Safe.bind {n : Nat} {p : Parser α} {f : α → Parser β} (hp : Safe n p)
    (hf : ∀ a, Safe n (f a)) : Safe n (p >>= f) := fun s hs hn =>
  Ends.bind (hp s hs hn) (fun a s' h => Ends.mono
    (hf a s' (h.endToken ▸ hs) (Nat.lt_of_le_of_lt h.rest.length_le hn))
    (fun _ => h.trans) fun _ => h.trans) fun _ h => h

/-- After a token is read, one token fewer can follow. -/
theorem Past.strict {n : Nat} {s s' : ParserState} {p : Parser α} (h : Past s s')
    (hs : s.endToken.kind = .endOfInput) (hn : s.rest.length < n) (hp : Safe (n - 1) p) :
    Ends (Past s) (Past s) (p s') := by
  have := h.length_lt
  exact Ends.mono (hp s' (h.endToken ▸ hs) (by omega)) (fun _ => h.trans) fun _ => h.trans

theorem Item.bind {n : Nat} {p : Parser α} {f : α → Parser β} (hp : Item n p)
    (hf : ∀ a, Safe (n - 1) (f a)) : Item n (p >>= f) := fun s hs hn =>
  Ends.bind (hp s hs hn) (fun a _ h => Ends.mono (h.strict hs hn (hf a)) (fun _ h => h)
    fun _ h => .inl h) fun _ h => h

/-- Looking at the next token. -/
theorem Item.peek {n : Nat} {f : Token → Parser β}
    (hf : ∀ s : ParserState, s.endToken.kind = .endOfInput → s.rest.length < n → ItemAt (f s.next) s) :
    Item n (peek >>= f) := fun s hs hn => by
  show Ends _ _ _
  rw [bind_apply]
  exact hf s hs hn

/-- Reading the next token, which is not the end of input. -/
theorem StrictAt.take {n : Nat} {s : ParserState} {f : Token → Parser β}
    (hs : s.endToken.kind = .endOfInput) (hn : s.rest.length < n) (hk : s.next.kind ≠ .endOfInput)
    (hf : ∀ t, Safe (n - 1) (f t)) : StrictAt (advance >>= f) s := by
  show Ends _ _ _
  rw [bind_apply]
  exact (past_tail (rest_ne_nil hs hk)).strict hs hn (hf s.next)

/-- The step reads a token of its own; where `c` holds it does so also if it fails. -/
def WordAt (c : Prop) (p : Parser α) (s : ParserState) : Prop := ItemAt p s ∧ (c → StrictAt p s)

theorem StrictAt.word {c : Prop} {p : Parser α} {s : ParserState} (h : StrictAt p s) : WordAt c p s :=
  ⟨h.item, fun _ => h⟩

theorem WordAt.peek {c : Prop} {f : Token → Parser β} {s : ParserState} (h : WordAt c (f s.next) s) :
    WordAt c (peek >>= f) s := by
  unfold WordAt ItemAt StrictAt
  rw [bind_apply]
  exact h

theorem Safe.look {n : Nat} {p : Parser α} (hp : ∀ s, ∃ a, p s = .ok a s) : Safe n p := by
  intro s _ _
  obtain ⟨a, h⟩ := hp s
  show Ends _ _ _
  rw [h]
  exact .refl s

theorem Safe.peek {n : Nat} : Safe n peek := .look fun _ => ⟨_, rfl⟩

theorem Safe.atEnd {n : Nat} : Safe n atEnd := .look fun _ => ⟨_, rfl⟩

theorem Safe.check {n : Nat} {k : TokenKind} : Safe n (check k) := .look fun _ => ⟨_, rfl⟩

theorem Safe.ite {n : Nat} {c : Prop} [Decidable c] {p q : Parser α} (hp : Safe n p)
    (hq : Safe n q) : Safe n (if c then p else q) := by
  split
  · exact hp
  · exact hq

theorem Safe.advance {n : Nat} : Safe n advance := by
  intro s _ _
  refine ⟨⟨rfl, List.suffix_refl _⟩, rfl, List.tail_suffix _, ?_⟩
  simp only [ParserState.budget, List.length_tail]
  omega

theorem Safe.accept {n : Nat} {k : TokenKind} {p q : Parser α} (hk : k ≠ .endOfInput)
    (hp : Safe (n - 1) p) (hq : Safe n q) :
    Safe n (accept k >>= fun b => if b = true then p else q) := by
  intro s hs hn
  show Ends _ _ _
  rw [bind_apply, accept_apply]
  by_cases h : s.next.kind = k
  · rw [if_pos h]
    have hp := (past_tail (rest_ne_nil hs (h ▸ hk))).strict hs hn hp
    exact hp.mono (fun _ h => h.toOnward) fun _ h => h.toOnward
  · rw [if_neg h]
    exact hq s hs hn

theorem Safe.acceptAny {n : Nat} {k : TokenKind} : Safe n (Parser.accept k) := by
  refine Safe.check.bind fun _ => .ite ?_ .pure
  exact Safe.advance.bind fun _ => .pure

theorem Item.acceptAny {n : Nat} {k : TokenKind} {p : Parser α} (hk : k ≠ .endOfInput)
    (hp : Item n p) : Item n (Parser.accept k >>= fun _ => p) := by
  intro s hs hn
  show Ends _ _ _
  rw [bind_apply, accept_apply]
  by_cases h : s.next.kind = k
  · rw [if_pos h]
    have hp := (past_tail (rest_ne_nil hs (h ▸ hk))).strict hs hn (hp.safe.mono (Nat.sub_le ..))
    exact hp.mono (fun _ h => h) fun _ h => .inl h
  · rw [if_neg h]
    exact hp s hs hn

theorem Item.expect {n : Nat} {k : TokenKind} {e : Expectation} (hk : k ≠ .endOfInput) :
    Item n (expect k e) := by
  intro s hs _
  show Ends _ _ _
  rw [expect_apply]
  by_cases h : s.next.kind = k
  · rw [if_pos h]
    exact past_tail (rest_ne_nil hs (h ▸ hk))
  · rw [if_neg h]
    exact .inr rfl

theorem Item.expectSymbol {n : Nat} {k : Symbol} {place : String} : Item n (expectSymbol k place) :=
  (Item.expect (by simp)).bind fun _ => .pure

theorem Item.expectName {n : Nat} {what : String} : Item n (expectName what) :=
  .expect (by simp)

theorem Safe.expectTerminator {n : Nat} {place : String} : Safe n (expectTerminator place) :=
  .accept (by simp) .pure <| Safe.check.bind fun _ => .ite .pure <|
    Safe.atEnd.bind fun _ => .ite .pure Item.failHere.safe

/-! ## Lists -/

theorem Item.commaList {n m : Nat} {item : Parser α} (hi : Item n item) (hm : n ≤ m) :
    Item n (commaList item m) := by
  induction m generalizing n with
  | zero => exact fun s _ hn => by omega
  | succ m ih =>
    refine hi.bind fun a => .accept (by simp) ?_ .pure
    exact ((ih (hi.mono (by omega)) (by omega)).safe).bind fun _ => .pure

theorem Safe.looseCommaList {n m : Nat} {close : Symbol} {item : Parser α} (hi : Item n item)
    (hm : n ≤ m) : Safe n (looseCommaList close item m) := by
  induction m generalizing n with
  | zero => exact fun s _ hn => by omega
  | succ m ih =>
    refine Safe.check.bind fun b => .ite .pure (Item.safe (hi.bind fun a => .accept (by simp) ?_ .pure))
    exact (ih (hi.mono (by omega)) (by omega)).bind fun _ => .pure

theorem Item.parameters {n m : Nat} (hm : n ≤ m) : Item n (parameters m) := by
  unfold Parser.parameters
  simp only [pure_bind]
  have hc : Safe (n - 1) (do
      Parser.expectSymbol .rightParen "after parameters"
      return ([] : List String)) := Item.expectSymbol.safe.bind fun _ => .pure
  refine Item.expectSymbol.bind fun _ => Safe.check.bind fun b => .ite hc ?_
  have hi : Item (n - 1) (do return (← Parser.expectName "parameter name").lexeme) :=
    Item.expectName.bind fun _ => .pure
  exact (hi.commaList (by omega)).safe.bind fun _ => Item.expectSymbol.safe.bind fun _ => .pure

/-- Items up to a closing brace, each of which reads a token. What may be said of a failure, `bad`,
is the caller's to choose: items that recover do not fail at all. -/
theorem Ends.itemsToBrace {n m : Nat} {item : Parser α} (bad : ParserState → ParserState → Prop)
    (hb : ∀ s s₁ s₂, Onward s s₁ → bad s₁ s₂ → bad s s₂)
    (hi : ∀ s : ParserState, s.endToken.kind = .endOfInput → s.rest.length < n → s.rest ≠ [] →
      s.next.kind ≠ .symbol .rightBrace →
      Ends (fun s' => Onward s s' ∧ s'.rest.length < s.rest.length) (bad s) (item s))
    (hm : n ≤ m) (s : ParserState) (hs : s.endToken.kind = .endOfInput) (hn : s.rest.length < n) :
    Ends (Onward s) (bad s) (itemsToBrace item m s) := by
  induction m generalizing n s with
  | zero => omega
  | succ m ih =>
    unfold Parser.itemsToBrace checkSymbol
    rw [bind_apply, check_apply]
    dsimp only
    rw [bind_apply]
    show Ends _ _ ((if (decide (s.next.kind = .symbol .rightBrace) || s.rest.isEmpty) = true
      then _ else _ : Parser (List α)) s)
    by_cases hc : (decide (s.next.kind = .symbol .rightBrace) || s.rest.isEmpty) = true
    · rw [if_pos hc]
      exact .refl s
    · rw [if_neg hc]
      simp only [Bool.or_eq_true, decide_eq_true_eq, List.isEmpty_iff, not_or] at hc
      refine Ends.bind (hi s hs hn hc.2 hc.1) ?_ fun _ h => h
      rintro a s₁ ⟨h₁, hlt⟩
      refine Ends.bind (ih (n := n - 1) (fun s hs hn => hi s hs (by omega)) (by omega) s₁
        (h₁.endToken ▸ hs) (by omega)) (fun _ _ h => h₁.trans h) fun s₂ h => hb s s₁ s₂ h₁ h

theorem resume_suffix (inBlock : Bool) (ts : List Token) : resume inBlock ts <:+ ts := by
  induction ts with
  | nil => exact List.suffix_refl _
  | cons t ts ih =>
    unfold resume
    split
    · exact List.suffix_refl _
    · split
      · exact List.suffix_cons t ts
      · exact ih.trans (List.suffix_cons t ts)

/-- Unless the next token is one to resume at, it is skipped. -/
theorem length_resume_lt {inBlock : Bool} {t : Token} {ts : List Token}
    (ht : t.kind.startsStatement = false) (hb : inBlock = true → t.kind ≠ .symbol .rightBrace) :
    (resume inBlock (t :: ts)).length < (t :: ts).length := by
  have hc : ¬ (t.kind.startsStatement || (inBlock && t.kind = .symbol .rightBrace)) = true := by
    simpa [ht] using hb
  unfold resume
  rw [if_neg hc]
  split
  · exact Nat.lt_succ_self _
  · exact Nat.lt_succ_of_le (resume_suffix inBlock ts).length_le

/-! ## The rules -/

/-- Before fewer than `n` tokens the parsers of the rules get to an end. A declaration that fails has
read a token if it starts with a word for a statement. -/
structure RulesProgress (n : Nat) (rules : Rules) : Prop where
  item {α : Type} (rule : Rule α) : Item n (rules rule)
  words (s : ParserState) : s.endToken.kind = .endOfInput → s.rest.length < n →
    s.next.kind.startsStatement = true → StrictAt (rules .declaration) s

section

variable {n : Nat} {rules : Rules} (hr : RulesProgress n rules)
include hr

/-- Every round of a loop that recovers reads a token, also if the declaration fails without reading
anything: then the next token is none to resume at. -/
theorem Ends.recovering {s : ParserState} (hs : s.endToken.kind = .endOfInput)
    (hn : s.rest.length < n) (he : s.rest ≠ [])
    (hb : 0 < s.blockDepth → s.next.kind ≠ .symbol .rightBrace) :
    Ends (fun s' => Onward s s' ∧ s'.rest.length < s.rest.length) (fun _ => False)
      (recovering (rules .declaration) s) := by
  have hi : Ends _ _ _ := hr.item .declaration s hs hn
  have hw : s.next.kind.startsStatement = true → Ends _ _ _ := hr.words s hs hn
  rw [recovering_apply]
  cases h : rules .declaration s with
  | ok a s₁ =>
    rw [h] at hi
    exact ⟨hi.toOnward, hi.length_lt⟩
  | error e s₁ =>
    rw [h] at hi hw
    cases e with
    | exhausted => exact hi
    | mistake e =>
      have hsuf := resume_suffix (0 < s₁.blockDepth) s₁.rest
      have hlen := hsuf.length_le
      rcases hi with h₁ | rfl
      · have hless := h₁.less
        have hlt := h₁.length_lt
        refine ⟨⟨⟨h₁.endToken, h₁.mistakes.trans (List.suffix_cons _ _)⟩, h₁.blockDepth,
          hsuf.trans h₁.rest, ?_⟩, Nat.lt_of_le_of_lt hlen hlt⟩
        simp only [ParserState.budget, List.length_cons] at hless ⊢
        omega
      · have ht : s₁.next.kind.startsStatement = false := by
          cases hst : s₁.next.kind.startsStatement with
          | false => rfl
          | true => exact absurd (hw hst).less (Nat.lt_irrefl _)
        obtain ⟨t, ts, hrest⟩ := List.exists_cons_of_ne_nil he
        have hnext : s₁.next = t := by simp [ParserState.next, hrest]
        rw [hnext] at ht hb
        have hlt : (resume (decide (0 < s₁.blockDepth)) (t :: ts)).length < (t :: ts).length :=
          length_resume_lt ht (by simpa using hb)
        rw [← hrest] at hlt
        refine ⟨⟨⟨rfl, List.suffix_cons _ _⟩, rfl, hsuf, ?_⟩, hlt⟩
        simp only [ParserState.budget, List.length_cons]
        omega

theorem Safe.block {m : Nat} (hm : n ≤ m) : Safe n (block rules m) := by
  intro s hs hn
  have hitems : Ends (Onward { s with blockDepth := s.blockDepth + 1 }) (fun _ => False)
      (Parser.itemsToBrace (recovering (rules .declaration)) m
        { s with blockDepth := s.blockDepth + 1 }) :=
    Ends.itemsToBrace (fun _ _ => False) (fun _ _ _ _ h => h)
      (fun s hs hn he hb => Ends.recovering hr hs hn he fun _ => hb) hm _ hs hn
  show Ends _ _ _
  unfold Parser.block
  rw [bind_apply]
  refine Ends.bind hitems (fun body s₁ h₁ => ?_) fun _ h => h.elim
  rw [bind_apply]
  have h : Onward s { s₁ with blockDepth := s₁.blockDepth - 1 } :=
    ⟨⟨h₁.endToken, h₁.mistakes⟩, by rw [h₁.blockDepth]; rfl, h₁.rest, h₁.budget⟩
  have hex : Safe n (do expectSymbol .rightBrace "after block"; return body.filterMap id) :=
    Item.expectSymbol.safe.bind fun _ => .pure
  exact Ends.mono (hex _ (h.endToken ▸ hs) (Nat.lt_of_le_of_lt h.rest.length_le hn))
    (fun _ => h.trans) fun _ => h.trans

theorem Safe.arguments {m k : Nat} (hk : k ≤ n) (hm : k ≤ m) : Safe k (arguments rules m) := by
  unfold Parser.arguments
  simp only [pure_bind]
  refine Safe.check.bind fun b => .ite (Item.expectSymbol.safe.bind fun _ => .pure) ?_
  exact (((hr.item .expression).mono hk).commaList hm).safe.bind fun _ =>
    Item.expectSymbol.safe.bind fun _ => .pure

theorem Item.entry : Item (n + 1) (entry rules) := by
  refine .peek fun s hs hn => ?_
  by_cases hk : (decide (s.next.kind = .identifier) || decide (s.next.kind = .string)) = true
  · rw [if_pos hk]
    simp only [Bool.or_eq_true, decide_eq_true_eq] at hk
    exact StrictAt.item <| .take hs hn (by rcases hk with hk | hk <;> simp [hk]) fun _ =>
      Item.expectSymbol.safe.bind fun _ => (hr.item .expression).safe.bind fun _ => .pure
  · rw [if_neg hk]
    exact Item.failHere s hs hn

theorem Item.lambda : Item (n + 1) (lambda rules (n + 1)) := by
  unfold Parser.lambda
  simp only [pure_bind]
  refine .peek fun s hs hn => (Item.parameters (Nat.le_refl _)).bind (fun _ => ?_) s hs hn
  refine Item.expectSymbol.safe.bind fun _ => .accept (by simp) ?_ ?_
  · exact ((Safe.block hr (Nat.le_succ n)).mono (Nat.sub_le ..)).bind fun _ => .pure
  · exact (hr.item .expression).safe.bind fun _ => .pure

theorem Item.primary : Item (n + 1) (primary rules (n + 1)) := by
  refine .peek fun s hs hn => ?_
  dsimp only
  split <;> rename_i hk
  · refine (StrictAt.take hs hn (by simp [hk]) fun _ => ?_).item
    split
    · exact .pure
    · exact .mistake
  iterate 6 exact (StrictAt.take hs hn (by simp [hk]) fun _ => .pure).item
  · show Ends _ _ _
    rw [bind_apply]
    show ItemAt (if startsLambda s.rest = true then Parser.lambda rules (n + 1) else _) s
    split
    · exact Item.lambda hr s hs hn
    · exact (StrictAt.take hs hn (by simp [hk]) fun _ => (hr.item .expression).safe.bind fun _ =>
        Item.expectSymbol.safe.bind fun _ => .pure).item
  · exact (StrictAt.take hs hn (by simp [hk]) fun _ =>
      (Safe.looseCommaList (hr.item .expression) (Nat.le_succ n)).bind fun _ =>
      Item.expectSymbol.safe.bind fun _ => .pure).item
  · exact (StrictAt.take hs hn (by simp [hk]) fun _ =>
      (Safe.looseCommaList ((Item.entry hr).mono (Nat.le_succ n)) (Nat.le_succ n)).bind fun _ =>
      Item.expectSymbol.safe.bind fun _ => .pure).item
  · exact Item.failHere s hs hn

theorem Safe.accesses {k m : Nat} (hk : k ≤ n) (hm : k ≤ m) (e : Expr) :
    Safe k (accesses rules m e) := by
  induction m generalizing k e with
  | zero => exact fun s _ hn => by omega
  | succ m ih =>
    have ih' := fun e => ih (k := k - 1) (by omega) (by omega) e
    refine .accept (by simp) ?_ (.accept (by simp) ?_ (.accept (by simp) ?_ .pure))
    · exact (Safe.arguments hr (by omega) (by omega)).bind fun _ => ih' _
    · exact Item.expectName.safe.bind fun _ => ih' _
    · exact ((hr.item .expression).mono (by omega)).safe.bind fun _ =>
        Item.expectSymbol.safe.bind fun _ => ih' _

theorem Item.unary : Item (n + 1) (unary rules (n + 1)) := by
  refine .peek fun s hs hn => ?_
  split <;> rename_i hop
  · have hk : s.next.kind ≠ .endOfInput := fun h => by rw [h] at hop; cases hop
    exact (StrictAt.take hs hn hk fun _ => (hr.item .unary).safe.bind fun _ => .pure).item
  · exact (Item.primary hr).bind (fun _ => Safe.accesses hr (Nat.le_refl n) (Nat.le_succ n) _) s hs hn

theorem Safe.climb {k m level : Nat} (hk : k ≤ n) (hm : k ≤ m) (left : Expr) :
    Safe k (climb rules level m left) := by
  induction m generalizing k left with
  | zero => exact fun s _ hn => by omega
  | succ m ih =>
    intro s hs hn
    show Ends _ _ _
    unfold Parser.climb
    rw [bind_apply, show Parser.peek s = .ok s.next s from rfl]
    dsimp only
    show SafeAt _ s
    split <;> rename_i ho
    · split
      · exact Onward.refl s
      · have hk' : s.next.kind ≠ .endOfInput := fun h => by rw [h] at ho; cases ho
        refine Ends.mono (StrictAt.take hs hn hk' fun _ => ?_) (fun _ h => h.toOnward)
          fun _ h => h.toOnward
        exact ((hr.item (.operand _)).mono (by omega)).safe.bind fun _ => ih (by omega) (by omega) _
    · exact Onward.refl s

theorem Item.operand {level : Nat} : Item (n + 1) (operand rules (n + 1) level) :=
  (Item.unary hr).bind fun _ => Safe.climb hr (Nat.le_refl n) (Nat.le_succ n) _

theorem Item.expression : Item (n + 1) (expression rules (n + 1)) := by
  refine (Item.operand hr).bind fun left => Safe.check.bind fun b => .ite ?_ .pure
  refine Safe.advance.bind fun _ => (hr.item .expression).safe.bind fun _ => ?_
  split
  · exact .pure
  · exact .mistake

/-! ## Statements -/

theorem Safe.variableDeclaration {p : Position} {mode : Mode} :
    Safe n (variableDeclaration rules p mode) := by
  unfold Parser.variableDeclaration
  simp only [pure_bind]
  have hend : ∀ init x, Safe n (do
      Parser.expectTerminator "after variable declaration"
      return Stmt.declare p mode x init) := fun _ _ => Safe.expectTerminator.bind fun _ => .pure
  refine Item.expectName.safe.bind fun x => .accept (by simp) ?_ ?_
  · refine ((hr.item .expression).mono (Nat.sub_le ..)).safe.bind fun _ => .ite ?_ ?_
    · exact Item.failHere.safe.bind fun _ => (hend _ _).mono (Nat.sub_le ..)
    · exact (hend _ _).mono (Nat.sub_le ..)
  · exact .ite (Item.failHere.safe.bind fun _ => hend _ _) (hend _ _)

theorem Item.routine {what : String} : Item (n + 1) (routine rules (n + 1) what) :=
  Item.expectName.bind fun _ => (Item.parameters (Nat.le_succ n)).safe.bind fun _ =>
    Item.expectSymbol.safe.bind fun _ => (Safe.block hr (Nat.le_succ n)).bind fun _ => .pure

theorem Item.method : Item (n + 1) (method rules (n + 1)) :=
  .acceptAny (by simp) (Item.routine hr)

theorem Safe.classDefinition {p : Position} : Safe n (classDefinition rules (n + 1) p) := by
  have hm : Safe n (itemsToBrace (Parser.method rules (n + 1)) (n + 1)) := by
    intro s hs hn
    show Ends (Onward s) (Onward s) _
    refine Ends.itemsToBrace Onward (fun _ _ _ h h' => h.trans h') (fun s hs hn _ _ => ?_)
      (Nat.le_succ n) s hs hn
    refine Ends.mono (Item.method hr s hs (Nat.lt_succ_of_lt hn))
      (fun _ h => ⟨h.toOnward, h.length_lt⟩) fun s' h => ?_
    rcases h with h | rfl
    · exact h.toOnward
    · exact .refl _
  exact Item.expectName.safe.bind fun _ => Item.expectSymbol.safe.bind fun _ => hm.bind fun _ =>
    Item.expectSymbol.safe.bind fun _ => .pure

theorem Safe.conditional {p : Position} : Safe n (conditional rules p) := by
  unfold Parser.conditional
  simp only [pure_bind]
  refine Item.expectSymbol.safe.bind fun _ => (hr.item .expression).safe.bind fun _ =>
    Item.expectSymbol.safe.bind fun _ => (hr.item .statement).safe.bind fun _ => .accept (by simp) ?_ .pure
  exact ((hr.item .statement).mono (Nat.sub_le ..)).safe.bind fun _ => .pure

theorem Safe.whileLoop {p : Position} : Safe n (whileLoop rules p) :=
  Item.expectSymbol.safe.bind fun _ => (hr.item .expression).safe.bind fun _ =>
    Item.expectSymbol.safe.bind fun _ => (hr.item .statement).safe.bind fun _ => .pure

theorem Safe.loopStart : Safe n (loopStart rules) := by
  refine Safe.peek.bind fun t => ?_
  split
  · exact Safe.advance.bind fun _ => .pure
  · exact Safe.advance.bind fun _ => (Safe.variableDeclaration hr).bind fun _ => .pure
  · exact Safe.advance.bind fun _ => (Safe.variableDeclaration hr).bind fun _ => .pure
  · exact (hr.item .expression).safe.bind fun _ => Item.expectSymbol.safe.bind fun _ => .pure

theorem Safe.optionalBefore {close : Symbol} : Safe n (optionalBefore rules close) :=
  Safe.check.bind fun _ => .ite .pure ((hr.item .expression).safe.bind fun _ => .pure)

theorem Safe.forLoop {p : Position} : Safe n (forLoop rules p) :=
  Item.expectSymbol.safe.bind fun _ => (Safe.loopStart hr).bind fun _ =>
    (Safe.optionalBefore hr).bind fun _ => Item.expectSymbol.safe.bind fun _ =>
    (Safe.optionalBefore hr).bind fun _ => Item.expectSymbol.safe.bind fun _ =>
    (hr.item .statement).safe.bind fun _ => .pure

theorem Safe.foreachLoop {p : Position} : Safe n (foreachLoop rules p) := by
  have hrest : ∀ x, Safe n (do
      let items ← rules .expression
      Parser.expectSymbol .rightParen "after foreach iterable"
      return Stmt.foreachLoop p x items (← rules .statement)) := fun _ =>
    (hr.item .expression).safe.bind fun _ => Item.expectSymbol.safe.bind fun _ =>
      (hr.item .statement).safe.bind fun _ => .pure
  unfold Parser.foreachLoop
  refine Item.expectSymbol.safe.bind fun _ => Safe.acceptAny.bind fun _ =>
    Item.expectName.safe.bind fun _ => Safe.peek.bind fun _ => .ite ?_ ?_
  · exact Safe.advance.bind fun _ => hrest _
  · exact Item.expectSymbol.safe.bind fun _ => hrest _

theorem Safe.returnStatement {p : Position} : Safe n (returnStatement rules p) := by
  have hend : ∀ value, Safe n (do
      Parser.expectTerminator "after return value"
      return Stmt.returnStmt p value) := fun _ => Safe.expectTerminator.bind fun _ => .pure
  unfold Parser.returnStatement
  simp only [pure_bind]
  exact Safe.check.bind fun _ => Safe.check.bind fun _ => Safe.atEnd.bind fun _ =>
    .ite (hend _) ((hr.item .expression).safe.bind fun _ => hend _)

/-- A statement reads its first token, unless that can only start an expression. -/
theorem WordAt.statement {s : ParserState} (hs : s.endToken.kind = .endOfInput)
    (hn : s.rest.length < n + 1) : WordAt (s.next.kind.startsStatement = true ∧
      s.next.kind.startsDeclaration = false) (statement rules (n + 1)) s := by
  refine .peek ?_
  dsimp only
  split <;> rename_i hk
  · exact StrictAt.word <| .take hs hn (by simp [hk]) fun _ => .conditional hr
  · exact StrictAt.word <| .take hs hn (by simp [hk]) fun _ => .whileLoop hr
  · exact StrictAt.word <| .take hs hn (by simp [hk]) fun _ => .forLoop hr
  · exact StrictAt.word <| .take hs hn (by simp [hk]) fun _ => .foreachLoop hr
  · exact StrictAt.word <| .take hs hn (by simp [hk]) fun _ => .returnStatement hr
  · exact StrictAt.word <| .take hs hn (by simp [hk]) fun _ => Safe.expectTerminator.bind fun _ => .pure
  · exact StrictAt.word <| .take hs hn (by simp [hk]) fun _ => Safe.expectTerminator.bind fun _ => .pure
  · exact StrictAt.word <| .take hs hn (by simp [hk]) fun _ =>
      (Safe.block hr (Nat.le_succ n)).bind fun _ => .pure
  · refine ⟨(Item.expression hr).bind (fun _ => Safe.expectTerminator.bind fun _ => .pure) s hs hn,
      fun ⟨hst, hd⟩ => ?_⟩
    cases hkind : s.next.kind with
    | keyword w => cases w <;> simp_all [TokenKind.startsStatement, Keyword.startsStatement,
        TokenKind.startsDeclaration]
    | _ => rw [hkind] at hst; cases hst

theorem WordAt.declaration {s : ParserState} (hs : s.endToken.kind = .endOfInput)
    (hn : s.rest.length < n + 1) :
    WordAt (s.next.kind.startsStatement = true) (declaration rules (n + 1)) s := by
  refine .peek ?_
  dsimp only
  split <;> rename_i hk
  · exact StrictAt.word <| .take hs hn (by simp [hk]) fun _ => .variableDeclaration hr
  · exact StrictAt.word <| .take hs hn (by simp [hk]) fun _ => .variableDeclaration hr
  · exact StrictAt.word <| .take hs hn (by simp [hk]) fun _ => by
      exact ((Item.routine hr).mono (Nat.le_succ n)).safe.bind fun _ => .pure
  · exact StrictAt.word <| .take hs hn (by simp [hk]) fun _ => .classDefinition hr
  · obtain ⟨hi, hst⟩ := WordAt.statement hr hs hn
    refine ⟨hi, fun h => hst ⟨h, ?_⟩⟩
    cases hkind : s.next.kind with
    | keyword w => cases w <;> simp_all [TokenKind.startsDeclaration]
    | _ => rfl

end

/-- The bound on the nesting of rules suffices. -/
theorem rulesProgress_parse (n : Nat) : RulesProgress n (fun rule s => Rule.parse n rule s) := by
  induction n with
  | zero => exact ⟨fun _ _ _ h => absurd h (Nat.not_lt_zero _), fun _ _ h => absurd h (Nat.not_lt_zero _)⟩
  | succ n ih =>
    refine ⟨fun rule => ?_, fun s hs hn => (WordAt.declaration ih hs hn).2⟩
    cases rule with
    | expression => exact Item.expression ih
    | operand => exact Item.operand ih
    | unary => exact Item.unary ih
    | declaration => exact fun s hs hn => (WordAt.declaration ih hs hn).1
    | statement => exact fun s hs hn => (WordAt.statement ih hs hn).1

/-- A program is always read to its end. -/
theorem Ends.program {n m : Nat} {rules : Rules} (hr : RulesProgress n rules) (hm : n ≤ m)
    (s : ParserState) (hs : s.endToken.kind = .endOfInput) (hn : s.rest.length < n)
    (hd : s.blockDepth = 0) : Ends (Onward s) (fun _ => False) (program rules m s) := by
  induction m generalizing n s with
  | zero => omega
  | succ m ih =>
    unfold Parser.program
    rw [bind_apply]
    show Ends _ _ ((if s.rest.isEmpty = true then _ else _ : Parser (List Stmt)) s)
    by_cases he : s.rest.isEmpty = true
    · rw [if_pos he]
      exact .refl s
    · rw [if_neg he]
      rw [List.isEmpty_iff] at he
      refine Ends.bind (Ends.recovering hr hs hn he (by omega)) ?_ fun _ h => h
      rintro first s₁ ⟨h₁, hlt⟩
      refine Ends.bind (ih (n := n - 1) ⟨fun r => (hr.item r).mono (Nat.sub_le ..),
        fun s hs hn => hr.words s hs (by omega)⟩ (by omega) s₁ (h₁.endToken ▸ hs) (by omega)
        (h₁.blockDepth.trans hd)) (fun _ _ h => h₁.trans h) fun _ h => h

end Parser

end Scriptlet
