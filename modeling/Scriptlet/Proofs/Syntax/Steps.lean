import Scriptlet.Proofs.Syntax.Grammar
import Scriptlet.Syntax.Parse

/-!
# Steps of the parser against phrases of the grammar

Two judgements tie a step of the parser to a relation on tokens:

* `Yields p R`: whatever `p` returns without recording a mistake is related by
  `R` to the tokens it has read and the tokens that follow. This is the form of
  every soundness statement.
* `Reads p ts a rest`: before the tokens `ts`, `p` returns `a`, leaves `rest` and
  changes nothing else. This is the form of every completeness statement.

Both come with one rule for each way of composing steps and one for each of the
parser's smallest steps, so that a rule of the grammar is checked by applying
them one after the other. In the rule for `>>=` the relation of the second step
speaks of the tokens before the first one, so the facts of all steps are there
at the end.
-/

namespace Scriptlet.Parser

open Grammar

variable {α β : Type}

/-! ## What the smallest steps do -/

theorem bind_apply (p : Parser α) (f : α → Parser β) (s : ParserState) :
    (p >>= f) s = match p s with
      | .ok a s' => f a s'
      | .error e s' => .error e s' := by
  show EStateM.bind p f s = _
  unfold EStateM.bind
  cases p s <;> rfl

theorem check_apply (k : TokenKind) (s : ParserState) :
    check k s = .ok (decide (s.next.kind = k)) s := rfl

theorem accept_apply (k : TokenKind) (s : ParserState) :
    accept k s = if s.next.kind = k then .ok true { s with rest := s.rest.tail } else .ok false s := by
  unfold accept
  rw [bind_apply, check_apply]
  by_cases h : s.next.kind = k
  · simp only [h, decide_true, ↓reduceIte]; rfl
  · simp only [h, decide_false, ↓reduceIte]; rfl

theorem expect_apply (k : TokenKind) (e : Expectation) (s : ParserState) :
    expect k e s = if s.next.kind = k then .ok s.next { s with rest := s.rest.tail }
      else .error (.mistake ⟨e, s.next⟩) s := by
  unfold expect
  rw [bind_apply, check_apply]
  by_cases h : s.next.kind = k
  · simp only [h, decide_true, ↓reduceIte]; rfl
  · simp only [h, decide_false, ↓reduceIte]; rfl

theorem recovering_apply (item : Parser α) (s : ParserState) :
    recovering item s = match item s with
      | .ok a s' => .ok (some a) s'
      | .error (.mistake e) s' => .ok none { s' with
          mistakes := e :: s'.mistakes
          rest := resume (0 < s'.blockDepth) s'.rest }
      | .error .exhausted s' => .error .exhausted s' := by
  unfold recovering
  simp only [bind, EStateM.bind, tryCatch, tryCatchThe, MonadExceptOf.tryCatch, EStateM.tryCatch]
  cases item s with
  | ok a s' => rfl
  | error e s' => cases e <;> rfl

/-- `t` is the token that the parser sees before `ts`: the first one, or the end of input. -/
def Seen (ts : List Token) (t : Token) : Prop :=
  ts.head? = some t ∨ ts = [] ∧ t.kind = .endOfInput

theorem seen_next {s : ParserState} (hs : s.endToken.kind = .endOfInput) : Seen s.rest s.next := by
  unfold ParserState.next
  cases s.rest with
  | nil => exact .inr ⟨rfl, hs⟩
  | cons t ts => exact .inl rfl

@[simp] theorem seen_cons {t t' : Token} {ts : List Token} : Seen (t :: ts) t' ↔ t = t' := by
  simp [Seen]

/-- A token that is not the end of input stands at the front. -/
theorem Seen.eq_cons {ts : List Token} {t : Token} (h : Seen ts t) (hk : t.kind ≠ .endOfInput) :
    ts = t :: ts.tail := by
  rcases h with h | ⟨-, h⟩
  · cases ts with
    | nil => cases h
    | cons t' us => cases h; rfl
  · exact absurd h hk

theorem Seen.next {ts : List Token} {t : Token} (h : Seen ts t) {P : TokenKind → Prop}
    (hP : P t.kind) : Next P ts := by
  rcases h with h | ⟨rfl, -⟩
  · intro t' ht'
    rw [h] at ht'
    cases ht'
    exact hP
  · exact next_nil

theorem Seen.kind {ts : List Token} {t : Token} (h : Seen ts t) {P : TokenKind → Prop}
    (hn : Next P ts) (he : P .endOfInput) : P t.kind := by
  rcases h with h | ⟨-, h⟩
  · exact hn t h
  · rw [h]; exact he

/-! ## Soundness of steps -/

/-- What every step keeps: the end of input, and the mistakes recorded before. -/
structure Kept (s s' : ParserState) : Prop where
  endToken : s'.endToken = s.endToken
  mistakes : s.mistakes <:+ s'.mistakes

theorem Kept.refl (s : ParserState) : Kept s s := ⟨rfl, List.suffix_refl _⟩

theorem Kept.trans {s s₁ s₂ : ParserState} (h : Kept s s₁) (h' : Kept s₁ s₂) : Kept s s₂ :=
  ⟨h'.endToken.trans h.endToken, h.mistakes.trans h'.mistakes⟩

/-- Whatever `p` returns without recording a mistake is related by `R` to the tokens before and
after. -/
def Yields (p : Parser α) (R : List Token → α → List Token → Prop) : Prop :=
  ∀ s : ParserState, s.endToken.kind = .endOfInput →
    match p s with
    | .ok a s' => Kept s s' ∧ (s'.mistakes = s.mistakes → R s.rest a s'.rest)
    | .error _ s' => Kept s s'

section Yields

variable {R : List Token → α → List Token → Prop} {S : List Token → β → List Token → Prop}

/-- A step that always succeeds and records no mistake. -/
theorem Yields.of_ok {p : Parser α} (h : ∀ s : ParserState, s.endToken.kind = .endOfInput →
    ∃ a s', p s = .ok a s' ∧ s'.endToken = s.endToken ∧ s'.mistakes = s.mistakes ∧
      R s.rest a s'.rest) : Yields p R := by
  intro s hs
  obtain ⟨a, s', h, he, hm, hR⟩ := h s hs
  rw [h]
  exact ⟨⟨he, hm ▸ List.suffix_refl _⟩, fun _ => hR⟩

theorem Yields.pure {a : α} (h : ∀ ts, R ts a ts) : Yields (pure a : Parser α) R :=
  fun s _ => ⟨.refl s, fun _ => h s.rest⟩

theorem Yields.throw {e : Abort} : Yields (throw e : Parser α) R := fun s _ => Kept.refl s

theorem Yields.failHere {e : Expectation} : Yields (failHere e : Parser α) R :=
  fun s _ => Kept.refl s

theorem Yields.failHere_bind {e : Expectation} {f : α → Parser β} :
    Yields (Parser.failHere e >>= f) S := by
  intro s _
  rw [bind_apply]
  exact Kept.refl s

theorem Yields.mono {p : Parser α} {R' : List Token → α → List Token → Prop} (hp : Yields p R)
    (h : ∀ ts a rest, R ts a rest → R' ts a rest) : Yields p R' := by
  intro s hs
  have hp := hp s hs
  cases e : p s with
  | error _ s' => rw [e] at hp; exact hp
  | ok a s' => rw [e] at hp; exact ⟨hp.1, fun hm => h _ _ _ (hp.2 hm)⟩

theorem Yields.bind {p : Parser α} {f : α → Parser β} (hp : Yields p R)
    (hf : ∀ a, Yields (f a) fun us b rest => ∀ ts, R ts a us → S ts b rest) :
    Yields (p >>= f) S := by
  intro s hs
  have hp := hp s hs
  rw [bind_apply]
  cases h : p s with
  | error e s₁ => rw [h] at hp; exact hp
  | ok a s₁ =>
    rw [h] at hp
    obtain ⟨k₁, hR⟩ := hp
    have hf := hf a s₁ (k₁.endToken ▸ hs)
    show match f a s₁ with | .ok b s' => _ | .error _ s' => _
    cases h' : f a s₁ with
    | error e s₂ => rw [h'] at hf; exact k₁.trans hf
    | ok b s₂ =>
      rw [h'] at hf
      obtain ⟨k₂, hS⟩ := hf
      refine ⟨k₁.trans k₂, fun hm => ?_⟩
      -- The mistakes only grow, so none was recorded on the way either.
      have hm₁ : s₁.mistakes = s.mistakes :=
        (k₁.mistakes.eq_of_length_le (hm ▸ k₂.mistakes.length_le)).symm
      exact hS (hm.trans hm₁.symm) _ (hR hm₁)

theorem Yields.ite {c : Prop} [Decidable c] {p q : Parser α} (hp : c → Yields p R)
    (hq : ¬ c → Yields q R) : Yields (if c then p else q) R := by
  by_cases h : c
  · rw [if_pos h]; exact hp h
  · rw [if_neg h]; exact hq h

theorem Yields.peek : Yields peek fun ts t rest => rest = ts ∧ Seen ts t :=
  .of_ok fun s hs => ⟨_, s, rfl, rfl, rfl, rfl, seen_next hs⟩

theorem Yields.atEnd : Yields atEnd fun ts b rest => rest = ts ∧ (b = true ↔ ts = []) :=
  .of_ok fun s _ => ⟨_, s, rfl, rfl, rfl, rfl, List.isEmpty_iff⟩

theorem Yields.advance : Yields advance fun ts t rest => Seen ts t ∧ rest = ts.tail :=
  .of_ok fun _ hs => ⟨_, _, rfl, rfl, rfl, seen_next hs, rfl⟩

/-- Reading the token `t` that was seen before. -/
theorem Yields.take {t : Token} {f : Token → Parser β} (hk : t.kind ≠ .endOfInput)
    (hf : ∀ t', Yields (f t') fun us b rest => t' = t → S (t :: us) b rest) :
    Yields (Parser.advance >>= f) fun us b rest => ∀ ts, us = ts ∧ Seen ts t → S ts b rest := by
  refine Yields.advance.bind fun t' => (hf t').mono ?_
  rintro us b rest h ts ⟨hs', rfl⟩ ts' ⟨rfl, hs⟩
  have e := hs.eq_cons hk
  rw [e, seen_cons] at hs'
  rw [e]
  exact h hs'.symm

theorem Yields.check {k : TokenKind} : Yields (check k) fun ts b rest =>
    rest = ts ∧ (b = true → ∃ t, Seen ts t ∧ t.kind = k) ∧ (b = false → Next (· ≠ k) ts) := by
  refine .of_ok fun s hs => ⟨_, s, rfl, rfl, rfl, rfl, fun h => ?_, fun h => ?_⟩
  · exact ⟨s.next, seen_next hs, of_decide_eq_true h⟩
  · exact (seen_next hs).next (of_decide_eq_false h)

/-- If a token of kind `k` comes next, it is read and `p` goes on; otherwise `q` does. -/
theorem Yields.accept {k : TokenKind} {p q : Parser α} (hk : k ≠ .endOfInput)
    (hp : Yields p fun us a rest => ∀ t, t.kind = k → R (t :: us) a rest)
    (hq : Yields q fun us a rest => Next (· ≠ k) us → R us a rest) :
    Yields (Parser.accept k >>= fun b => if b = true then p else q) R := by
  have ha : Yields (Parser.accept k) fun ts b rest =>
      b = true ∧ (∃ t, ts = t :: rest ∧ t.kind = k) ∨ b = false ∧ rest = ts ∧ Next (· ≠ k) ts := by
    refine .of_ok fun s hs => ?_
    rw [accept_apply]
    have hn := seen_next hs
    by_cases h : s.next.kind = k
    · rw [if_pos h]
      exact ⟨_, _, rfl, rfl, rfl, .inl ⟨rfl, _, hn.eq_cons (h ▸ hk), h⟩⟩
    · rw [if_neg h]
      exact ⟨_, _, rfl, rfl, rfl, .inr ⟨rfl, rfl, hn.next h⟩⟩
  refine ha.bind fun b => .ite (fun hb => hp.mono ?_) fun hb => hq.mono ?_
  · rintro us a rest h ts (⟨-, t, rfl, ht⟩ | ⟨rfl, -⟩)
    · exact h t ht
    · cases hb
  · rintro us a rest h ts (⟨rfl, -⟩ | ⟨-, rfl, hn⟩)
    · cases hb rfl
    · exact h hn

/-- If a token of kind `k` comes next, it is read; `p` goes on in either case. -/
theorem Yields.acceptAny {k : TokenKind} {p : Parser α} (hk : k ≠ .endOfInput)
    (hp : Yields p fun us a rest => R us a rest ∧ ∀ t, t.kind = k → R (t :: us) a rest) :
    Yields (Parser.accept k >>= fun _ => p) R := by
  have h : Yields (Parser.accept k >>= fun b => if b = true then p else p) R :=
    .accept hk (hp.mono fun _ _ _ h => h.2) (hp.mono fun _ _ _ h _ => h.1)
  simpa only [ite_self] using h

theorem Yields.expect {k : TokenKind} {e : Expectation} (hk : k ≠ .endOfInput) :
    Yields (expect k e) fun ts t rest => ts = t :: rest ∧ t.kind = k := by
  intro s hs
  rw [expect_apply]
  by_cases h : s.next.kind = k
  · rw [if_pos h]
    exact ⟨⟨rfl, List.suffix_refl _⟩, fun _ => ⟨(seen_next hs).eq_cons (h ▸ hk), h⟩⟩
  · rw [if_neg h]
    exact .refl s

theorem Yields.expectSymbol {k : Symbol} {place : String} :
    Yields (expectSymbol k place) fun ts _ rest => ∃ t, ts = t :: rest ∧ t.kind = .symbol k :=
  (Yields.expect (by simp)).bind fun t => .pure fun _ _ h => ⟨t, h⟩

theorem Yields.expectName {what : String} :
    Yields (expectName what) fun ts t rest => ts = t :: rest ∧ t.kind = .identifier :=
  .expect (by simp)

theorem Yields.expectTerminator {place : String} :
    Yields (expectTerminator place) fun ts _ rest => Terminator ts rest := by
  refine .accept (by simp) (.pure fun _ _ => .semicolon) ?_
  refine Yields.check.bind fun b => .ite (fun hb => .pure ?_) fun _ => ?_
  · rintro us ts ⟨rfl, h, -⟩ -
    obtain ⟨t, hs, ht⟩ := h hb
    rw [hs.eq_cons (by simp [ht])]
    exact .brace ht
  refine Yields.atEnd.bind fun c => .ite (fun hc => .pure ?_) fun _ => .failHere
  rintro us ts ⟨rfl, h⟩ vs ⟨rfl, -⟩ -
  rw [h.mp hc]
  exact .finish

theorem Yields.commaList {item : Parser α} (hi : Yields item R) (fuel : Nat) :
    Yields (commaList item fuel) (Commas R) := by
  induction fuel with
  | zero => exact .throw
  | succ fuel ih =>
    refine hi.bind fun a => .accept (by simp) (ih.bind fun as => .pure ?_) (.pure ?_)
    · exact fun _ us hs c hc ts h => .more h hc hs
    · exact fun _ _ _ h => .one h

theorem Yields.looseCommaList {item : Parser α} (hi : Yields item R) (close : Symbol) (fuel : Nat) :
    Yields (looseCommaList close item fuel) (LooseCommas R) := by
  induction fuel with
  | zero => exact .throw
  | succ fuel ih =>
    refine Yields.check.bind fun b => .ite (fun _ => .pure ?_) fun _ => ?_
    · rintro us ts ⟨rfl, -⟩
      exact .none
    refine hi.bind fun a => .accept (by simp) (ih.bind fun as => .pure ?_) (.pure ?_)
    · rintro _ us hs c hc ts h _ ⟨rfl, -⟩
      exact .more h hc hs
    · rintro us - ts h _ ⟨rfl, -⟩
      exact .one h

theorem Yields.itemsToBrace {item : Parser α} (hi : Yields item R) (fuel : Nat) :
    Yields (itemsToBrace item fuel) (Sequence R) := by
  induction fuel with
  | zero => exact .throw
  | succ fuel ih =>
    refine Yields.check.bind fun b => Yields.atEnd.bind fun c => .ite (fun _ => .pure ?_) fun _ => ?_
    · rintro us ts ⟨rfl, -⟩ vs ⟨rfl, -⟩
      exact .nil
    refine hi.bind fun a => ih.bind fun as => .pure ?_
    rintro us ts hs vs h xs ⟨rfl, -⟩ ys ⟨rfl, -⟩
    exact .cons h hs

/-- A mistake that is caught is recorded, so without one the item is there. -/
theorem Yields.recovering {item : Parser α} (hi : Yields item R) :
    Yields (recovering item) fun ts o rest => ∃ a, o = some a ∧ R ts a rest := by
  intro s hs
  have hi := hi s hs
  rw [recovering_apply]
  cases h : item s with
  | ok a s' =>
    rw [h] at hi
    exact ⟨hi.1, fun hm => ⟨a, rfl, hi.2 hm⟩⟩
  | error e s' =>
    rw [h] at hi
    cases e with
    | exhausted => exact hi
    | mistake e =>
      refine ⟨⟨hi.endToken, hi.mistakes.trans (List.suffix_cons _ _)⟩, fun hm => ?_⟩
      have := hi.mistakes.length_le
      rw [← hm] at this
      exact absurd this (by simp)

theorem sequence_filterMap {ts rest : List Token} {os : List (Option α)}
    (h : Sequence (fun ts o rest => ∃ a, o = some a ∧ R ts a rest) ts os rest) :
    Sequence R ts (os.filterMap id) rest := by
  induction h with
  | nil => exact .nil
  | cons h _ ih =>
    obtain ⟨a, rfl, h⟩ := h
    exact .cons h ih

end Yields

/-! ## Completeness of steps -/

/-- Before the tokens `ts`, `p` does what `q` does before the tokens `us`. -/
def Leads (p : Parser α) (ts : List Token) (q : Parser α) (us : List Token) : Prop :=
  ∀ s : ParserState, s.endToken.kind = .endOfInput → s.rest = ts → p s = q { s with rest := us }

/-- Before the tokens `ts`, `p` returns `a`, leaves `rest` and changes nothing else. -/
def Reads (p : Parser α) (ts : List Token) (a : α) (rest : List Token) : Prop :=
  Leads p ts (pure a) rest

section Reads

variable {ts us rest : List Token} {a : α} {b : β}

theorem Leads.refl (p : Parser α) (ts : List Token) : Leads p ts p ts := by
  rintro s - rfl
  rfl

theorem Leads.trans {p q r : Parser α} {vs : List Token} (h : Leads p ts q us) (h' : Leads q us r vs) :
    Leads p ts r vs := fun s hs e => (h s hs e).trans (h' _ hs rfl)

/-- What is read by a part of a step. -/
theorem Reads.step {p : Parser α} (h : Reads p ts a us) (f : α → Parser β) :
    Leads (p >>= f) ts (f a) us := by
  intro s hs e
  rw [bind_apply, h s hs e]
  rfl

theorem Reads.bind {p : Parser α} {f : α → Parser β} (hp : Reads p ts a us)
    (hf : Reads (f a) us b rest) : Reads (p >>= f) ts b rest :=
  (hp.step f).trans hf

theorem Reads.pure : Reads (pure a : Parser α) ts a ts := .refl _ _

/-- Looking at the next token. -/
theorem Leads.peek {f : Token → Parser β} {q : Parser β}
    (h : ∀ t, Seen ts t → Leads (f t) ts q us) : Leads (peek >>= f) ts q us := by
  rintro s hs rfl
  rw [bind_apply]
  exact h s.next (seen_next hs) s hs rfl

/-- Looking at all tokens ahead. -/
theorem Leads.get {f : ParserState → Parser β} {q : Parser β}
    (h : ∀ s : ParserState, s.rest = ts → Leads (f s) ts q us) : Leads (get >>= f) ts q us := by
  rintro s hs rfl
  rw [bind_apply]
  exact h s rfl s hs rfl

theorem Reads.peek {t : Token} : Reads peek (t :: ts) t (t :: ts) := by
  intro s _ e
  show (EStateM.Result.ok (s.rest.headD s.endToken) s : EStateM.Result Abort _ _) = _
  rw [e]
  cases s
  cases e
  rfl

theorem Reads.advance {t : Token} : Reads advance (t :: ts) t ts := by
  intro s _ e
  show EStateM.Result.ok (s.rest.headD s.endToken) { s with rest := s.rest.tail } = _
  rw [e]
  rfl

theorem Reads.atEnd : Reads atEnd ts ts.isEmpty ts := by
  rintro s - rfl
  rfl

theorem Reads.check_true {k : TokenKind} {t : Token} (ht : t.kind = k) :
    Reads (check k) (t :: ts) true (t :: ts) := by
  intro s hs e
  have hn : s.next = t := by simp [ParserState.next, e]
  rw [check_apply, hn, decide_eq_true ht, ← e]
  rfl

theorem Reads.check_false {k : TokenKind} (hk : k ≠ .endOfInput) (h : Next (· ≠ k) ts) :
    Reads (check k) ts false ts := by
  rintro s hs rfl
  rw [check_apply, decide_eq_false ((seen_next hs).kind h hk.symm)]
  rfl

theorem Reads.accept_true {k : TokenKind} {t : Token} (ht : t.kind = k) :
    Reads (accept k) (t :: ts) true ts :=
  (Reads.check_true ht).bind (Reads.advance.bind .pure)

theorem Reads.accept_false {k : TokenKind} (hk : k ≠ .endOfInput) (h : Next (· ≠ k) ts) :
    Reads (accept k) ts false ts :=
  (Reads.check_false hk h).bind .pure

theorem Reads.expect {k : TokenKind} {e : Expectation} {t : Token} (ht : t.kind = k) :
    Reads (expect k e) (t :: ts) t ts :=
  (Reads.check_true ht).bind .advance

theorem Reads.expectSymbol {k : Symbol} {place : String} {t : Token} (ht : t.kind = .symbol k) :
    Reads (expectSymbol k place) (t :: ts) () ts :=
  (Reads.expect ht).bind .pure

theorem Reads.expectTerminator {place : String} (h : Terminator ts rest) :
    Reads (expectTerminator place) ts () rest := by
  cases h with
  | semicolon ht => exact (Reads.accept_true ht).bind .pure
  | brace ht =>
    refine (Reads.accept_false (by simp) (by simp [ht])).bind ?_
    exact (Reads.check_true ht).bind .pure
  | finish =>
    refine (Reads.accept_false (by simp) next_nil).bind ?_
    exact (Reads.check_false (by simp) next_nil).bind (Reads.atEnd.bind .pure)

/-- An item that makes no mistake is returned. -/
theorem Reads.recovering {p : Parser α} (h : Reads p ts a rest) :
    Reads (recovering p) ts (some a) rest := by
  intro s hs e
  rw [recovering_apply, h s hs e]
  rfl

variable {R : List Token → α → List Token → Prop} {n : Nat}

/-- One or more items with commas between them, before the symbol `close`. Each item reads a token. -/
theorem Reads.commaList {item : Parser α} (close : Symbol) {as : List α} (hc : close ≠ .comma)
    (hi : ∀ us a vs, R us a vs → us.length ≤ n →
      Next (fun k => k = .symbol .comma ∨ k = .symbol close) vs →
      Reads item us a vs ∧ vs.length < us.length)
    (h : Commas R ts as rest) (hr : Next (· = .symbol close) rest) (hn : ts.length ≤ n) {m : Nat}
    (hm : ts.length < m) : Reads (commaList item m) ts as rest := by
  induction h generalizing m with
  | one h =>
    obtain _ | m := m
    · omega
    refine (hi _ _ _ h hn fun t ht => .inr (hr t ht)).1.bind ?_
    exact (Reads.accept_false (by simp) fun t ht => by simp [hr t ht, hc]).bind .pure
  | @more ts us rest c a as h hk _ ih =>
    obtain _ | m := m
    · omega
    obtain ⟨hread, hlt⟩ := hi _ _ _ h hn (by simp [hk])
    rw [List.length_cons] at hlt
    have htail := ih hr (by omega) (m := m) (by omega)
    exact hread.bind ((Reads.accept_true hk).bind (htail.bind .pure))

/-- Items with commas between them and perhaps one after the last, before the symbol `close`, which
starts no item. -/
theorem Reads.looseCommaList {item : Parser α} {close : Symbol} {r : Token} {as : List α}
    (hc : close ≠ .comma)
    (hi : ∀ us a vs, R us a vs → us.length ≤ n →
      Next (fun k => k = .symbol .comma ∨ k = .symbol close) vs →
      Reads item us a vs ∧ vs.length < us.length ∧ Next (· ≠ .symbol close) us)
    (h : LooseCommas R ts as (r :: rest)) (hr : r.kind = .symbol close) (hn : ts.length ≤ n) {m : Nat}
    (hm : ts.length < m) : Reads (looseCommaList close item m) ts as (r :: rest) := by
  generalize e : r :: rest = end' at h ⊢
  induction h generalizing m with
  | none =>
    subst e
    obtain _ | m := m
    · omega
    exact (Reads.check_true hr).bind .pure
  | one h =>
    subst e
    obtain _ | m := m
    · omega
    obtain ⟨hread, -, hs⟩ := hi _ _ _ h hn (by simp [hr])
    refine (Reads.check_false (by simp) hs).bind (hread.bind ?_)
    exact (Reads.accept_false (by simp) (by simp [hr, hc])).bind .pure
  | @more ts us rest c a as h hk _ ih =>
    obtain _ | m := m
    · omega
    obtain ⟨hread, hlt, hs⟩ := hi _ _ _ h hn (by simp [hk])
    rw [List.length_cons] at hlt
    have htail := ih (by omega) (m := m) (by omega) e
    refine (Reads.check_false (by simp) hs).bind (hread.bind ?_)
    exact (Reads.accept_true hk).bind (htail.bind .pure)

/-- Items up to a closing brace, none of which starts with one. -/
theorem Reads.itemsToBrace {item : Parser α} {r : Token} {as : List α}
    (hi : ∀ us a vs, R us a vs → us.length ≤ n →
      Reads item us a vs ∧ vs.length < us.length ∧ Next (· ≠ .symbol .rightBrace) us)
    (h : Sequence R ts as (r :: rest)) (hr : r.kind = .symbol .rightBrace) (hn : ts.length ≤ n)
    {m : Nat} (hm : ts.length < m) : Reads (itemsToBrace item m) ts as (r :: rest) := by
  generalize e : r :: rest = end' at h ⊢
  induction h generalizing m with
  | nil =>
    subst e
    obtain _ | m := m
    · omega
    exact (Reads.check_true hr).bind (Reads.atEnd.bind .pure)
  | @cons ts us rest a as h _ ih =>
    obtain _ | m := m
    · omega
    obtain ⟨hread, hlt, hs⟩ := hi _ _ _ h hn
    have hne : ts.isEmpty = false := by
      cases ts with
      | nil => exact absurd hlt (Nat.not_lt_zero _)
      | cons => rfl
    refine (Reads.check_false (by simp) hs).bind (Reads.atEnd.bind ?_)
    rw [hne]
    exact hread.bind ((ih (by omega) (by omega) e).bind .pure)

end Reads

end Scriptlet.Parser
