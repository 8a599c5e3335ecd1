import Scriptlet.Proofs.Syntax.Mistakes
import Scriptlet.Proofs.Syntax.Seams

/-!
# Every independent mistake is reported once

A segment is a piece of a text that ends with its only semicolon, has no braces, and starts
at most one statement, at its front. Read alone it gives one statement or one mistake, at one of
its tokens (`Segment.Gives.reading`). Within a text it does the same, whatever stands before and
behind it: a mistake in it is recorded, and reading resumes just behind its semicolon
(`Together.recovering_cons`). So reading segments one after the other gives what they give
alone, put together, at the outermost level (`Together.program_eq`) and in a block
(`Together.block_eq`).
-/

namespace Scriptlet

open Scriptlet.Parser

/-- A token that may stand in a segment before its semicolon. -/
structure Token.Plain (t : Token) : Prop where
  semicolon : t.kind ≠ .symbol .semicolon
  leftBrace : t.kind ≠ .symbol .leftBrace
  rightBrace : t.kind ≠ .symbol .rightBrace
  endOfInput : t.kind ≠ .endOfInput
  fault : t.fault? = none

/-- Plain tokens and a semicolon behind them. A word that starts a statement comes first or not at
all; `for` and `else` do not come first. -/
inductive Segment : List Token → Prop where
  | mk {ts : List Token} {c : Token} (plain : ∀ t ∈ ts, t.Plain)
      (words : ∀ t ∈ ts.tail, t.kind.startsStatement = false)
      (first : ∀ t ∈ ts.head?, t.kind ≠ .keyword .forWord ∧ t.kind ≠ .keyword .elseWord)
      (semicolon : c.kind = .symbol .semicolon) : Segment (ts ++ [c])

instance (t : Token) : Decidable t.Plain :=
  decidable_of_iff (t.kind ≠ .symbol .semicolon ∧ t.kind ≠ .symbol .leftBrace ∧
    t.kind ≠ .symbol .rightBrace ∧ t.kind ≠ .endOfInput ∧ t.fault? = none)
    ⟨fun ⟨h₁, h₂, h₃, h₄, h₅⟩ => ⟨h₁, h₂, h₃, h₄, h₅⟩, fun ⟨h₁, h₂, h₃, h₄, h₅⟩ => ⟨h₁, h₂, h₃, h₄, h₅⟩⟩

namespace Segment

variable {seg : List Token}

/-- The conditions on a segment, as conditions on its last token and on those before it. -/
theorem iff_dropLast : Segment seg ↔ (∀ t ∈ seg.dropLast, t.Plain) ∧
    (∀ t ∈ seg.dropLast.tail, t.kind.startsStatement = false) ∧
    (∀ t ∈ seg.dropLast.head?, t.kind ≠ .keyword .forWord ∧ t.kind ≠ .keyword .elseWord) ∧
    seg.getLast?.any (·.kind = .symbol .semicolon) = true := by
  constructor
  · rintro ⟨plain, words, first, hc⟩
    simpa [hc] using ⟨plain, words, first⟩
  · rintro ⟨plain, words, first, hc⟩
    cases hlast : seg.getLast? with
    | none =>
      rw [hlast] at hc
      cases hc
    | some c =>
      rw [hlast] at hc
      rw [← List.dropLast_append_getLast? c hlast]
      exact .mk plain words first (of_decide_eq_true hc)

instance : Decidable (Segment seg) := decidable_of_iff _ iff_dropLast.symm

theorem ne_nil (h : Segment seg) : seg ≠ [] := by
  cases h
  simp

theorem kind_ne_endOfInput (h : Segment seg) : ∀ t ∈ seg, t.kind ≠ .endOfInput := by
  obtain ⟨plain, -, -, hc⟩ := h
  intro t ht
  rcases List.mem_append.mp ht with ht | ht
  · exact (plain t ht).endOfInput
  · rw [List.mem_singleton.mp ht, hc]
    decide

theorem fault (h : Segment seg) : ∀ t ∈ seg, t.fault? = none := by
  obtain ⟨plain, -, -, hc⟩ := h
  intro t ht
  rcases List.mem_append.mp ht with ht | ht
  · exact (plain t ht).fault
  · rw [List.mem_singleton.mp ht, Token.fault?, hc]

/-- A segment does not go on with a conditional before it, and closes no block. -/
theorem head (h : Segment seg) : ∀ t ∈ seg.head?,
    t.kind ≠ .keyword .elseWord ∧ t.kind ≠ .symbol .rightBrace := by
  obtain ⟨plain, -, first, hc⟩ := h
  rename_i ts c
  cases ts with
  | nil =>
    rintro t ⟨⟩
    rw [hc]
    decide
  | cons t ts =>
    rintro t ⟨⟩
    exact ⟨(first t rfl).2, (plain t List.mem_cons_self).rightBrace⟩

/-! ## One segment -/

/-- A declaration is read in the same way before any two states behind the segment, with whatever
bounds. -/
theorem agree (h : Segment seg) {s s' : ParserState} (hs : s.next.kind ≠ .keyword .elseWord)
    (hs' : s'.next.kind ≠ .keyword .elseWord) (n n' : Nat) :
    ∃ m : Seam, m.one = s ∧ m.other = s' ∧ m.tokens ⊆ seg ∧
      Agree m m.Behind (Rule.parse (n + 1) .declaration { s with rest := seg ++ s.rest })
        (Rule.parse (n' + 1) .declaration { s' with rest := seg ++ s'.rest }) := by
  obtain ⟨plain, words, first, hc⟩ := h
  rename_i ts c
  have hinner (us : List Token) (hsub : us ⊆ ts)
      (hwords : ∀ t ∈ us, t.kind.startsStatement = false) : ∀ t ∈ us, t.Inner := fun t ht =>
    ⟨(plain t (hsub ht)).semicolon, (plain t (hsub ht)).leftBrace, (plain t (hsub ht)).rightBrace,
      hwords t ht⟩
  have hstate (s : ParserState) :
      ({ s with rest := (ts ++ [c]) ++ s.rest } : ParserState) = { s with rest := ts ++ c :: s.rest } := by
    rw [List.append_assoc]
    rfl
  rw [hstate, hstate]
  cases ts with
  | nil =>
    let m : Seam := ⟨[], c, s, s', fun _ h => (nomatch h), hc, hs, hs'⟩
    exact ⟨m, rfl, rfl, List.Subset.refl _,
      Alike.declaration (rulesAlike_parse m n n') _ _ [] (List.suffix_refl _)⟩
  | cons t us =>
    cases hword : t.kind.startsStatement with
    | false =>
      have hall : ∀ u ∈ t :: us, u.kind.startsStatement = false :=
        List.forall_mem_cons.mpr ⟨hword, words⟩
      let m : Seam := ⟨t :: us, c, s, s', hinner _ (List.Subset.refl _) hall, hc, hs, hs'⟩
      exact ⟨m, rfl, rfl, List.Subset.refl _,
        Alike.declaration (rulesAlike_parse m n n') _ _ (t :: us) (List.suffix_refl _)⟩
    | true =>
      -- The word in front is read before anything else, and the seam begins behind it.
      let m : Seam := ⟨us, c, s, s', hinner _ (List.subset_cons_self _ _) words, hc, hs, hs'⟩
      exact ⟨m, rfl, rfl, List.subset_cons_self _ _,
        Alike.declarationWord (rulesAlike_parse m n n') _ _ hword (first t rfl).1 (List.suffix_refl _)⟩

/-- What a segment gives: a statement, or the mistake that is recorded, at one of its tokens. What is
before and behind the segment does not matter, and reading goes on behind it. -/
structure Gives (seg : List Token) (o : Option Stmt) (es : List ParseError) : Prop where
  shape : (∃ s, o = some s ∧ es = []) ∨ ∃ e, o = none ∧ es = [e] ∧ e.found ∈ seg
  recovering (n : Nat) (s : ParserState) : s.endToken.kind = .endOfInput →
    s.next.kind ≠ .keyword .elseWord → seg.length + s.rest.length < n →
    recovering (Rule.parse n .declaration) { s with rest := seg ++ s.rest } =
      .ok o { s with mistakes := es ++ s.mistakes }

theorem exists_gives (h : Segment seg) : ∃ o es, Gives seg o es := by
  -- The segment is read alone once; every other run agrees with that one.
  let alone : ParserState := ⟨[], ⟨.endOfInput, "", Position.start⟩, 0, []⟩
  have hnext : alone.next.kind ≠ .keyword .elseWord := by decide
  have hends (n : Nat) (s : ParserState) (hs : s.endToken.kind = .endOfInput)
      (hn : seg.length + s.rest.length < n) :
      ItemAt (Rule.parse n .declaration) { s with rest := seg ++ s.rest } :=
    (rulesProgress_parse n).item .declaration _ hs (by simpa using hn)
  have hagree (n : Nat) (s : ParserState) (hs : s.next.kind ≠ .keyword .elseWord)
      (hn : seg.length + s.rest.length < n) : ∃ m : Seam, m.other = s ∧ m.tokens ⊆ seg ∧
        Agree m m.Behind (Rule.parse (seg.length + 1) .declaration { alone with rest := seg ++ [] })
          (Rule.parse n .declaration { s with rest := seg ++ s.rest }) := by
    obtain ⟨n, rfl⟩ := Nat.exists_eq_succ_of_ne_zero (Nat.ne_of_gt (Nat.zero_lt_of_lt hn))
    obtain ⟨m, -, hother, htokens, h⟩ := h.agree hnext hs seg.length n
    exact ⟨m, hother, htokens, h⟩
  have halone := hends (seg.length + 1) alone rfl (Nat.lt_succ_self _)
  have hself := hagree (seg.length + 1) alone hnext (Nat.lt_succ_self _)
  unfold ItemAt at halone
  cases hrun : Rule.parse (seg.length + 1) .declaration { alone with rest := seg ++ [] } with
  | ok a s₀ =>
    refine ⟨some a, [], .inl ⟨a, rfl, rfl⟩, fun n s hs he hn => ?_⟩
    obtain ⟨m, rfl, -, hag⟩ := hagree n s he hn
    rw [hrun] at hag
    rw [recovering_apply, hag.of_ok (hends n m.other hs hn)]
    rfl
  | error e s₀ =>
    cases e with
    | exhausted =>
      rw [hrun] at halone
      exact halone.elim
    | mistake e =>
      obtain ⟨m, -, htokens, hag⟩ := hself
      rw [hrun] at hag
      have hfound := (hag.of_mistake (hrun ▸ halone)).1
      refine ⟨none, [e], .inr ⟨e, rfl, rfl, htokens hfound⟩, fun n s hs he hn => ?_⟩
      obtain ⟨m, rfl, -, hag⟩ := hagree n s he hn
      rw [hrun] at hag
      obtain ⟨-, ts, hts, hrun'⟩ := hag.of_mistake (hends n m.other hs hn)
      rw [recovering_apply, hrun']
      exact congrArg (fun rest => EStateM.Result.ok none { m.other with
        rest := rest, mistakes := e :: m.other.mistakes }) (resume_before m _ hts m.other.rest)

end Segment

/-! ## Reading segments one after the other -/

theorem Parser.program_nil {rules : Rules} (m : Nat) {s : ParserState} (hs : s.rest = []) :
    program rules (m + 1) s = .ok [] s := by
  unfold Parser.program
  rw [bind_apply]
  show (if s.rest.isEmpty = true then _ else _ : Parser (List Stmt)) s = _
  rw [hs]
  rfl

theorem Parser.program_cons {rules : Rules} {m : Nat} {s s₁ s₂ : ParserState} {o : Option Stmt}
    {ss : List Stmt} (hs : s.rest ≠ []) (h : recovering (rules .declaration) s = .ok o s₁)
    (hrest : program rules m s₁ = .ok ss s₂) : program rules (m + 1) s = .ok (o.toList ++ ss) s₂ := by
  have hempty : s.rest.isEmpty = false := by simpa using hs
  unfold Parser.program
  rw [bind_apply]
  show (if s.rest.isEmpty = true then _ else _ : Parser (List Stmt)) s = _
  rw [hempty]
  simp only [Bool.false_eq_true, ↓reduceIte, bind_apply, h, hrest]
  rfl

theorem Parser.itemsToBrace_nil {α : Type} {item : Parser α} (m : Nat) {s : ParserState}
    (hs : s.next.kind = .symbol .rightBrace) : itemsToBrace item (m + 1) s = .ok [] s := by
  unfold Parser.itemsToBrace checkSymbol
  rw [bind_apply, check_apply, decide_eq_true hs]
  rfl

theorem Parser.itemsToBrace_cons {α : Type} {item : Parser α} {m : Nat} {s s₁ s₂ : ParserState}
    {a : α} {as : List α} (hs : s.next.kind ≠ .symbol .rightBrace) (hne : s.rest ≠ [])
    (h : item s = .ok a s₁) (hrest : itemsToBrace item m s₁ = .ok as s₂) :
    itemsToBrace item (m + 1) s = .ok (a :: as) s₂ := by
  have hempty : s.rest.isEmpty = false := by simpa using hne
  unfold Parser.itemsToBrace checkSymbol
  rw [bind_apply, check_apply, decide_eq_false hs]
  show (if s.rest.isEmpty = true then _ else _ : Parser (List α)) s = _
  rw [hempty]
  simp only [Bool.false_eq_true, ↓reduceIte, bind_apply, h, hrest]
  rfl

/-- A block that stands where a declaration may stand. -/
theorem Parser.declaration_block {rules : Rules} {fuel : Nat} {s s' : ParserState} {l : Token}
    {us : List Token} {body : List Stmt} (hl : l.kind = .symbol .leftBrace) (hs : s.rest = l :: us)
    (h : block rules fuel { s with rest := us } = .ok body s') :
    declaration rules fuel s = .ok (.block l.position body) s' := by
  obtain ⟨rest, endToken, depth, mistakes⟩ := s
  obtain rfl : rest = l :: us := hs
  obtain ⟨k, lexeme, p⟩ := l
  obtain rfl : k = .symbol .leftBrace := hl
  show ((block rules fuel >>= fun body => pure (.block p body) : Parser Stmt)
    ⟨us, endToken, depth, mistakes⟩) = _
  rw [bind_apply, h]
  rfl

/-- What the parser does with tokens that are free of faults is what reading them gives. -/
theorem Reading.ofTokens_eq {ts : List Token} (hfault : ∀ t ∈ textTokens ts, t.fault? = none)
    {ss : List Stmt} {es : List ParseError}
    (hrun : ∀ (n : Nat) (s : ParserState), s.endToken.kind = .endOfInput → s.rest = [] →
      s.blockDepth = 0 → (textTokens ts).length < n →
      program (fun rule s => Rule.parse n rule s) n { s with rest := textTokens ts } =
        .ok ss { s with mistakes := es.reverse ++ s.mistakes }) :
    Reading.ofTokens ts = ⟨ss, [], es⟩ := by
  have hfaults : (TokenStream.ofTokens ts).faults = [] := List.filterMap_eq_nil_iff.mpr hfault
  obtain ⟨ss', s', hparse, hread⟩ := exists_reading ts
  have htokens := tokens_ofTokens hfaults
  have hstart := hrun ((textTokens ts).length + 1) ⟨[], (TokenStream.ofTokens ts).endToken, 0, []⟩
    (kind_endToken ts) rfl rfl (Nat.lt_succ_self _)
  unfold TokenStream.parser TokenStream.start at hparse
  rw [htokens] at hparse
  cases hparse.symm.trans hstart
  rw [hread, hfaults]
  simp

namespace Segment

variable {seg : List Token} {segs : List (List Token)}

theorem textTokens_eq (h : Segment seg) : textTokens seg = seg :=
  List.takeWhile_eq_self_iff.mpr fun t ht => by simpa using h.kind_ne_endOfInput t ht

/-- There is at most one mistake. -/
theorem Gives.reverse {o : Option Stmt} {es : List ParseError} (h : Gives seg o es) :
    es.reverse = es := by
  obtain ⟨_, -, rfl⟩ | ⟨_, -, rfl, -⟩ := h.shape <;> rfl

/-- Read alone, a segment gives just what it gives. -/
theorem Gives.reading (h : Segment seg) {o : Option Stmt} {es : List ParseError}
    (hgives : Gives seg o es) : Reading.ofTokens seg = ⟨o.toList, [], es⟩ := by
  refine Reading.ofTokens_eq (by rw [h.textTokens_eq]; exact h.fault) ?_
  rintro n ⟨_, endToken, depth, mistakes⟩ hs rfl - hn
  rw [h.textTokens_eq] at hn ⊢
  have hnext : endToken.kind ≠ .keyword .elseWord := by
    have hk : endToken.kind = .endOfInput := hs
    rw [hk]
    decide
  have hstep := hgives.recovering n ⟨[], endToken, depth, mistakes⟩ hs hnext hn
  rw [List.append_nil] at hstep
  have hlength := List.length_pos_iff.mpr h.ne_nil
  obtain _ | _ | n := n
  · omega
  · omega
  have hrun := program_cons h.ne_nil hstep (program_nil n rfl)
  rw [List.append_nil] at hrun
  rw [hgives.reverse]
  exact hrun

/-- A segment is either good or bad: alone, it is one statement or has one mistake. -/
theorem Gives.parse (h : Segment seg) {o : Option Stmt} {es : List ParseError}
    (hgives : Gives seg o es) : (∃ s, o = some s ∧ es = [] ∧ parse seg = .ok ⟨[s]⟩) ∨
      ∃ e, o = none ∧ es = [e] ∧ e.found ∈ seg ∧ parse seg = .error [.parse e] := by
  have hread := hgives.reading h
  unfold Scriptlet.parse
  rw [hread]
  obtain ⟨s, rfl, rfl⟩ | ⟨e, rfl, rfl, he⟩ := hgives.shape
  · exact .inl ⟨s, rfl, rfl, rfl⟩
  · refine .inr ⟨e, rfl, rfl, he, ?_⟩
    simp [Reading.result, Reading.errors]

end Segment

/-! ## Segments one after the other -/

/-- Whether the tokens, read alone, are a program. -/
def isGood (ts : List Token) : Bool := (parse ts).isOk

/-- `ss` are the statements of the good segments and `es` the mistakes of the bad ones, each what its
segment gives alone. -/
structure Together (segs : List (List Token)) (ss : List Stmt) (es : List ParseError) : Prop where
  good : List.Forall₂ (fun seg s => parse seg = .ok ⟨[s]⟩) (segs.filter isGood) ss
  bad : List.Forall₂ (fun seg e => parse seg = .error [.parse e] ∧ e.found ∈ seg)
    (segs.filter fun seg => !isGood seg) es

namespace Together

variable {seg : List Token} {segs : List (List Token)} {ss : List Stmt} {es : List ParseError}

theorem nil : Together [] [] [] := ⟨.nil, .nil⟩

theorem exists_cons (h : Segment seg) (ht : Together segs ss es) :
    ∃ ss es, Together (seg :: segs) ss es := by
  obtain ⟨o, eo, hgives⟩ := h.exists_gives
  obtain ⟨s, -, -, hparse⟩ | ⟨e, -, -, he, hparse⟩ := hgives.parse h
  · have hok : isGood seg = true := by rw [isGood, hparse]; rfl
    refine ⟨s :: ss, es, ?_, ?_⟩
    · rw [List.filter_cons_of_pos hok]
      exact .cons hparse ht.good
    · rw [List.filter_cons_of_neg (by simp [hok])]
      exact ht.bad
  · have hok : isGood seg = false := by rw [isGood, hparse]; rfl
    refine ⟨ss, e :: es, ?_, ?_⟩
    · rw [List.filter_cons_of_neg (by simp [hok])]
      exact ht.good
    · rw [List.filter_cons_of_pos (by simp [hok])]
      exact .cons ⟨hparse, he⟩ ht.bad

/-- Segments that are each good or bad give something together. -/
theorem exists_of_segments (h : ∀ seg ∈ segs, Segment seg) : ∃ ss es, Together segs ss es := by
  induction segs with
  | nil => exact ⟨[], [], nil⟩
  | cons seg segs ih =>
    obtain ⟨ss, es, ht⟩ := ih fun seg hs => h seg (List.mem_cons_of_mem _ hs)
    exact ht.exists_cons (h seg List.mem_cons_self)

/-- The first segment's part of what is given together. -/
theorem of_cons (h : Segment seg) (ht : Together (seg :: segs) ss es) : ∃ o eo ss' es',
    Segment.Gives seg o eo ∧ ss = o.toList ++ ss' ∧ es = eo ++ es' ∧ Together segs ss' es' := by
  obtain ⟨hgood, hbad⟩ := ht
  obtain ⟨o, eo, hgives⟩ := h.exists_gives
  obtain ⟨s, rfl, rfl, hparse⟩ | ⟨e, rfl, rfl, -, hparse⟩ := hgives.parse h
  · have hok : isGood seg = true := by rw [isGood, hparse]; rfl
    rw [List.filter_cons_of_pos hok] at hgood
    rw [List.filter_cons_of_neg (by simp [hok])] at hbad
    cases hgood with
    | cons hs hgood =>
      cases hparse.symm.trans hs
      exact ⟨_, _, _, _, hgives, rfl, rfl, hgood, hbad⟩
  · have hok : isGood seg = false := by rw [isGood, hparse]; rfl
    rw [List.filter_cons_of_neg (by simp [hok])] at hgood
    rw [List.filter_cons_of_pos (by simp [hok])] at hbad
    cases hbad with
    | cons he hbad =>
      cases hparse.symm.trans he.1
      exact ⟨_, _, _, _, hgives, rfl, rfl, hgood, hbad⟩

/-- What comes after a segment is another one, or what comes after all of them. -/
theorem next_ne_else (h : ∀ seg ∈ segs, Segment seg) {s : ParserState}
    (hs : s.next.kind ≠ .keyword .elseWord) :
    ({ s with rest := segs.flatten ++ s.rest } : ParserState).next.kind ≠ .keyword .elseWord := by
  cases segs with
  | nil => exact hs
  | cons seg segs =>
    have hseg := h seg List.mem_cons_self
    obtain ⟨t, us, rfl⟩ := List.exists_cons_of_ne_nil hseg.ne_nil
    exact (hseg.head t rfl).1

/-- The first of several segments is read, and its mistake recorded if it is a bad one. -/
theorem recovering_cons {seg : List Token} (h : ∀ seg' ∈ seg :: segs, Segment seg')
    (ht : Together (seg :: segs) ss es) {n : Nat} {s : ParserState}
    (hs : s.endToken.kind = .endOfInput) (hnext : s.next.kind ≠ .keyword .elseWord)
    (hn : (seg :: segs).flatten.length + s.rest.length < n) :
    ∃ o eo ss' es', ss = o.toList ++ ss' ∧ es.reverse = es'.reverse ++ eo ∧
      Together segs ss' es' ∧ recovering (Rule.parse n .declaration)
          { s with rest := (seg :: segs).flatten ++ s.rest } =
        .ok o { s with rest := segs.flatten ++ s.rest, mistakes := eo ++ s.mistakes } := by
  have hsegs : ∀ seg ∈ segs, Segment seg := fun seg hs => h seg (List.mem_cons_of_mem _ hs)
  obtain ⟨o, eo, ss', es', hgives, hss, rfl, htail⟩ := ht.of_cons (h seg List.mem_cons_self)
  rw [List.flatten_cons, List.length_append, Nat.add_assoc] at hn
  have hstep := hgives.recovering n { s with rest := segs.flatten ++ s.rest } hs
    (next_ne_else hsegs hnext) (by simpa only [List.length_append] using hn)
  refine ⟨o, eo, ss', es', hss, by rw [List.reverse_append, hgives.reverse], htail, ?_⟩
  rw [List.flatten_cons, List.append_assoc]
  exact hstep

/-- At the outermost level the statements of the good segments are read, and the mistakes of the bad
ones are recorded. -/
theorem program_eq (h : ∀ seg ∈ segs, Segment seg) (ht : Together segs ss es) {n m : Nat}
    {s : ParserState} (hs : s.endToken.kind = .endOfInput) (hrest : s.rest = [])
    (hn : segs.flatten.length < n) (hm : segs.flatten.length < m) :
    program (fun rule s => Rule.parse n rule s) m { s with rest := segs.flatten ++ s.rest } =
      .ok ss { s with mistakes := es.reverse ++ s.mistakes } := by
  induction segs generalizing ss es m s with
  | nil =>
    obtain ⟨hgood, hbad⟩ := ht
    cases hgood
    cases hbad
    obtain ⟨m, rfl⟩ := Nat.exists_eq_succ_of_ne_zero (Nat.ne_of_gt (Nat.zero_lt_of_lt hm))
    exact program_nil m hrest
  | cons seg segs ih =>
    have hseg := h seg List.mem_cons_self
    have hnext : s.next.kind ≠ .keyword .elseWord := by
      rw [ParserState.next, hrest, List.headD_nil, hs]
      decide
    obtain ⟨o, eo, ss, es', rfl, hes, htail, hstep⟩ :=
      recovering_cons h ht (n := n) hs hnext (by rwa [hrest])
    have hlength := List.length_pos_iff.mpr hseg.ne_nil
    simp only [List.flatten_cons, List.length_append] at hn hm
    obtain ⟨m, rfl⟩ := Nat.exists_eq_succ_of_ne_zero (Nat.ne_of_gt (Nat.zero_lt_of_lt hm))
    have hloop := ih (fun seg hs => h seg (List.mem_cons_of_mem _ hs)) htail
      (s := { s with mistakes := eo ++ s.mistakes }) hs hrest (by omega) (m := m) (by omega)
    have hrun := program_cons (by simp [hseg.ne_nil]) hstep hloop
    rw [hes, List.append_assoc]
    exact hrun

/-- In a block, before the brace that closes it, it is the same. -/
theorem itemsToBrace_eq (h : ∀ seg ∈ segs, Segment seg) (ht : Together segs ss es) {n m : Nat}
    {s : ParserState} (hs : s.endToken.kind = .endOfInput) (hbrace : s.next.kind = .symbol .rightBrace)
    (hn : segs.flatten.length + s.rest.length < n) (hm : segs.flatten.length < m) :
    ∃ os, os.filterMap id = ss ∧ itemsToBrace (recovering (Rule.parse n .declaration)) m
        { s with rest := segs.flatten ++ s.rest } =
      .ok os { s with mistakes := es.reverse ++ s.mistakes } := by
  induction segs generalizing ss es m s with
  | nil =>
    obtain ⟨hgood, hbad⟩ := ht
    cases hgood
    cases hbad
    obtain ⟨m, rfl⟩ := Nat.exists_eq_succ_of_ne_zero (Nat.ne_of_gt (Nat.zero_lt_of_lt hm))
    exact ⟨[], rfl, itemsToBrace_nil m hbrace⟩
  | cons seg segs ih =>
    have hseg := h seg List.mem_cons_self
    have hnext : s.next.kind ≠ .keyword .elseWord := by
      rw [hbrace]
      decide
    obtain ⟨o, eo, ss, es', rfl, hes, htail, hstep⟩ := recovering_cons h ht hs hnext hn
    have hlength := List.length_pos_iff.mpr hseg.ne_nil
    simp only [List.flatten_cons, List.length_append] at hn hm
    obtain ⟨m, rfl⟩ := Nat.exists_eq_succ_of_ne_zero (Nat.ne_of_gt (Nat.zero_lt_of_lt hm))
    obtain ⟨os, hos, hloop⟩ := ih (fun seg hs => h seg (List.mem_cons_of_mem _ hs)) htail
      (s := { s with mistakes := eo ++ s.mistakes }) hs hbrace (by simp only; omega) (m := m)
      (by omega)
    obtain ⟨t, us, rfl⟩ := List.exists_cons_of_ne_nil hseg.ne_nil
    have hfirst : ParserState.next { s with rest := ((t :: us) :: segs).flatten ++ s.rest } = t :=
      rfl
    have hrun := itemsToBrace_cons (hfirst ▸ (hseg.head t rfl).2) (List.cons_ne_nil _ _) hstep hloop
    refine ⟨o :: os, by rw [← hos]; cases o <;> rfl, ?_⟩
    rw [hes, List.append_assoc]
    exact hrun

/-- A block of segments is read to its closing brace. -/
theorem block_eq (h : ∀ seg ∈ segs, Segment seg) (ht : Together segs ss es) {n m : Nat}
    {s : ParserState} {r : Token} {us : List Token} (hs : s.endToken.kind = .endOfInput)
    (hr : r.kind = .symbol .rightBrace) (hrest : s.rest = segs.flatten ++ r :: us)
    (hn : s.rest.length < n) (hm : n ≤ m) :
    block (fun rule s => Rule.parse n rule s) m s =
      .ok ss { s with rest := us, mistakes := es.reverse ++ s.mistakes } := by
  obtain ⟨rest, endToken, depth, mistakes⟩ := s
  obtain rfl : rest = segs.flatten ++ r :: us := hrest
  simp only [List.length_append, List.length_cons] at hn
  obtain ⟨os, rfl, hitems⟩ := ht.itemsToBrace_eq h (n := n) (m := m)
    (s := ⟨r :: us, endToken, depth + 1, mistakes⟩) hs hr hn (by omega)
  unfold Parser.block
  rw [bind_apply]
  show ((itemsToBrace (recovering (Rule.parse n .declaration)) m >>= _ : Parser (List Stmt))
    ⟨segs.flatten ++ r :: us, endToken, depth + 1, mistakes⟩) = _
  rw [bind_apply, hitems]
  show ((expectSymbol .rightBrace "after block" >>= _ : Parser (List Stmt))
    ⟨r :: us, endToken, depth, es.reverse ++ mistakes⟩) = _
  have hreads : Reads (expectSymbol .rightBrace "after block") (r :: us) () us :=
    Reads.expectSymbol hr
  have hclose := hreads ⟨r :: us, endToken, depth, es.reverse ++ mistakes⟩ hs rfl
  rw [bind_apply, hclose]
  rfl

/-! ## Whole texts -/

theorem fault (h : ∀ seg ∈ segs, Segment seg) : ∀ t ∈ segs.flatten, t.fault? = none := by
  intro t ht
  obtain ⟨seg, hseg, ht⟩ := List.mem_flatten.mp ht
  exact (h seg hseg).fault t ht

/-- A text of segments. -/
theorem reading (h : ∀ seg ∈ segs, Segment seg) (ht : Together segs ss es) {ts : List Token}
    (hts : textTokens ts = segs.flatten) : Reading.ofTokens ts = ⟨ss, [], es⟩ := by
  refine Reading.ofTokens_eq (hts ▸ fault h) fun n s hs hrest _ hn => ?_
  rw [hts] at hn ⊢
  have hrun := ht.program_eq h hs hrest hn hn
  rw [hrest, List.append_nil] at hrun
  rw [hrun, ← hrest]

/-- A text that is one block of segments. -/
theorem reading_block (h : ∀ seg ∈ segs, Segment seg) (ht : Together segs ss es) {ts : List Token}
    {l r : Token} (hl : l.kind = .symbol .leftBrace) (hr : r.kind = .symbol .rightBrace)
    (hts : textTokens ts = l :: (segs.flatten ++ [r])) :
    Reading.ofTokens ts = ⟨[.block l.position ss], [], es⟩ := by
  have hfault : ∀ t ∈ textTokens ts, t.fault? = none := by
    rw [hts]
    refine List.forall_mem_cons.mpr ⟨by simp [Token.fault?, hl], fun t ht => ?_⟩
    rcases List.mem_append.mp ht with ht | ht
    · exact fault h t ht
    · simp [Token.fault?, List.mem_singleton.mp ht, hr]
  refine Reading.ofTokens_eq hfault fun n s hs hrest _ hn => ?_
  rw [hts] at hn ⊢
  simp only [List.length_cons, List.length_append, List.length_nil] at hn
  obtain _ | _ | n := n
  · omega
  · omega
  have hblock := ht.block_eq h (n := n + 1) (m := n + 2)
    (s := { s with rest := segs.flatten ++ [r] }) hs hr rfl
    (by simp only [List.length_append, List.length_cons, List.length_nil]; omega) (Nat.le_succ _)
  have hdecl : Rule.parse (n + 2) .declaration { s with rest := l :: (segs.flatten ++ [r]) } = _ :=
    declaration_block hl rfl hblock
  have hstep : recovering (Rule.parse (n + 2) .declaration)
      { s with rest := l :: (segs.flatten ++ [r]) } =
      .ok (some (.block l.position ss)) { s with rest := [], mistakes := es.reverse ++ s.mistakes } := by
    rw [recovering_apply, hdecl]
  have hrun := program_cons (List.cons_ne_nil _ _) hstep (program_nil n rfl)
  rw [hrest]
  exact hrun

theorem exists_found {es : List ParseError}
    (h : List.Forall₂ (fun seg e => e.found ∈ seg) segs es) : ∀ e ∈ es, ∃ seg ∈ segs, e.found ∈ seg := by
  induction h with
  | nil => exact fun _ he => nomatch he
  | @cons seg e segs es he _ ih =>
    refine List.forall_mem_cons.mpr ⟨⟨seg, List.mem_cons_self, he⟩, fun e he => ?_⟩
    obtain ⟨seg, hseg, he⟩ := ih e he
    exact ⟨seg, List.mem_cons_of_mem _ hseg, he⟩

/-- Mistakes at tokens of pieces come in the order of the pieces. -/
theorem pairwise_found {R : Token → Token → Prop}
    (h : List.Forall₂ (fun seg (e : ParseError) => e.found ∈ seg) segs es)
    (hR : segs.Pairwise fun seg seg' => ∀ t ∈ seg, ∀ u ∈ seg', R t u) :
    es.Pairwise fun e e' => R e.found e'.found := by
  induction h with
  | nil => exact .nil
  | @cons seg e segs es he h ih =>
    obtain ⟨hfirst, hR⟩ := List.pairwise_cons.mp hR
    refine .cons (fun e' he' => ?_) (ih hR)
    obtain ⟨seg', hseg', hfound⟩ := exists_found h e' he'
    exact hfirst seg' hseg' e.found he e'.found hfound

theorem pairwise (ht : Together segs ss es)
    (hsorted : segs.flatten.Pairwise fun t u => t.position.le u.position = true) :
    (es.map SyntaxError.parse).Pairwise fun a b => a.le b = true := by
  have hbad : List.Forall₂ (fun seg e => e.found ∈ seg) _ es := ht.bad.imp fun _ _ h => h.2
  have hsorted := (List.pairwise_flatten.mp hsorted).2
  exact List.pairwise_map.mpr (pairwise_found hbad (hsorted.sublist List.filter_sublist))

end Together

/-- What is made of segments: if all are good, their statements, which `whole` puts together, and if
some are not, the mistakes of these, in the order of the segments if the positions increase. -/
structure ReportsEach (segs : List (List Token)) (whole : List Stmt → List Stmt)
    (result : Except (List SyntaxError) Program) : Prop where
  good : (∀ seg ∈ segs, isGood seg = true) →
    ∃ ss, List.Forall₂ (fun seg s => parse seg = .ok ⟨[s]⟩) segs ss ∧ result = .ok ⟨whole ss⟩
  bad : (∃ seg ∈ segs, isGood seg = false) →
    ∃ es errors, List.Forall₂ (fun seg e => parse seg = .error [.parse e] ∧ e.found ∈ seg)
        (segs.filter fun seg => !isGood seg) es ∧
      result = .error errors ∧ errors.Perm (es.map .parse) ∧
      ((segs.flatten.Pairwise fun t u => t.position.le u.position = true) →
        errors = es.map .parse)

theorem Together.reportsEach {segs : List (List Token)} {ss : List Stmt} {es : List ParseError}
    (ht : Together segs ss es) (whole : List Stmt → List Stmt) {ts : List Token}
    (hread : Reading.ofTokens ts = ⟨whole ss, [], es⟩) : ReportsEach segs whole (parse ts) := by
  have hbad := ht.bad
  have hgood := ht.good
  constructor
  · intro hall
    have hnone : (segs.filter fun seg => !isGood seg) = [] := by simpa using hall
    have hself : segs.filter isGood = segs := List.filter_eq_self.mpr hall
    rw [hnone] at hbad
    cases hbad
    rw [hself] at hgood
    exact ⟨ss, hgood, by rw [parse, hread]; rfl⟩
  · rintro ⟨seg, hseg, hfalse⟩
    have hne : es ≠ [] := by
      rintro rfl
      have hnone := List.forall₂_nil_right_iff.mp hbad
      have hmem : seg ∈ segs.filter fun seg => !isGood seg :=
        List.mem_filter.mpr ⟨hseg, by rw [hfalse]; rfl⟩
      rw [hnone] at hmem
      cases hmem
    refine ⟨es, (es.map SyntaxError.parse).mergeSort SyntaxError.le, hbad, ?_,
      List.mergeSort_perm _ _, fun hsorted => ?_⟩
    · obtain ⟨e, es, rfl⟩ := List.exists_cons_of_ne_nil hne
      rw [parse, hread]
      rfl
    · exact List.mergeSort_of_pairwise (ht.pairwise hsorted)

/-- Every segment is one statement or has one mistake, alone and among others. So segments that are
all good give their statements, and otherwise there is exactly one mistake for each bad segment, the
one that it has alone; this holds of a text of segments, of a block of segments that is the text, and
of a block of segments wherever it stands. -/
theorem parse_segments {segs : List (List Token)} (h : ∀ seg ∈ segs, Segment seg) :
    (∀ ts, textTokens ts = segs.flatten → ReportsEach segs id (parse ts)) ∧
    (∀ ts l r, l.kind = .symbol .leftBrace → r.kind = .symbol .rightBrace →
      textTokens ts = l :: (segs.flatten ++ [r]) →
      ReportsEach segs (fun ss => [.block l.position ss]) (parse ts)) ∧
    ∃ ss es, Together segs ss es ∧ ∀ (n m : Nat) (s : ParserState) (r : Token) (rest : List Token),
      s.endToken.kind = .endOfInput → r.kind = .symbol .rightBrace →
      s.rest = segs.flatten ++ r :: rest → s.rest.length < n → n ≤ m →
      block (fun rule s => Rule.parse n rule s) m s =
        .ok ss { s with rest := rest, mistakes := es.reverse ++ s.mistakes } := by
  obtain ⟨ss, es, ht⟩ := Together.exists_of_segments h
  refine ⟨fun ts hts => ?_, fun ts l r hl hr hts => ?_, ss, es, ht, ?_⟩
  · exact ht.reportsEach (fun ss => ss) (ht.reading h hts)
  · exact ht.reportsEach (fun ss => [.block l.position ss]) (ht.reading_block h hl hr hts)
  · exact fun n m s r rest hs hr hrest hn hm => ht.block_eq h hs hr hrest hn hm

/-- The tokens of `a;`, `1 = a;` and `(a, b;`. -/
def sampleSegments : List (List Token) :=
  [[⟨.identifier, "a", ⟨1, 1⟩⟩, ⟨.symbol .semicolon, ";", ⟨1, 2⟩⟩],
    [⟨.number, "1", ⟨1, 4⟩⟩, ⟨.symbol .equal, "=", ⟨1, 6⟩⟩, ⟨.identifier, "a", ⟨1, 8⟩⟩,
      ⟨.symbol .semicolon, ";", ⟨1, 9⟩⟩],
    [⟨.symbol .leftParen, "(", ⟨1, 11⟩⟩, ⟨.identifier, "a", ⟨1, 12⟩⟩, ⟨.symbol .comma, ",", ⟨1, 13⟩⟩,
      ⟨.identifier, "b", ⟨1, 15⟩⟩, ⟨.symbol .semicolon, ";", ⟨1, 16⟩⟩]]

/-- The second and the third segment of the sample are bad, the second one at a token that is read
before the mistake is noticed. -/
theorem parse_segments_sample : (∀ seg ∈ sampleSegments, Segment seg) ∧
    sampleSegments.map isGood = [true, false, false] ∧
    ReportsEach sampleSegments id (parse sampleSegments.flatten) ∧
    ReportsEach sampleSegments (fun ss => [.block ⟨1, 1⟩ ss]) (parse
      (⟨.symbol .leftBrace, "\x7b", ⟨1, 1⟩⟩ ::
        (sampleSegments.flatten ++ [⟨.symbol .rightBrace, "\x7d", ⟨1, 17⟩⟩]))) := by
  have hsegments : ∀ seg ∈ sampleSegments, Segment seg := by decide
  obtain ⟨htext, hblock, -⟩ := parse_segments hsegments
  refine ⟨hsegments, rfl, htext _ rfl, ?_⟩
  exact hblock _ ⟨.symbol .leftBrace, _, ⟨1, 1⟩⟩ ⟨.symbol .rightBrace, _, ⟨1, 17⟩⟩ rfl rfl rfl

end Scriptlet
