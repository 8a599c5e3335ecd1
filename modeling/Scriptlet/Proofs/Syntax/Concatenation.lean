import Scriptlet.Proofs.Eval.Locations
import Scriptlet.Proofs.Layout.Sources
import Scriptlet.Proofs.Syntax.Places
import Scriptlet.Proofs.Syntax.RoundTrip
import Scriptlet.Proofs.Token.Concatenation

/-!
# Two programs, one below the other

What follows a phrase is looked at only where something follows: the derivation of a phrase
that has tokens behind it stands also with more of them (`Expression.append`,
`Statement.append`). Where nothing follows, a statement must not hang on that. One that ends
with a semicolon does not (`Statement.append_end`), unless its branch may go on with `else`.
So statements that end with a semicolon can be put in front of any others, and a text that
ends with one in front of any text without faults (`parseSource_below`).
-/

namespace Scriptlet

namespace Grammar

variable {more : List Token}

/-! ## More tokens behind a phrase -/

theorem Next.append {P : TokenKind → Prop} {ts : List Token} (h : Next P ts) (hts : ts ≠ []) :
    Next P (ts ++ more) := by
  cases ts with
  | nil => exact absurd rfl hts
  | cons t ts => exact next_cons.mpr (next_cons.mp h)

theorem Terminator.append {ts rest : List Token} (h : Terminator ts rest) (hr : rest ≠ []) :
    Terminator (ts ++ more) (rest ++ more) := by
  cases h with
  | semicolon h => exact .semicolon h
  | brace h => exact .brace h
  | finish => exact absurd rfl hr

theorem Commas.append_parameters {ts rest : List Token} {params : List String}
    (h : Commas Parameter ts params rest) :
    Commas Parameter (ts ++ more) params (rest ++ more) := by
  induction h with
  | one h =>
    cases h with
    | mk hx => exact .one (.mk hx)
  | more h hc _ ih =>
    cases h with
    | mk hx => exact .more (.mk hx) hc ih

theorem Parameters.append {ts rest : List Token} {params : List String}
    (h : Parameters ts params rest) : Parameters (ts ++ more) params (rest ++ more) := by
  cases h with
  | none hl hr => exact .none hl hr
  | some hl h hr => exact .some hl h.append_parameters hr

theorem LoopVariable.append {ts rest : List Token} {name : String} (h : LoopVariable ts name rest) :
    LoopVariable (ts ++ more) name (rest ++ more) := by
  cases h with
  | plain hx hc => exact .plain hx hc
  | declared hw hx hc => exact .declared hw hx hc

mutual

/-- More tokens may stand behind those that follow an expression. -/
theorem Expression.append : ∀ {ts rest : List Token} {e : Expr}, Expression ts e rest →
    rest ≠ [] → Expression (ts ++ more) e (rest ++ more)
  | _, _, _, .integer h hn, _ => .integer h hn
  | _, _, _, .float h hn, _ => .float h hn
  | _, _, _, .string h, _ => .string h
  | _, _, _, .trueWord h, _ => .trueWord h
  | _, _, _, .falseWord h, _ => .falseWord h
  | _, _, _, .null h, _ => .null h
  | _, _, _, .undefined h, _ => .undefined h
  | _, _, _, .identifier h, _ => .identifier h
  | _, _, _, .unary ho hx hl, hr => .unary ho (hx.append hr) hl
  | _, _, _, .binary hx ho hy hl hl', hr =>
    .binary (hx.append (List.cons_ne_nil _ _)) ho (hy.append hr) hl hl'
  | _, _, _, .logical hx ho hy hl hl', hr =>
    .logical (hx.append (List.cons_ne_nil _ _)) ho (hy.append hr) hl hl'
  | _, _, _, .assign hx ht hq hv, hr =>
    .assign (hx.append (List.cons_ne_nil _ _)) ht hq (hv.append hr)
  | _, _, _, .call hc hl h₁ h₂, _ => .call (hc.append (List.cons_ne_nil _ _)) hl h₁ h₂
  | _, _, _, .callWith hc hl h₁ ha h₂, _ =>
    .callWith (hc.append (List.cons_ne_nil _ _)) hl h₁ (exprs_append ha (List.cons_ne_nil _ _)) h₂
  | _, _, _, .member ho hl h₁ h₂, _ => .member (ho.append (List.cons_ne_nil _ _)) hl h₁ h₂
  | _, _, _, .index ho hl h₁ hk h₂, _ =>
    .index (ho.append (List.cons_ne_nil _ _)) hl h₁ (hk.append (List.cons_ne_nil _ _)) h₂
  | _, _, _, .group h₁ hx h₂, _ => .group h₁ (hx.append (List.cons_ne_nil _ _)) h₂
  | _, _, _, .array h₁ hi h₂, _ => .array h₁ (items_append hi (List.cons_ne_nil _ _)) h₂
  | _, _, _, .object h₁ he h₂, _ => .object h₁ (entries_append he (List.cons_ne_nil _ _)) h₂
  | _, _, _, .lambda hp ha hb hs hr, _ =>
    .lambda hp.append ha hb (statements_append hs (List.cons_ne_nil _ _)) hr
  | _, _, _, .lambdaReturning hp ha hv hx hstops, hr =>
    .lambdaReturning hp.append ha hv (hx.append hr) (Next.append hstops hr)

theorem exprs_append : ∀ {ts rest : List Token} {es : List Expr}, Commas Expression ts es rest →
    rest ≠ [] → Commas Expression (ts ++ more) es (rest ++ more)
  | _, _, _, .one h, hr => .one (h.append hr)
  | _, _, _, .more h hc hs, hr =>
    .more (h.append (List.cons_ne_nil _ _)) hc (exprs_append hs hr)

theorem items_append : ∀ {ts rest : List Token} {es : List Expr},
    LooseCommas Expression ts es rest → rest ≠ [] →
      LooseCommas Expression (ts ++ more) es (rest ++ more)
  | _, _, _, .none, _ => .none
  | _, _, _, .one h, hr => .one (h.append hr)
  | _, _, _, .more h hc hs, hr =>
    .more (h.append (List.cons_ne_nil _ _)) hc (items_append hs hr)

theorem entries_append : ∀ {ts rest : List Token} {es : List Entry},
    LooseCommas ObjectEntry ts es rest → rest ≠ [] →
      LooseCommas ObjectEntry (ts ++ more) es (rest ++ more)
  | _, _, _, .none, _ => .none
  | _, _, _, .one (.mk hk hc h), hr => .one (.mk hk hc (h.append hr))
  | _, _, _, .more (.mk hk hc h) hcomma hs, hr =>
    .more (.mk hk hc (h.append (List.cons_ne_nil _ _))) hcomma (entries_append hs hr)

theorem statements_append : ∀ {ts rest : List Token} {ss : List Stmt},
    Sequence Statement ts ss rest → rest ≠ [] → Sequence Statement (ts ++ more) ss (rest ++ more)
  | _, _, _, .nil, _ => .nil
  | _, _, _, .cons h hs, hr =>
    .cons (h.append ((statements_suffix hs).ne_nil hr)) (statements_append hs hr)

/-- Nothing need follow a routine, since a brace ends it. -/
theorem NamedRoutine.append : ∀ {ts rest : List Token} {r : Routine}, NamedRoutine ts r rest →
    NamedRoutine (ts ++ more) r (rest ++ more)
  | _, _, _, .mk hx hp hb hs hr =>
    .mk hx hp.append hb (statements_append hs (List.cons_ne_nil _ _)) hr

theorem methods_append : ∀ {ts rest : List Token} {ms : List Routine},
    Sequence Method ts ms rest → Sequence Method (ts ++ more) ms (rest ++ more)
  | _, _, _, .nil => .nil
  | _, _, _, .cons (.plain h) hs => .cons (.plain h.append) (methods_append hs)
  | _, _, _, .cons (.withWord hw h) hs => .cons (.withWord hw h.append) (methods_append hs)

theorem LoopStart.append : ∀ {ts rest : List Token} {init : Option Stmt}, LoopStart ts init rest →
    rest ≠ [] → LoopStart (ts ++ more) init (rest ++ more)
  | _, _, _, .none h, _ => .none h
  | _, _, _, .declaration h, hr => .declaration (h.append hr)
  | _, _, _, .expression h hq, _ => .expression (h.append (List.cons_ne_nil _ _)) hq

theorem Clause.append : ∀ {ts rest : List Token} {e : Option Expr}, Clause ts e rest → rest ≠ [] →
    Clause (ts ++ more) e (rest ++ more)
  | _, _, _, .none, _ => .none
  | _, _, _, .some h, hr => .some (h.append hr)

/-- More tokens may stand behind those that follow a statement. -/
theorem Statement.append : ∀ {ts rest : List Token} {s : Stmt}, Statement ts s rest → rest ≠ [] →
    Statement (ts ++ more) s (rest ++ more)
  | _, _, _, .expression hb he ht, hr =>
    .expression hb (he.append (ht.suffix.ne_nil hr)) (ht.append hr)
  | _, _, _, .declare hw hx ht, hr => .declare hw hx (ht.append hr)
  | _, _, _, .declareInit hw hx hq he ht, hr =>
    .declareInit hw hx hq (he.append (ht.suffix.ne_nil hr)) (ht.append hr)
  | _, _, _, .block hl hs hr', _ => .block hl (statements_append hs (List.cons_ne_nil _ _)) hr'
  | _, _, _, .conditional hw hl ht hp hy hd hn, hr =>
    .conditional hw hl (ht.append (List.cons_ne_nil _ _)) hp (hy.append hr) hd (hn.append hr)
  | _, _, _, .conditionalElse hw hl ht hp hy hd ho hn hd', hr =>
    .conditionalElse hw hl (ht.append (List.cons_ne_nil _ _)) hp (hy.append (List.cons_ne_nil _ _))
      hd ho (hn.append hr) hd'
  | _, _, _, .whileLoop hw hl ht hp hb hd, hr =>
    .whileLoop hw hl (ht.append (List.cons_ne_nil _ _)) hp (hb.append hr) hd
  | _, _, _, .forLoop hw hl hi ht hq hn hp hb hd, hr =>
    .forLoop hw hl (hi.append (ht.suffix.ne_nil (List.cons_ne_nil _ _)))
      (ht.append (List.cons_ne_nil _ _)) hq (hn.append (List.cons_ne_nil _ _)) hp (hb.append hr) hd
  | _, _, _, .foreachLoop hw hl hx hi hp hb hd, hr =>
    .foreachLoop hw hl hx.append (hi.append (List.cons_ne_nil _ _)) hp (hb.append hr) hd
  | _, _, _, .function hw h, _ => .function hw h.append
  | _, _, _, .classDef hw hx hl hm hr', _ => .classDef hw hx hl (methods_append hm) hr'
  | _, _, _, .returnNothing hw ht, hr => .returnNothing hw (ht.append hr)
  | _, _, _, .returnValue hw he ht, hr =>
    .returnValue hw (he.append (ht.suffix.ne_nil hr)) (ht.append hr)
  | _, _, _, .breakStmt hw ht, hr => .breakStmt hw (ht.append hr)
  | _, _, _, .continueStmt hw ht, hr => .continueStmt hw (ht.append hr)

end

/-! ## Phrases at the end -/

/-- The last token, if there is one, has the property `P`. -/
def Last (P : TokenKind → Prop) (ts : List Token) : Prop := ∀ t ∈ ts.getLast?, P t.kind

theorem Last.of_suffix {P : TokenKind → Prop} {ts us : List Token} (h : Last P ts)
    (hu : us <:+ ts) : Last P us := by
  obtain ⟨vs, rfl⟩ := hu
  cases us with
  | nil => exact nofun
  | cons u us =>
    rw [Last, List.getLast?_append_of_ne_nil vs (List.cons_ne_nil u us)] at h
    exact h

/-- What of `ts` stands before `rest` ends with something else than a semicolon. -/
def EndsOpen (ts rest : List Token) : Prop :=
  ∃ t, t :: rest <:+ ts ∧ t.kind ≠ .symbol .semicolon

namespace EndsOpen

variable {ts us rest : List Token}

theorem head {t : Token} {k : TokenKind} (h : t.kind = k) (hk : k ≠ .symbol .semicolon) :
    EndsOpen (t :: rest) rest := ⟨t, List.suffix_refl _, by rwa [h]⟩

theorem mono (h : EndsOpen us rest) (hu : us <:+ ts) : EndsOpen ts rest := by
  obtain ⟨t, ht, hkind⟩ := h
  exact ⟨t, ht.trans hu, hkind⟩

theorem cons {t : Token} (h : EndsOpen ts rest) : EndsOpen (t :: ts) rest :=
  h.mono (List.suffix_cons t ts)

end EndsOpen

/-- No expression ends with a semicolon. -/
theorem Expression.endsOpen : ∀ {ts rest : List Token} {e : Expr}, Expression ts e rest →
    EndsOpen ts rest
  | _, _, _, .integer h _ | _, _, _, .float h _ | _, _, _, .string h | _, _, _, .trueWord h
  | _, _, _, .falseWord h | _, _, _, .null h | _, _, _, .undefined h | _, _, _, .identifier h =>
    .head h nofun
  | _, _, _, .binary h _ h' _ _ | _, _, _, .logical h _ h' _ _ | _, _, _, .assign h _ _ h' =>
    h'.endsOpen.mono h.after.tail.suffix
  | _, _, _, .unary _ h _ => h.endsOpen.cons
  | _, _, _, .call h _ _ hr | _, _, _, .member h _ _ hr =>
    (EndsOpen.head hr nofun).mono h.after.tail.suffix
  | _, _, _, .callWith h _ _ h' hr =>
    (EndsOpen.head hr nofun).mono ((exprs_after h').suffix.trans h.after.tail.suffix)
  | _, _, _, .index h _ _ h' hr =>
    (EndsOpen.head hr nofun).mono (h'.after.suffix.trans h.after.tail.suffix)
  | _, _, _, .group _ h hr => ((EndsOpen.head hr nofun).mono h.after.suffix).cons
  | _, _, _, .array _ h hr => ((EndsOpen.head hr nofun).mono (items_suffix h)).cons
  | _, _, _, .object _ h hr => ((EndsOpen.head hr nofun).mono (entries_suffix h)).cons
  | _, _, _, .lambda h _ _ h' hr =>
    (EndsOpen.head hr nofun).mono ((statements_suffix h').trans h.after.tail.tail.suffix)
  | _, _, _, .lambdaReturning h _ _ h' _ => h'.endsOpen.mono h.after.tail.suffix

section

variable {ts us : List Token} (hlast : Last (· = .symbol .semicolon) ts)

include hlast

/-- Where a semicolon comes last, the terminator of what ends there is one. -/
theorem Terminator.append_end (h : Terminator us []) (hopen : EndsOpen ts us) :
    us ≠ [] ∧ Terminator (us ++ more) more := by
  cases h with
  | semicolon h => exact ⟨List.cons_ne_nil _ _, .semicolon h⟩
  | finish =>
    obtain ⟨t, ht, hkind⟩ := hopen
    exact absurd (hlast.of_suffix ht t rfl) hkind

end

/-- A statement that ends with a semicolon may have any tokens behind it but `else`. -/
theorem Statement.append_end (hmore : Next (· ≠ .keyword .elseWord) more) :
    ∀ {ts rest : List Token} {s : Stmt}, Statement ts s rest → rest = [] →
      Last (· = .symbol .semicolon) ts → Statement (ts ++ more) s more
  | _, _, _, .expression hb he ht, hr, hlast => by
    subst hr
    obtain ⟨hne, ht⟩ := ht.append_end hlast he.endsOpen
    exact .expression hb (he.append hne) ht
  | _, _, _, .declare hw hx ht, hr, hlast => by
    subst hr
    exact .declare hw hx (ht.append_end hlast (.cons (.head hx nofun))).2
  | _, _, _, .declareInit hw hx hq he ht, hr, hlast => by
    subst hr
    obtain ⟨hne, ht⟩ := ht.append_end hlast he.endsOpen.cons.cons.cons
    exact .declareInit hw hx hq (he.append hne) ht
  | _, _, _, .block hl hs hr', hr, _ => by
    subst hr
    exact .block hl (statements_append hs (List.cons_ne_nil _ _)) hr'
  | _, _, _, .conditional hw hl ht hp hy hd hn, hr, hlast => by
    have hlast := hlast.of_suffix (ht.after.tail.suffix.trans (suffix_cons_cons _ _ _))
    exact .conditional hw hl (ht.append (List.cons_ne_nil _ _)) hp (hy.append_end hmore hr hlast) hd
      hmore
  | _, _, _, .conditionalElse hw hl ht hp hy hd ho hn hd', hr, hlast => by
    have hlast := hlast.of_suffix (hy.after.tail.suffix.trans
      (ht.after.tail.suffix.trans (suffix_cons_cons _ _ _)))
    exact .conditionalElse hw hl (ht.append (List.cons_ne_nil _ _)) hp
      (hy.append (List.cons_ne_nil _ _)) hd ho (hn.append_end hmore hr hlast) hd'
  | _, _, _, .whileLoop hw hl ht hp hb hd, hr, hlast => by
    have hlast := hlast.of_suffix (ht.after.tail.suffix.trans (suffix_cons_cons _ _ _))
    exact .whileLoop hw hl (ht.append (List.cons_ne_nil _ _)) hp (hb.append_end hmore hr hlast) hd
  | _, _, _, .forLoop hw hl hi ht hq hn hp hb hd, hr, hlast => by
    have hlast := hlast.of_suffix (((List.suffix_cons _ _).trans hn.suffix).trans
      (((List.suffix_cons _ _).trans ht.suffix).trans (hi.suffix.trans (suffix_cons_cons _ _ _))))
    exact .forLoop hw hl (hi.append (ht.suffix.ne_nil (List.cons_ne_nil _ _)))
      (ht.append (List.cons_ne_nil _ _)) hq (hn.append (List.cons_ne_nil _ _)) hp
      (hb.append_end hmore hr hlast) hd
  | _, _, _, .foreachLoop hw hl hx hi hp hb hd, hr, hlast => by
    have hlast := hlast.of_suffix (hi.after.tail.suffix.trans
      (hx.after.suffix.trans (suffix_cons_cons _ _ _)))
    exact .foreachLoop hw hl hx.append (hi.append (List.cons_ne_nil _ _)) hp
      (hb.append_end hmore hr hlast) hd
  | _, _, _, .function hw h, hr, _ => by
    subst hr
    exact .function hw h.append
  | _, _, _, .classDef hw hx hl hm hr', hr, _ => by
    subst hr
    exact .classDef hw hx hl (methods_append hm) hr'
  | _, _, _, .returnNothing hw ht, hr, hlast => by
    subst hr
    exact .returnNothing hw (ht.append_end hlast (EndsOpen.head hw nofun)).2
  | _, _, _, .returnValue hw he ht, hr, hlast => by
    subst hr
    obtain ⟨hne, ht⟩ := ht.append_end hlast he.endsOpen.cons
    exact .returnValue hw (he.append hne) ht
  | _, _, _, .breakStmt hw ht, hr, hlast => by
    subst hr
    exact .breakStmt hw (ht.append_end hlast (EndsOpen.head hw nofun)).2
  | _, _, _, .continueStmt hw ht, hr, hlast => by
    subst hr
    exact .continueStmt hw (ht.append_end hlast (EndsOpen.head hw nofun)).2

/-- Statements that end with a semicolon may stand in front of others. -/
theorem Sequence.append_end {ts rest : List Token} {ss ss' : List Stmt}
    (h : Sequence Statement ts ss []) (hlast : Last (· = .symbol .semicolon) ts)
    (h' : Sequence Statement more ss' rest)
    (hmore : Next (· ≠ .keyword .elseWord) more) :
    Sequence Statement (ts ++ more) (ss ++ ss') rest := by
  generalize hr : ([] : List Token) = r at h
  induction h with
  | nil =>
    subst hr
    exact h'
  | @cons ts us rest' s ss h hs ih =>
    subst hr
    by_cases hus : us = []
    · subst hus
      cases hs with
      | nil => exact .cons (h.append_end hmore rfl hlast) h'
      | cons hs =>
        obtain ⟨t, us, hnil, -⟩ := hs.head
        cases hnil
    · exact .cons (h.append hus) (ih (hlast.of_suffix h.after.suffix) rfl)

/-- No statement starts with `else`. -/
theorem Sequence.next_ne_else {ts : List Token} {ss : List Stmt} (h : Sequence Statement ts ss []) :
    Next (· ≠ .keyword .elseWord) ts := by
  cases h with
  | nil => exact next_nil
  | cons h =>
    intro t ht hkind
    have hstarts := h.starts t ht
    rw [hkind] at hstarts
    rcases hstarts with hstarts | hstarts <;> cases hstarts

end Grammar

/-! ## Texts -/

open Grammar

/-- Only the end of input is not part of the text of a program. -/
theorem scan_eq_textTokens (s : String) :
    ∃ stop, scan s = textTokens (scan s) ++ [stop] ∧ stop.kind = .endOfInput := by
  obtain ⟨tokens, stop, hscan, hstop, -, htext⟩ := exists_scan_eq s
  exact ⟨stop, by rw [htext, hscan], hstop⟩

theorem textTokens_append_textTokens (ts us : List Token) :
    textTokens (textTokens ts ++ us) = textTokens ts ++ textTokens us :=
  List.takeWhile_append_of_pos (List.all_eq_true.mp List.all_takeWhile)

/-- Tokens at other positions are accepted as well, as the same program at other positions. -/
theorem parse_move {ρ : Position → Position} {ts : List Token}
    (hend : ∃ t ∈ ts, t.kind = .endOfInput) {p : Program} (h : parse ts = .ok p) :
    parse (move ρ ts) = .ok (move ρ p) := by
  unfold parse at h ⊢
  rw [Reading.result_eq_ok_iff] at h ⊢
  obtain ⟨hfaults, hmistakes, hstatements⟩ := h
  rw [Reading.ofTokens_move hend]
  exact ⟨congrArg (move ρ) hfaults, congrArg (move ρ) hmistakes, congrArg (move ρ) hstatements⟩

/-- Two texts that are read without errors, where the first ends with a semicolon: one below the
other they are read as the statements of the first and then those of the second, which stand
further down. -/
theorem parseSource_below {s s' : String} {p p' : Program} (h : parseSource s = .ok p)
    (h' : parseSource s' = .ok p') (hlast : Last (· = .symbol .semicolon) (textTokens (scan s))) :
    parseSource (s ++ "\n" ++ s') =
      .ok ⟨p.statements ++ move (Position.down (linesDown s)) p'.statements⟩ := by
  obtain ⟨hfaults, hseq⟩ := parse_eq_ok_iff.mp h
  obtain ⟨hfaults', hseq'⟩ := parse_eq_ok_iff.mp
    (parse_move (ρ := Position.down (linesDown s)) (exists_endOfInput s') h')
  have hscan := scan_below (s := s) (fun t ht => ?_) s'
  · refine parse_eq_ok_iff.mpr ?_
    rw [hscan, textTokens_append_textTokens]
    refine ⟨fun t ht => ?_, hseq.append_end hlast hseq' hseq'.next_ne_else⟩
    exact (List.mem_append.mp ht).elim (hfaults t) (hfaults' t)
  · obtain ⟨stop, hstop, hkind⟩ := scan_eq_textTokens s
    rw [hstop, List.mem_append, List.mem_singleton] at ht
    rcases ht with ht | rfl
    · exact TokenKind.isUnterminated_eq_false (hfaults t ht)
    · rw [hkind]
      rfl

/-- Behind line feeds a text is read as the same program further down. -/
theorem parseSource_lineFeeds (k : Nat) {s : String} {p : Program} (h : parseSource s = .ok p) :
    parseSource (lineFeeds k ++ s) = .ok (move (Position.down k) p) := by
  have hmoved := parse_move (ρ := Position.down k) (exists_endOfInput s) h
  rwa [← scan_lineFeeds] at hmoved

/-- A text with tokens has statements. -/
theorem statements_ne_nil {s : String} {p : Program} (h : parseSource s = .ok p)
    (hs : textTokens (scan s) ≠ []) : p.statements ≠ [] := by
  obtain ⟨-, hseq⟩ := parse_eq_ok_iff.mp h
  intro hnil
  rw [hnil] at hseq
  generalize textTokens (scan s) = ts at hseq hs
  cases hseq with
  | nil => exact hs rfl

/-! ## The routines of both -/

/-- The routines of the first program and those of the second one, which stand where `ρ` says, have
different positions. -/
structure Program.Apart (p p' : Program) (ρ : Position → Position) : Prop where
  away {r r' : Routine} : p.HasRoutine r → p'.HasRoutine r' → r.position ≠ ρ r'.position
  distinct {r r' : Routine} : p'.HasRoutine r → p'.HasRoutine r' → ρ r.position = ρ r'.position →
    r.position = r'.position

/-- A routine of a text has the position of one of its tokens. -/
theorem Program.HasRoutine.mem_scan {s : String} {p : Program} (h : parseSource s = .ok p)
    {r : Routine} (hr : p.HasRoutine r) : ∃ t ∈ scan s, r.position = t.position := by
  obtain ⟨x, hx, hr⟩ := hr
  obtain ⟨us, hus, hbegins⟩ := hx.stands (parse_eq_ok_iff.mp h).2
  obtain ⟨t, ht, hposition⟩ := hbegins.routine_positions r hr
  exact ⟨t, (List.takeWhile_sublist _).subset (hus.subset ht), hposition⟩

theorem Program.HasRoutine.line_mem {s : String} {p : Program} (h : parseSource s = .ok p)
    {r : Routine} (hr : p.HasRoutine r) : 1 ≤ r.position.line ∧ r.position.line ≤ linesDown s := by
  obtain ⟨t, ht, hposition⟩ := hr.mem_scan h
  rw [hposition]
  exact line_of_mem_scan ht

section

variable {s s' : String} {p p' : Program} (h : parseSource s = .ok p)
  (h' : parseSource s' = .ok p')
include h h'

/-- Below a text there are no routines of it. -/
theorem apart_below : p.Apart p' (Position.down (linesDown s)) where
  away {r r'} hr hr' heq := by
    have hline := (hr.line_mem h).2
    have hbelow : linesDown s < (r'.position.down (linesDown s)).line :=
      Nat.lt_add_of_pos_left (hr'.line_mem h').1
    rw [heq] at hline
    exact absurd hline (Nat.not_le.mpr hbelow)
  distinct _ _ heq := by
    obtain ⟨hline, hcolumn⟩ := Position.mk.inj heq
    exact congrArg₂ Position.mk (Nat.add_right_cancel hline) hcolumn

theorem apart_lineFeeds : p.Apart (move (Position.down (linesDown s)) p') id where
  away hr hr' heq := by
    have hline := (hr.line_mem h).2
    obtain ⟨t, ht, hposition⟩ := hr'.mem_scan (parseSource_lineFeeds (linesDown s) h')
    rw [scan_lineFeeds] at ht
    obtain ⟨u, hu, rfl⟩ := List.mem_map.mp ht
    have hbelow : linesDown s < (u.position.down (linesDown s)).line :=
      Nat.lt_add_of_pos_left (line_of_mem_scan hu).1
    rw [heq, id, hposition] at hline
    exact absurd hline (Nat.not_le.mpr hbelow)
  distinct _ _ heq := heq

end

end Scriptlet
