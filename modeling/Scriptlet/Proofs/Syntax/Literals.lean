import Scriptlet.Proofs.Number.Literals
import Scriptlet.Proofs.Syntax.Mistakes

/-!
# The number literals of a program

`Program.literals` lists the number literals of a program from left to right, those in the
bodies of routines included. They are the number tokens of the text, one for each and in
the same order: no rule of the grammar drops a number, makes one up or moves one past
another. `Shows` says this of a phrase, and there is one rule for each kind of token and
one for each way to put phrases together (`Expression.shows`, `Statement.shows`).
-/

namespace Scriptlet

mutual

/-- The number literals of an expression, from left to right. -/
def Expr.literals : Expr → List Expr
  | .integer p n => [.integer p n]
  | .float p x => [.float p x]
  | .string .. | .boolean .. | .null _ | .undefined _ | .identifier .. => []
  | .unary _ _ x => x.literals
  | .binary _ _ l r | .logical _ _ l r => l.literals ++ r.literals
  | .assign _ target value => target.literals ++ value.literals
  | .call _ callee args => callee.literals ++ exprsLiterals args
  | .group _ inner => inner.literals
  | .array _ items => exprsLiterals items
  | .object _ entries => entriesLiterals entries
  | .member _ owner _ => owner.literals
  | .index _ owner key => owner.literals ++ key.literals
  | .lambda _ r => r.literals

/-- The number literals of the left side of an assignment. -/
def Target.literals : Target → List Expr
  | .name _ => []
  | .member owner _ => owner.literals
  | .index owner key => owner.literals ++ key.literals

/-- The number literals of expressions. -/
def exprsLiterals : List Expr → List Expr
  | [] => []
  | e :: es => e.literals ++ exprsLiterals es

/-- The number literals of the entry of an object literal. -/
def Entry.literals : Entry → List Expr
  | ⟨_, value⟩ => value.literals

/-- The number literals of entries. -/
def entriesLiterals : List Entry → List Expr
  | [] => []
  | e :: es => e.literals ++ entriesLiterals es

/-- The number literals of the body of a routine. -/
def Routine.literals : Routine → List Expr
  | ⟨_, _, body, _⟩ => stmtsLiterals body

/-- The number literals of methods. -/
def routinesLiterals : List Routine → List Expr
  | [] => []
  | r :: rs => r.literals ++ routinesLiterals rs

/-- The number literals of an expression that may be left out. -/
def clauseLiterals : Option Expr → List Expr
  | none => []
  | some e => e.literals

/-- The number literals of a statement that may be left out. -/
def branchLiterals : Option Stmt → List Expr
  | none => []
  | some s => s.literals

/-- The number literals of a statement, from left to right. -/
def Stmt.literals : Stmt → List Expr
  | .expression _ e => e.literals
  | .declare _ _ _ init => clauseLiterals init
  | .block _ body => stmtsLiterals body
  | .conditional _ test yes no => test.literals ++ (yes.literals ++ branchLiterals no)
  | .whileLoop _ test body => test.literals ++ body.literals
  | .forLoop _ init test step body =>
    branchLiterals init ++ (clauseLiterals test ++ (clauseLiterals step ++ body.literals))
  | .foreachLoop _ _ items body => items.literals ++ body.literals
  | .function _ r => r.literals
  | .classDef _ _ methods => routinesLiterals methods
  | .returnStmt _ value => clauseLiterals value
  | .breakStmt _ | .continueStmt _ => []

/-- The number literals of statements. -/
def stmtsLiterals : List Stmt → List Expr
  | [] => []
  | s :: ss => s.literals ++ stmtsLiterals ss

end

/-- The number literals of a program, from left to right. -/
def Program.literals (p : Program) : List Expr := stmtsLiterals p.statements

/-- The number tokens among the tokens. -/
def numberTokens (ts : List Token) : List Token := ts.filter fun t => t.kind = .number

namespace Grammar

/-- The tokens from `ts` up to `rest` are read, and the literals are those of the number tokens among
them. -/
def Shows (ts : List Token) (literals : List Expr) (rest : List Token) : Prop :=
  ∃ read, ts = read ++ rest ∧
    List.Forall₂ (fun t e => numberLiteral? t = some e) (numberTokens read) literals

namespace Shows

variable {t : Token} {ts us rest : List Token} {es fs : List Expr}

theorem refl (ts : List Token) : Shows ts [] ts := ⟨[], rfl, .nil⟩

theorem append (h : Shows ts es us) (h' : Shows us fs rest) : Shows ts (es ++ fs) rest := by
  obtain ⟨read, rfl, hread⟩ := h
  obtain ⟨read', rfl, hread'⟩ := h'
  refine ⟨read ++ read', (List.append_assoc ..).symm, ?_⟩
  rw [numberTokens, List.filter_append]
  exact List.rel_append hread hread'

/-- A token that is no number. -/
theorem skip (ht : t.kind ≠ .number) (h : Shows ts es rest) : Shows (t :: ts) es rest := by
  obtain ⟨read, rfl, hread⟩ := h
  refine ⟨t :: read, rfl, ?_⟩
  rwa [numberTokens, List.filter_cons_of_neg (by simpa using ht)]

theorem symbol {k : Symbol} (ht : t.kind = .symbol k) (h : Shows ts es rest) :
    Shows (t :: ts) es rest := h.skip (by simp [ht])

theorem keyword {k : Keyword} (ht : t.kind = .keyword k) (h : Shows ts es rest) :
    Shows (t :: ts) es rest := h.skip (by simp [ht])

theorem name (ht : t.kind = .identifier) (h : Shows ts es rest) : Shows (t :: ts) es rest :=
  h.skip (by simp [ht])

theorem number {e : Expr} (ht : t.kind = .number) (he : numberLiteral? t = some e) :
    Shows (t :: ts) [e] ts := by
  refine ⟨[t], rfl, ?_⟩
  rw [numberTokens, List.filter_cons_of_pos (by simpa using ht)]
  exact .cons he .nil

theorem operator {op : Infix} (ht : Infix.ofKind? t.kind = some op) (h : Shows ts es rest) :
    Shows (t :: ts) es rest := by
  refine h.skip fun hk => ?_
  rw [hk] at ht
  cases ht

/-- What follows has no literals. -/
theorem ended (h : Shows ts es us) (h' : Shows us [] rest) : Shows ts es rest := by
  have := h.append h'
  rwa [List.append_nil] at this

theorem behind {k : Symbol} (h : Shows ts es (t :: rest)) (ht : t.kind = .symbol k) :
    Shows ts es rest := h.ended ((refl rest).symbol ht)

end Shows

theorem Terminator.shows {ts rest : List Token} (h : Terminator ts rest) : Shows ts [] rest := by
  cases h with
  | semicolon ht => exact (Shows.refl rest).symbol ht
  | brace | finish => exact .refl _

theorem shows_of_commas {ts rest : List Token} {params : List String}
    (h : Commas Parameter ts params rest) : Shows ts [] rest := by
  induction h with
  | one h =>
    obtain ⟨hx⟩ := h
    exact (Shows.refl _).name hx
  | more h hc _ ih =>
    obtain ⟨hx⟩ := h
    exact (ih.symbol hc).name hx

theorem Parameters.shows {ts rest : List Token} {params : List String}
    (h : Parameters ts params rest) : Shows ts [] rest := by
  cases h with
  | none hl hr => exact ((Shows.refl rest).symbol hr).symbol hl
  | some hl h hr => exact ((shows_of_commas h).behind hr).symbol hl

theorem LoopVariable.shows {ts rest : List Token} {name : String}
    (h : LoopVariable ts name rest) : Shows ts [] rest := by
  have hseparator {c : Token} (hc : Separates c) : Shows (c :: rest) [] rest :=
    (Shows.refl rest).skip (by rcases hc with hc | hc <;> simp [hc])
  cases h with
  | plain hx hc => exact (hseparator hc).name hx
  | declared hw hx hc => exact ((hseparator hc).name hx).keyword hw

theorem target_literals {left : Expr} {target : Target} (h : left.target? = some target) :
    left.literals = target.literals := by
  cases left <;> cases h <;> simp [Expr.literals, Target.literals]

mutual

theorem Expression.shows : ∀ {ts rest : List Token} {e : Expr}, Expression ts e rest →
    Shows ts e.literals rest
  | _, _, _, .integer h he | _, _, _, .float h he => .number h he
  | _, _, _, .string h => (Shows.refl _).skip (by simp [h])
  | _, _, _, .trueWord h | _, _, _, .falseWord h | _, _, _, .null h | _, _, _, .undefined h =>
    (Shows.refl _).keyword h
  | _, _, _, .identifier h => (Shows.refl _).name h
  | _, _, _, .unary h hx _ => hx.shows.skip fun hk => by rw [hk] at h; cases h
  | _, _, _, .binary hl ho hr _ _ | _, _, _, .logical hl ho hr _ _ =>
    hl.shows.append (hr.shows.operator ho)
  | _, _, _, .assign hl ht hq hv => by
    have := hl.shows.append (hv.shows.symbol hq)
    rwa [target_literals ht] at this
  | _, _, _, .call hc _ hl hr => hc.shows.append (((Shows.refl _).symbol hr).symbol hl)
  | _, _, _, .callWith hc _ hl ha hr =>
    hc.shows.append (((exprs_shows ha).behind hr).symbol hl)
  | _, _, _, .member ho _ hd hx => ho.shows.ended (((Shows.refl _).name hx).symbol hd)
  | _, _, _, .index ho _ hl hk hr => ho.shows.append ((hk.shows.behind hr).symbol hl)
  | _, _, _, .group hl hx hr => (hx.shows.behind hr).symbol hl
  | _, _, _, .array hl hi hr => ((items_show hi).behind hr).symbol hl
  | _, _, _, .object hl he hr => ((entries_show he).behind hr).symbol hl
  | _, _, _, .lambda hp ha hb hs hr =>
    hp.shows.append ((((statements_show hs).behind hr).symbol hb).symbol ha)
  | _, _, _, .lambdaReturning hp ha _ hv _ =>
    hp.shows.append ((hv.shows.append (.refl _)).symbol ha)

theorem exprs_shows : ∀ {ts rest : List Token} {es : List Expr}, Commas Expression ts es rest →
    Shows ts (exprsLiterals es) rest
  | _, _, _, .one h => h.shows.append (.refl _)
  | _, _, _, .more h hc hs => h.shows.append ((exprs_shows hs).symbol hc)

theorem items_show : ∀ {ts rest : List Token} {es : List Expr},
    LooseCommas Expression ts es rest → Shows ts (exprsLiterals es) rest
  | _, _, _, .none => .refl _
  | _, _, _, .one h => h.shows.append (.refl _)
  | _, _, _, .more h hc hs => h.shows.append ((items_show hs).symbol hc)

theorem ObjectEntry.shows : ∀ {ts rest : List Token} {e : Entry}, ObjectEntry ts e rest →
    Shows ts e.literals rest
  | _, _, _, .mk hk hc h => (h.shows.symbol hc).skip (by rcases hk with hk | hk <;> simp [hk])

theorem entries_show : ∀ {ts rest : List Token} {es : List Entry},
    LooseCommas ObjectEntry ts es rest → Shows ts (entriesLiterals es) rest
  | _, _, _, .none => .refl _
  | _, _, _, .one h => h.shows.append (.refl _)
  | _, _, _, .more h hc hs => h.shows.append ((entries_show hs).symbol hc)

theorem NamedRoutine.shows : ∀ {ts rest : List Token} {r : Routine}, NamedRoutine ts r rest →
    Shows ts r.literals rest
  | _, _, _, .mk hx hp hb hs hr =>
    (hp.shows.append (((statements_show hs).behind hr).symbol hb)).name hx

theorem Method.shows : ∀ {ts rest : List Token} {r : Routine}, Method ts r rest →
    Shows ts r.literals rest
  | _, _, _, .plain h => h.shows
  | _, _, _, .withWord hw h => h.shows.keyword hw

theorem methods_show : ∀ {ts rest : List Token} {rs : List Routine}, Sequence Method ts rs rest →
    Shows ts (routinesLiterals rs) rest
  | _, _, _, .nil => .refl _
  | _, _, _, .cons h hs => h.shows.append (methods_show hs)

theorem LoopStart.shows : ∀ {ts rest : List Token} {init : Option Stmt}, LoopStart ts init rest →
    Shows ts (branchLiterals init) rest
  | _, _, _, .none h => (Shows.refl _).symbol h
  | _, _, _, .declaration h => h.shows
  | _, _, _, .expression h hq => h.shows.behind hq

theorem Clause.shows : ∀ {ts rest : List Token} {e : Option Expr}, Clause ts e rest →
    Shows ts (clauseLiterals e) rest
  | _, _, _, .none => .refl _
  | _, _, _, .some h => h.shows

theorem Statement.shows : ∀ {ts rest : List Token} {s : Stmt}, Statement ts s rest →
    Shows ts s.literals rest
  | _, _, _, .expression _ h ht => h.shows.ended ht.shows
  | _, _, _, .declare hw hx ht => (ht.shows.name hx).keyword hw
  | _, _, _, .declareInit hw hx hq he ht =>
    (((he.shows.ended ht.shows).symbol hq).name hx).keyword hw
  | _, _, _, .block hl hs hr => ((statements_show hs).behind hr).symbol hl
  | _, _, _, .conditional hw hl ht hr hy _ _ =>
    (((ht.shows.behind hr).append (hy.shows.append (.refl _))).symbol hl).keyword hw
  | _, _, _, .conditionalElse hw hl ht hr hy _ ho hn _ =>
    (((ht.shows.behind hr).append (hy.shows.append (hn.shows.keyword ho))).symbol hl).keyword hw
  | _, _, _, .whileLoop hw hl ht hr hb _ =>
    (((ht.shows.behind hr).append hb.shows).symbol hl).keyword hw
  | _, _, _, .forLoop hw hl hi ht hq hs hr hb _ =>
    ((hi.shows.append ((ht.shows.behind hq).append ((hs.shows.behind hr).append
      hb.shows))).symbol hl).keyword hw
  | _, _, _, .foreachLoop hw hl hx hi hr hb _ =>
    ((hx.shows.append ((hi.shows.behind hr).append hb.shows)).symbol hl).keyword hw
  | _, _, _, .function hw h => h.shows.keyword hw
  | _, _, _, .classDef hw hx hl hm hr =>
    ((((methods_show hm).behind hr).symbol hl).name hx).keyword hw
  | _, _, _, .returnNothing hw ht | _, _, _, .breakStmt hw ht | _, _, _, .continueStmt hw ht =>
    ht.shows.keyword hw
  | _, _, _, .returnValue hw hv ht => (hv.shows.ended ht.shows).keyword hw

theorem statements_show : ∀ {ts rest : List Token} {ss : List Stmt},
    Sequence Statement ts ss rest → Shows ts (stmtsLiterals ss) rest
  | _, _, _, .nil => .refl _
  | _, _, _, .cons h hs => h.shows.append (statements_show hs)

end

end Grammar

open Grammar

/-! ## The literals of a text -/

theorem numberTokens_textTokens (source : String) :
    numberTokens (textTokens (scan source)) = numberTokens (scan source) := by
  obtain ⟨ts, stop, hscan, hts, hstop⟩ := scan_eq_append source
  rw [hscan, textTokens_append hts (next_cons.mpr hstop)]
  simp [numberTokens, hstop]

theorem exists_denotes_of_mem {source : String} {t : Token} (ht : t ∈ numberTokens (scan source)) :
    ∃ e, numberLiteral? t = some e ∧ t.Denotes e := by
  obtain ⟨hmem, hk⟩ := List.mem_filter.mp ht
  exact exists_denotes (admits_of_number hmem (of_decide_eq_true hk))

/-- No number of a text is reported as one that cannot be read. -/
theorem not_mem_errors {source : String} (t : Token) :
    .parse ⟨.validNumber, t⟩ ∉ (Reading.ofTokens (scan source)).errors := by
  intro hmem
  rw [Reading.errors, List.mem_mergeSort, List.mem_append] at hmem
  rcases hmem with hfault | hmistake
  · rw [Reading.faults_ofTokens] at hfault
    obtain ⟨u, -, hu⟩ := List.mem_filterMap.mp hfault
    exact Bool.false_ne_true (Token.position_of_fault hu).2.symm
  · obtain ⟨e, he, heq⟩ := List.mem_map.mp hmistake
    cases heq
    have hfits := Reading.fits (exists_endOfInput source) _ he
    obtain ⟨hk, hnone⟩ := hfits.number rfl
    obtain ⟨e, hsome, -⟩ := exists_denotes_of_mem
      (List.mem_filter.mpr ⟨hfits.found, decide_eq_true hk⟩)
    cases hnone.symm.trans hsome

/-- For every text: no error is that a number cannot be read; each number token stands for one
literal, a whole number exactly if it has no point and a decimal value of at most `2 ^ 63 - 1`; and if
the text is a program, then the number literals of the program are what the number tokens of the text
stand for, one for each and in the same order. -/
theorem number_literals (source : String) :
    (∀ errors, parseSource source = .error errors →
      ∀ t, SyntaxError.parse ⟨.validNumber, t⟩ ∉ errors) ∧
    (∀ t ∈ scan source, t.kind = .number → ∃! e, t.Denotes e) ∧
    ∀ p, parseSource source = .ok p →
      List.Forall₂ Token.Denotes (numberTokens (scan source)) p.literals := by
  refine ⟨fun errors h t => ?_, fun t ht hk => ?_, fun p h => ?_⟩
  · unfold parseSource parse Reading.result at h
    split at h <;> cases h
    exact not_mem_errors t
  · obtain ⟨e, -, he⟩ := exists_denotes_of_mem (List.mem_filter.mpr ⟨ht, decide_eq_true hk⟩)
    exact ⟨e, he, fun e' he' => he'.unique he⟩
  · obtain ⟨-, hseq⟩ := parse_eq_ok_iff.mp h
    obtain ⟨read, hread, hnumbers⟩ := statements_show hseq
    rw [List.append_nil] at hread
    rw [← hread, numberTokens_textTokens] at hnumbers
    refine List.forall₂_iff_get.mpr ⟨hnumbers.length_eq, fun i hi hi' => ?_⟩
    obtain ⟨e, hsome, he⟩ := exists_denotes_of_mem (List.get_mem _ ⟨i, hi⟩)
    have hliteral := (List.forall₂_iff_get.mp hnumbers).2 i hi hi'
    rwa [← Option.some.inj (hliteral.symm.trans hsome)] at he

/-- Leading zeros do not matter, and the least number that does not fit in 64 bits is no whole
number. -/
theorem number_literals_sample :
    (∃ p, parseSource "007;" = .ok p ∧ p.literals = [.integer ⟨1, 1⟩ 7] ∧
      List.Forall₂ Token.Denotes (numberTokens (scan "007;")) p.literals) ∧
    ∃! e, Token.Denotes ⟨.number, "9223372036854775808", ⟨1, 1⟩⟩ e := by
  have hparse : parseSource "007;" =
      .ok ⟨[.expression ⟨1, 1⟩ (.integer ⟨1, 1⟩ 7)]⟩ := rfl
  have hscan : scan "9223372036854775808" = [⟨.number, "9223372036854775808", ⟨1, 1⟩⟩,
      ⟨.endOfInput, "", ⟨1, 20⟩⟩] := rfl
  refine ⟨⟨_, hparse, rfl, (number_literals "007;").2.2 _ hparse⟩, ?_⟩
  exact (number_literals "9223372036854775808").2.1 _ (hscan ▸ List.mem_cons_self) rfl

end Scriptlet
