import Scriptlet.Proofs.Syntax.Completeness
import Scriptlet.Proofs.Syntax.Progress
import Scriptlet.Proofs.Syntax.Soundness
import Scriptlet.Proofs.Syntax.WellFormed

/-!
# The programs that are accepted

A list of tokens is accepted exactly if there is no fault before its end of input
and the tokens before it are a sequence of statements of the grammar; the program
is then that sequence (`parse_eq_ok_iff`). Only-if needs that the parser always
gets to the end (`Ends.program`): a parser that stopped early would accept what it
had not read.
-/

namespace Scriptlet

open Grammar

/-- The tokens before the first end of input, or all of them if there is none. -/
def textTokens (ts : List Token) : List Token := ts.takeWhile fun t => t.kind ≠ .endOfInput

theorem textTokens_append {ts tail : List Token} (h : ∀ t ∈ ts, t.kind ≠ .endOfInput)
    (htail : Next (· = .endOfInput) tail) : textTokens (ts ++ tail) = ts := by
  have hnil : tail.takeWhile (fun t => decide (t.kind ≠ .endOfInput)) = [] := by
    cases tail with
    | nil => rfl
    | cons t tail => exact List.takeWhile_cons_of_neg (by simpa using htail)
  rw [textTokens, List.takeWhile_append_of_pos (by simpa using h), hnil, List.append_nil]

theorem kind_endToken (ts : List Token) : (TokenStream.ofTokens ts).endToken.kind = .endOfInput := by
  unfold TokenStream.ofTokens
  dsimp only
  cases h : ts.find? fun t => t.kind = .endOfInput with
  | none => rfl
  | some t =>
    have ht := List.find?_some h
    exact of_decide_eq_true ht

/-- Without faults no token is left out. -/
theorem tokens_ofTokens {ts : List Token} (h : (TokenStream.ofTokens ts).faults = []) :
    (TokenStream.ofTokens ts).tokens = textTokens ts := by
  rw [TokenStream.ofTokens, List.filterMap_eq_nil_iff] at h
  refine List.filter_eq_self.mpr fun t ht => ?_
  rw [h t ht]
  rfl

theorem faults_ofTokens_eq_nil_iff {ts : List Token} : (TokenStream.ofTokens ts).faults = [] ↔
    ∀ t ∈ textTokens ts, ∀ f, t.kind ≠ .fault f := by
  rw [TokenStream.ofTokens, List.filterMap_eq_nil_iff]
  refine forall₂_congr fun t _ => ?_
  unfold Token.fault?
  cases t.kind <;> simp

/-- The state in which reading starts. -/
def TokenStream.start (stream : TokenStream) : ParserState := ⟨stream.tokens, stream.endToken, 0, []⟩

/-- The parser of programs, with a bound that suffices for the tokens of the stream. -/
def TokenStream.parser (stream : TokenStream) : Parser (List Stmt) :=
  Parser.program (fun rule s => Rule.parse (stream.tokens.length + 1) rule s) (stream.tokens.length + 1)

/-- Reading ends with the statements that the parser returns. -/
theorem exists_reading (ts : List Token) : ∃ statements s',
    (TokenStream.ofTokens ts).parser (TokenStream.ofTokens ts).start = .ok statements s' ∧
      Reading.ofTokens ts =
        ⟨statements, (TokenStream.ofTokens ts).faults, s'.mistakes.reverse⟩ := by
  have hends : Parser.Ends _ _ ((TokenStream.ofTokens ts).parser (TokenStream.ofTokens ts).start) :=
    Parser.Ends.program (Parser.rulesProgress_parse _) (Nat.le_refl _) _ (kind_endToken ts)
      (Nat.lt_succ_self _) rfl
  cases h : (TokenStream.ofTokens ts).parser (TokenStream.ofTokens ts).start with
  | ok statements s' =>
    refine ⟨statements, s', rfl, ?_⟩
    unfold Reading.ofTokens
    dsimp only
    split <;> rename_i hread
    · cases h.symm.trans hread
      rfl
    · cases h.symm.trans hread
  | error e s' =>
    rw [h] at hends
    cases e <;> exact hends.elim

theorem Reading.result_eq_ok_iff {r : Reading} {p : Program} :
    r.result = .ok p ↔ r.faults = [] ∧ r.mistakes = [] ∧ r.statements = p.statements := by
  obtain ⟨statements, faults, mistakes⟩ := r
  obtain ⟨statements'⟩ := p
  cases faults <;> cases mistakes <;> simp [Reading.result]

/-- A list of tokens is accepted exactly if it is free of faults and a sequence of statements, and
the program is made of these. -/
theorem parse_eq_ok_iff {ts : List Token} {p : Program} : parse ts = .ok p ↔
    (∀ t ∈ textTokens ts, ∀ f, t.kind ≠ .fault f) ∧
      Sequence Statement (textTokens ts) p.statements [] := by
  obtain ⟨statements, s', hrun, hread⟩ := exists_reading ts
  unfold parse
  rw [Reading.result_eq_ok_iff, hread, List.reverse_eq_nil_iff, ← faults_ofTokens_eq_nil_iff]
  refine and_congr_right fun hfaults => ?_
  rw [← tokens_ofTokens hfaults]
  constructor
  · rintro ⟨hm, rfl⟩
    have hsound : Parser.Yields (TokenStream.ofTokens ts).parser _ :=
      Parser.Yields.program (Parser.rulesSound_parse _) _
    have hsound := hsound (TokenStream.ofTokens ts).start (kind_endToken ts)
    rw [hrun] at hsound
    obtain ⟨hseq, hend⟩ := hsound.2 hm
    rw [hend] at hseq
    exact hseq
  · intro hseq
    have hcomplete : Parser.Reads (TokenStream.ofTokens ts).parser _ _ _ :=
      Parser.Reads.program (Parser.rulesComplete_parse _) hseq (Nat.lt_succ_self _) (Nat.lt_succ_self _)
    have hcomplete := hcomplete (TokenStream.ofTokens ts).start (kind_endToken ts) rfl
    rw [hrun] at hcomplete
    cases hcomplete
    exact ⟨rfl, rfl⟩

/-- An accepted list of tokens is free of faults, and its tokens are cut into the statements of the
program: they derive the statements in the grammar, which are well-formed and stand where their first
tokens stand. -/
theorem parse_derivation {ts : List Token} {p : Program} (h : parse ts = .ok p) :
    (∀ t ∈ textTokens ts, ∀ f, t.kind ≠ .fault f) ∧
      Sequence Statement (textTokens ts) p.statements [] ∧ p.wellFormed = true ∧
      ∃ pieces : List (List Token), textTokens ts = pieces.flatten ∧
        List.Forall₂ (fun piece s => ∃ t us, piece = t :: us ∧ s.position = t.position)
          pieces p.statements := by
  obtain ⟨hfaults, hseq⟩ := parse_eq_ok_iff.mp h
  obtain ⟨pieces, hpieces, hstarts⟩ := hseq.pieces
  rw [List.append_nil] at hpieces
  exact ⟨hfaults, hseq, statements_wellFormed hseq, pieces, hpieces, hstarts⟩

/-- The tokens of `b = 2 ^ c;`. -/
def sampleTokens : List Token :=
  [⟨.identifier, "b", ⟨1, 1⟩⟩, ⟨.symbol .equal, "=", ⟨1, 3⟩⟩, ⟨.number, "2", ⟨1, 5⟩⟩,
    ⟨.symbol .caret, "^", ⟨1, 7⟩⟩, ⟨.identifier, "c", ⟨1, 9⟩⟩, ⟨.symbol .semicolon, ";", ⟨1, 10⟩⟩]

/-- The program that these tokens are. -/
def sampleProgram : Program :=
  ⟨[.expression ⟨1, 1⟩ (.assign ⟨1, 1⟩ (.name "b")
    (.binary ⟨1, 5⟩ .power (.integer ⟨1, 5⟩ 2) (.identifier ⟨1, 9⟩ "c")))]⟩

/-- The tokens of the sample derive it. -/
theorem parse_derivation_sample : parse sampleTokens = .ok sampleProgram ∧
    Sequence Statement sampleTokens sampleProgram.statements [] := by
  have h : parse sampleTokens = .ok sampleProgram := rfl
  exact ⟨h, (parse_derivation h).2.1⟩

end Scriptlet
