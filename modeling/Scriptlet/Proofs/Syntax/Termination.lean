import Mathlib.Data.List.TakeWhile
import Scriptlet.Proofs.Syntax.Programs

/-!
# The parser ends, and stays within the tokens

The parser holds its place as the list of tokens still to be read. Counted from the
front, that place is the cursor (`TokenStream.cursor`), and the token it looks at is
the one at the cursor in the list of all tokens with the end of input behind them
(`TokenStream.Within.getElem?_cursor`). `parse_bounded` says that the parser never
leaves this list, whatever the tokens are; that each round of the loops that recover
from a mistake moves the cursor; that blocks are counted properly; and that it gets to
the end, with at most one mistake for each token.

All of it comes from what one step does (`Onward` and `Past`), with `RulesProgress`
for the rules that refer to each other.
-/

namespace Scriptlet

open Scriptlet.Parser

namespace TokenStream

/-- The tokens with the end of input behind them. -/
def all (stream : TokenStream) : List Token := stream.tokens ++ [stream.endToken]

/-- How many tokens the parser has read. -/
def cursor (stream : TokenStream) (s : ParserState) : Nat :=
  stream.tokens.length - s.rest.length

/-- The parser reads the tokens of the stream. -/
structure Within (stream : TokenStream) (s : ParserState) : Prop where
  endToken : s.endToken = stream.endToken
  rest : s.rest <:+ stream.tokens

variable {stream : TokenStream} {s s' : ParserState}

theorem within_start (stream : TokenStream) : stream.Within stream.start :=
  ⟨rfl, List.suffix_refl _⟩

/-- The parser looks at the token at its cursor, which is in range. -/
theorem Within.getElem?_cursor (h : stream.Within s) :
    stream.all[stream.cursor s]? = some s.next := by
  obtain ⟨read, hread⟩ := h.rest
  have hcursor : stream.cursor s = read.length := by
    rw [cursor, ← hread, List.length_append]
    omega
  rw [hcursor, all, ← hread, ← h.endToken, List.append_assoc,
    List.getElem?_append_right (Nat.le_refl _), Nat.sub_self]
  cases hrest : s.rest <;> simp [ParserState.next, hrest]

theorem Within.onward (h : stream.Within s) (ho : Onward s s') : stream.Within s' :=
  ⟨ho.endToken.trans h.endToken, ho.rest.trans h.rest⟩

theorem Within.kind (h : stream.Within s) (hk : stream.endToken.kind = .endOfInput) :
    s.endToken.kind = .endOfInput := by
  rw [h.endToken, hk]

theorem cursor_le_of_onward (ho : Onward s s') : stream.cursor s ≤ stream.cursor s' := by
  have := ho.rest.length_le
  unfold cursor
  omega

theorem Within.cursor_lt (h : stream.Within s) (hlt : s'.rest.length < s.rest.length) :
    stream.cursor s < stream.cursor s' := by
  have := h.rest.length_le
  unfold cursor
  omega

end TokenStream

/-- Where a step may lead from `s`: it goes on within the tokens of the stream, and leaves all blocks
that it enters. -/
structure TokenStream.Leads (stream : TokenStream) (s s' : ParserState) : Prop where
  within : stream.Within s'
  cursor : stream.cursor s ≤ stream.cursor s'
  blockDepth : s'.blockDepth = s.blockDepth

theorem TokenStream.Within.leads {stream : TokenStream} {s s' : ParserState} (h : stream.Within s)
    (ho : Onward s s') : stream.Leads s s' :=
  ⟨h.onward ho, cursor_le_of_onward ho, ho.blockDepth⟩

/-- On every state with fewer than `n` tokens left, the step ends within the tokens, with a result or
with a mistake, and its bound is not used up. -/
def TokenStream.Bounds {α : Type} (stream : TokenStream) (n : Nat) (p : Parser α) : Prop :=
  ∀ s, stream.Within s → s.rest.length < n → Ends (stream.Leads s) (stream.Leads s) (p s)

theorem Parser.Safe.bounds {α : Type} {n : Nat} {p : Parser α} (h : Safe n p) {stream : TokenStream}
    (hk : stream.endToken.kind = .endOfInput) : stream.Bounds n p := fun s hs hn =>
  Ends.mono (h s (hs.kind hk) hn) (fun _ => hs.leads) fun _ => hs.leads

/-- The loop over the statements of a program ends only at the end of input. -/
theorem rest_of_program {rules : Rules} {m : Nat} {s s' : ParserState} {statements : List Stmt}
    (h : Parser.program rules m s = .ok statements s') : s'.rest = [] := by
  induction m generalizing s statements with
  | zero => cases h
  | succ m ih =>
    unfold Parser.program at h
    rw [bind_apply] at h
    change (if s.rest.isEmpty = true then _ else _ : Parser (List Stmt)) s = _ at h
    split at h
    · rename_i hempty
      cases h
      exact List.isEmpty_iff.mp hempty
    · rw [bind_apply] at h
      cases hfirst : recovering (rules .declaration) s with
      | error e s₁ =>
        rw [hfirst] at h
        cases h
      | ok first s₁ =>
        rw [hfirst] at h
        dsimp only at h
        rw [bind_apply] at h
        cases hrest : Parser.program rules m s₁ with
        | error e s₂ =>
          rw [hrest] at h
          cases h
        | ok rest s₂ =>
          rw [hrest] at h
          cases h
          exact ih hrest

/-! ## How many mistakes there are -/

/-- Whether the grammar has a say about the token: it is neither the end of input nor a fault. -/
def Token.isPlain (t : Token) : Bool := t.kind ≠ .endOfInput && t.fault?.isNone

/-- Whether it is a mistake of the grammar, and no fault of the text. -/
def SyntaxError.isMistake : SyntaxError → Bool
  | lexical .. => false
  | parse _ => true

theorem length_tokens_le (ts : List Token) :
    (TokenStream.ofTokens ts).tokens.length ≤ ts.countP Token.isPlain := by
  have hplain : ∀ t ∈ textTokens ts, t.fault?.isNone = true ↔ t.isPlain = true := by
    intro t ht
    have hkind := List.mem_takeWhile_imp ht
    rw [Token.isPlain, hkind, Bool.true_and]
  calc (TokenStream.ofTokens ts).tokens.length
      = (textTokens ts).countP fun t => t.fault?.isNone := List.countP_eq_length_filter.symm
    _ = (textTokens ts).countP Token.isPlain := List.countP_congr hplain
    _ ≤ ts.countP Token.isPlain := (List.takeWhile_sublist _).countP_le

theorem countP_faults (ts : List Token) :
    (TokenStream.ofTokens ts).faults.countP SyntaxError.isMistake = 0 := by
  rw [List.countP_eq_zero]
  intro e he
  obtain ⟨t, -, ht⟩ := List.mem_filterMap.mp he
  unfold Token.fault? at ht
  cases hk : t.kind with
  | fault f =>
    rw [hk] at ht
    cases ht
    exact Bool.false_ne_true
  | _ =>
    rw [hk] at ht
    cases ht

/-- Sorting the errors neither adds nor drops a mistake. -/
theorem Reading.countP_errors (r : Reading) : r.errors.countP SyntaxError.isMistake =
    r.faults.countP SyntaxError.isMistake + r.mistakes.length := by
  have hmistakes : (r.mistakes.map SyntaxError.parse).countP SyntaxError.isMistake =
      r.mistakes.length := by
    rw [List.countP_map]
    exact List.countP_eq_length.mpr fun _ _ => rfl
  rw [Reading.errors, (List.mergeSort_perm _ _).countP_eq, List.countP_append, hmistakes]

/-- The parser ends on every list of tokens and stays within it.

Reading ends, at the end of input and outside of all blocks. On the way every rule, and every block,
goes on within the tokens, where the token that the parser looks at is the one at its cursor, and
leaves the blocks that it enters; the end of input is not passed. Each round of a loop that recovers
moves the cursor, whether the declaration that it reads fails or not. There are no more mistakes than
tokens that are neither faults nor the end of input. -/
theorem parse_bounded (ts : List Token) :
    let stream := TokenStream.ofTokens ts
    let rules (n : Nat) : Rules := fun rule s => Rule.parse n rule s
    (∃ statements s', stream.parser stream.start = .ok statements s' ∧
      Reading.ofTokens ts = ⟨statements, stream.faults, s'.mistakes.reverse⟩ ∧
      stream.Within s' ∧ s'.rest = [] ∧ s'.blockDepth = 0) ∧
    (∀ n, (∀ {α : Type} (rule : Rule α), stream.Bounds n (rules n rule)) ∧
      ∀ m, n ≤ m → stream.Bounds n (Parser.block (rules n) m)) ∧
    (∀ s, stream.Within s →
      stream.all[stream.cursor s]? = some s.next ∧ stream.cursor s ≤ stream.tokens.length ∧
      ∃ s', advance s = .ok s.next s' ∧ stream.Leads s s' ∧
        (stream.cursor s = stream.tokens.length → s' = s)) ∧
    (∀ n s, stream.Within s → s.rest.length < n → s.rest ≠ [] →
      (0 < s.blockDepth → s.next.kind ≠ .symbol .rightBrace) →
      ∃ read s', recovering (rules n .declaration) s = .ok read s' ∧ stream.Leads s s' ∧
        stream.cursor s < stream.cursor s') ∧
    ∀ errors, parse ts = .error errors →
      errors.countP SyntaxError.isMistake ≤ ts.countP Token.isPlain := by
  intro stream rules
  have hk : stream.endToken.kind = .endOfInput := kind_endToken ts
  obtain ⟨statements, s', hrun, hreading⟩ := exists_reading ts
  have honward : Onward stream.start s' := by
    have hends : Ends _ _ (stream.parser stream.start) :=
      Ends.program (rulesProgress_parse _) (Nat.le_refl _) _ hk (Nat.lt_succ_self _) rfl
    rw [hrun] at hends
    exact hends
  have hrest : s'.rest = [] := rest_of_program hrun
  refine ⟨⟨statements, s', hrun, hreading, (stream.within_start).onward honward, hrest,
    honward.blockDepth⟩, fun n => ⟨fun rule => ?_, fun m hm => ?_⟩, fun s hs => ?_,
    fun n s hs hn hne hb => ?_, fun errors herrors => ?_⟩
  · exact ((rulesProgress_parse n).item rule).safe.bounds hk
  · exact (Safe.block (rulesProgress_parse n) hm).bounds hk
  · refine ⟨hs.getElem?_cursor, Nat.sub_le _ _, { s with rest := s.rest.tail }, rfl, ?_, ?_⟩
    · exact hs.leads (Safe.advance s (hs.kind hk) (Nat.lt_succ_self _))
    · intro hend
      have hle := hs.rest.length_le
      have hnil : s.rest = [] := List.eq_nil_of_length_eq_zero (by
        unfold TokenStream.cursor at hend
        omega)
      rw [hnil, List.tail_nil, ← hnil]
  · have hround := Ends.recovering (rulesProgress_parse n) (hs.kind hk) hn hne hb
    cases h : recovering (rules n .declaration) s with
    | ok read s₁ =>
      rw [h] at hround
      exact ⟨read, s₁, rfl, hs.leads hround.1, hs.cursor_lt hround.2⟩
    | error e s₁ =>
      rw [h] at hround
      cases e <;> exact hround.elim
  · have herrors' : (Reading.ofTokens ts).errors = errors := by
      unfold parse Reading.result at herrors
      split at herrors
      · cases herrors
      · exact Except.error.inj herrors
    have hbudget : s'.mistakes.length ≤ stream.tokens.length := by
      have h := honward.budget
      simpa [ParserState.budget, TokenStream.start, hrest] using h
    rw [← herrors', Reading.countP_errors, hreading, countP_faults, List.length_reverse, Nat.zero_add]
    exact Nat.le_trans hbudget (length_tokens_le ts)

/-- The tokens of `else ) ; const`, where no statement can start, with a number after the end of
input. -/
def brokenTokens : List Token :=
  [⟨.keyword .elseWord, "else", ⟨1, 1⟩⟩, ⟨.symbol .rightParen, ")", ⟨1, 6⟩⟩,
    ⟨.symbol .semicolon, ";", ⟨1, 8⟩⟩, ⟨.keyword .constWord, "const", ⟨1, 10⟩⟩,
    ⟨.endOfInput, "", ⟨1, 15⟩⟩, ⟨.number, "1", ⟨1, 16⟩⟩]

/-- On these tokens the first round fails at once, and still moves the cursor; there are two mistakes
in five tokens. -/
theorem parse_bounded_sample :
    (∃ read s', recovering (fun s => Rule.parse 5 .declaration s)
        (TokenStream.ofTokens brokenTokens).start = .ok read s' ∧
      0 < (TokenStream.ofTokens brokenTokens).cursor s') ∧
    ∃ errors, parse brokenTokens = .error errors ∧ errors.countP SyntaxError.isMistake = 2 ∧
      errors.countP SyntaxError.isMistake ≤ brokenTokens.countP Token.isPlain := by
  obtain ⟨-, -, -, hround, hcount⟩ := parse_bounded brokenTokens
  constructor
  · obtain ⟨read, s', hread, -, hcursor⟩ := hround 5 _ (TokenStream.within_start _) (by decide)
      (by decide) (by decide)
    exact ⟨read, s', hread, Nat.zero_lt_of_lt hcursor⟩
  · have htwo : (Reading.ofTokens brokenTokens).errors.countP SyntaxError.isMistake = 2 := by
      rw [Reading.countP_errors]
      rfl
    exact ⟨_, rfl, htwo, hcount _ rfl⟩

end Scriptlet
