import Scriptlet.Proofs.Layout.Move
import Scriptlet.Proofs.Syntax.Programs
import Scriptlet.Proofs.Token.Spellings

/-!
# Two texts, one below the other

A line feed ends every token but a string and every comment but a block comment. So where a
text stops outside of these, another text can be put below it: `tokensFrom_below` says that the
tokens of both, with a line feed between them, are the tokens of the first and then those of
the second one. The second text is read as it is read alone, only further down
(`scanFrom_down`), and `scan_below` puts the two together.
-/

namespace Scriptlet

/-- The position `k` lines further down, in the same column. -/
def Position.down (k : Nat) (p : Position) : Position := ⟨p.line + k, p.column⟩

theorem Position.down_advance (k : Nat) (p : Position) (c : Char) :
    (p.advance c).down k = (p.down k).advance c := by
  unfold down advance
  split
  · exact congrArg (Position.mk · 1) (Nat.add_right_comm p.line 1 k)
  · rfl

theorem Position.down_after (k : Nat) (p : Position) (cs : List Char) :
    (p.after cs).down k = (p.down k).after cs := by
  induction cs generalizing p with
  | nil => rfl
  | cons c cs ih => rw [after_cons, ih, down_advance, after_cons]

/-- The number of lines that a text and the line feed below it take. -/
def linesDown (s : String) : Nat := 1 + s.toList.count '\n'

/-- Behind a text and the line feed below it the next line starts. -/
theorem after_line (s : String) :
    Position.start.after (s.toList ++ ['\n']) = Position.start.down (linesDown s) := by
  have hstart : Position.start = Position.ofText [] := rfl
  rw [hstart, Position.after_ofText, List.nil_append, Position.ofText_concat]
  simp [Position.ofText, Position.advance, Position.down, linesDown, Nat.add_comm]

/-- The tokens of a text stand on its lines. -/
theorem line_of_mem_scan {s : String} {t : Token} (ht : t ∈ scan s) :
    1 ≤ t.position.line ∧ t.position.line ≤ linesDown s := by
  obtain ⟨gap, slices, stop, h⟩ := scan_sliced s
  have hstop : stop.position.line = linesDown s := by
    rw [h.stop_position]
    rfl
  obtain ⟨ds, hds⟩ := h.exists_position ht
  refine ⟨by rw [hds]; exact Nat.le_add_right 1 _, ?_⟩
  have hincreasing := h.increasing
  rw [h.tokens_eq, List.pairwise_append] at hincreasing
  rw [h.tokens_eq, List.mem_append, List.mem_singleton] at ht
  rcases ht with ht | rfl
  · have hbefore := hincreasing.2.2 t ht stop (List.mem_singleton_self _)
    unfold Position.Before at hbefore
    omega
  · exact hstop.le

/-! ## Gaps -/

/-- A line feed ends a comment that ends with the text. -/
theorem Gap.concat {final final' : Prop} {gap : List Char} (h : Gap final gap) :
    Gap final' (gap ++ ['\n']) := by
  induction h with
  | nil => exact .blank rfl .nil
  | blank hc _ ih => exact .blank hc ih
  | @line text cs ht _ ih =>
    rw [List.cons_append, List.cons_append, List.append_assoc]
    exact .line ht ih
  | lastLine ht _ => exact .line ht .nil
  | @block text cs ht _ ih =>
    rw [List.cons_append, List.cons_append, List.append_assoc]
    exact .block ht ih

/-! ## Tokens before a line feed -/

theorem notMem_takeWhile {q : Char → Bool} {c : Char} (hc : q c = false) (cs : List Char) :
    c ∉ cs.takeWhile q := fun h => by
  rw [List.all_eq_true.mp List.all_takeWhile c h] at hc
  cases hc

theorem newline_notMem_fraction (cs : List Char) : '\n' ∉ fraction cs := by
  unfold fraction
  split
  · rename_i d more
    split
    · rename_i hd
      have hne : '\n' ≠ d := by
        rintro rfl
        cases hd
      simp [hne, notMem_takeWhile (rfl : Char.isDigit '\n' = false) more]
    · exact List.not_mem_nil
  · exact List.not_mem_nil

/-- There is no line feed in a token that is neither a string nor runs to the end of the text. -/
theorem newline_notMem_lexeme {c : Char} (hc : c ≠ '\n') (hquote : c ≠ '"') {cs : List Char}
    (hcomment : ¬ (c = '/' ∧ cs.head? = some '*')) (p : Position) :
    (readPiece p c cs).kind ≠ .string ∧ '\n' ∉ (readPiece p c cs).lexeme.toList := by
  cases opening c cs with
  | comment hstar => exact absurd ⟨rfl, hstar⟩ hcomment
  | quote => exact absurd rfl hquote
  | digit hdigit =>
    rw [readPiece_digit hdigit, numberText_cons hdigit]
    simp [Piece.take, hc.symm, notMem_takeWhile (rfl : Char.isDigit '\n' = false),
      newline_notMem_fraction]
  | name hname hdigit =>
    rw [readPiece_name hname hdigit]
    refine ⟨?_, by simp [Piece.take, hc.symm, notMem_takeWhile (rfl : isNamePart '\n' = false)]⟩
    simp only [Piece.take, nameKind]
    split <;> simp
  | other hother =>
    rw [readPiece_other hother cs hcomment]
    split
    · rename_i s _
      simp only [Piece.take, String.toList_ofList]
      exact ⟨by simp, by cases s <;> decide⟩
    · simp [Piece.take, hc.symm]

/-- What a text with a line feed behind it starts with ends before the line feed, if there is none
in it. -/
theorem exists_of_append_newline {tail rest cs ds : List Char} (h : cs ++ '\n' :: ds = tail ++ rest)
    (hn : '\n' ∉ tail) : ∃ more, cs = tail ++ more ∧ rest = more ++ '\n' :: ds := by
  rcases List.append_eq_append_iff.mp h with ⟨us, htail, hrest⟩ | ⟨us, hcs, hrest⟩
  · cases us with
    | nil => exact ⟨[], by simpa using htail.symm, by simpa using hrest.symm⟩
    | cons u us =>
      cases (List.cons.inj hrest).1
      exact absurd (by rw [htail]; simp) hn
  · exact ⟨us, hcs, hrest⟩

/-- No block comment starts at a token that ends before the end of the text, not even with a line
feed put behind the text. -/
theorem not_comment_of_ends {c : Char} {cs : List Char} {p : Position}
    (hend : (readPiece p c cs).kind.isUnterminated = false) (ds : List Char) :
    ¬ (c = '/' ∧ (cs ++ '\n' :: ds).head? = some '*') := by
  rintro ⟨rfl, hstar⟩
  cases cs with
  | nil => cases hstar
  | cons d cs =>
    have hshort : (d :: cs).head? = some '*' := hstar
    rw [readPiece_comment hshort] at hend
    cases hend

/-- A token that does not run to the end of the text is also read if a line feed follows it. -/
theorem readPiece_before_newline {c : Char} (hc : c ≠ '\n') {cs : List Char} {p : Position}
    (hend : (readPiece p c cs).kind.isUnterminated = false) (ds : List Char) :
    ∃ tail, (readPiece p c cs).CutsOff c tail cs ∧ readPiece p c (cs ++ '\n' :: ds) =
      ⟨(readPiece p c cs).kind, (readPiece p c cs).lexeme, p.after (c :: tail),
        (readPiece p c cs).rest ++ '\n' :: ds⟩ := by
  by_cases hquote : c = '"'
  · subst hquote
    obtain ⟨tail, hcuts⟩ := readPiece_cutsOff p '"' cs
    refine ⟨tail, hcuts, ?_⟩
    cases hstring : readString [] (p.advance '"') cs with
    | none =>
      rw [readPiece_quote, hstring] at hend
      cases hend
    | some found =>
      obtain ⟨text, stop, rest⟩ := found
      obtain ⟨body, rfl, hbody⟩ := readString_eq hstring
      have hread (more : List Char) : readPiece p '"' (body ++ more) =
          ⟨.string, text, p.after ('"' :: body), more⟩ := by
        rw [readPiece_quote, hbody]
        rfl
      rw [← hcuts.stop, hread, List.append_assoc, hread]
  · obtain ⟨tail, hcuts⟩ := readPiece_cutsOff p c (cs ++ '\n' :: ds)
    obtain ⟨hkind, hlexeme⟩ := newline_notMem_lexeme hc hquote (not_comment_of_ends hend ds) p
    rw [hcuts.lexeme hkind, String.toList_ofList] at hlexeme
    have htail : '\n' ∉ tail := fun h => hlexeme (List.mem_cons_of_mem c h)
    obtain ⟨more, rfl, hrest⟩ := exists_of_append_newline hcuts.split htail
    have hshort := hcuts.again p more (by rw [hrest]; exact List.prefix_append _ _)
    have hlong := hcuts.again p _ (List.prefix_refl _)
    rw [← hcuts.split, hrest] at hlong
    refine ⟨tail, ?_, ?_⟩
    · obtain ⟨tail', hcuts'⟩ := readPiece_cutsOff p c (tail ++ more)
      have hsplit := hcuts'.split
      rw [hshort] at hsplit
      cases List.append_cancel_right hsplit
      exact hcuts'
    · rw [hshort]
      exact hlong

/-- What is solid is solid also with a line feed behind it, unless a block comment without an end
starts there. -/
theorem Solid.append_newline {c : Char} {cs : List Char} (h : Solid (c :: cs))
    (ds : List Char) (hcomment : ¬ (c = '/' ∧ (cs ++ '\n' :: ds).head? = some '*')) :
    Solid (c :: (cs ++ '\n' :: ds)) where
  blank hd := h.blank hd
  line hline := by
    obtain ⟨hc, hmore⟩ := List.cons_prefix_cons.mp hline
    cases cs with
    | nil => cases (List.cons_prefix_cons.mp hmore).1
    | cons d cs =>
      obtain ⟨hd, -⟩ := List.cons_prefix_cons.mp hmore
      subst hc hd
      exact h.line (List.prefix_append ['/', '/'] cs)
  block {us} hus := by
    obtain ⟨hc, hmore⟩ := List.cons.inj hus
    exact absurd ⟨hc, by rw [hmore]; rfl⟩ hcomment

/-- One token is read, and then those behind it. -/
theorem tokensFrom_solid {c : Char} {cs : List Char} (h : Solid (c :: cs)) {p : Position}
    {piece : Piece} (hread : readPiece p c cs = piece) : tokensFrom p (c :: cs) =
      ⟨piece.kind, piece.lexeme, p⟩ :: tokensFrom piece.stop piece.rest := by
  subst hread
  obtain ⟨tail, hcuts⟩ := readPiece_cutsOff p c cs
  have hlength := congrArg List.length hcuts.split
  rw [List.length_append] at hlength
  unfold tokensFrom
  rw [scanFrom_of_solid h]
  refine congrArg _ (scanFrom_congr ?_ (Nat.lt_succ_self _) _)
  rw [List.length_cons]
  omega

theorem textTokens_cons {t : Token} {ts : List Token} (h : t.kind ≠ .endOfInput) :
    textTokens (t :: ts) = t :: textTokens ts := by
  simp [textTokens, h]

/-- The tokens of two texts with a line feed between them, if no fault runs to the end of the
first. -/
theorem tokensFrom_below (ds : List Char) {cs : List Char} {p : Position}
    (h : ∀ t ∈ tokensFrom p cs, t.kind.isUnterminated = false) :
    tokensFrom p (cs ++ '\n' :: ds) =
      textTokens (tokensFrom p cs) ++ tokensFrom (p.after (cs ++ ['\n'])) ds := by
  induction hn : cs.length using Nat.strong_induction_on generalizing cs p with
  | _ n ih =>
    subst hn
    obtain ⟨gap, rest, rfl, hskip, hgap, hsolid⟩ := skipGap_eq .between p cs nofun
    cases rest with
    | nil =>
      have hend : tokensFrom p (gap ++ []) = [⟨.endOfInput, "", p.after gap⟩] := by
        rw [tokensFrom, scanFrom, hskip]
      have hsplit : gap ++ [] ++ '\n' :: ds = gap ++ ['\n'] ++ ds := by simp
      rw [hend, hsplit, tokensFrom_gap (Gap.concat hgap), List.append_nil]
      rfl
    | cons c cs =>
      have hgap' : Gap False gap := hgap.mono (List.cons_ne_nil c cs)
      rw [tokensFrom_gap hgap'] at h ⊢
      have hc : c ≠ '\n' := by
        rintro rfl
        cases hsolid.blank rfl
      have htokens := tokensFrom_solid (p := p.after gap) hsolid rfl
      have hend : (readPiece (p.after gap) c cs).kind.isUnterminated = false := by
        rw [htokens] at h
        exact h _ List.mem_cons_self
      obtain ⟨tail, hcuts, hlong⟩ := readPiece_before_newline hc hend ds
      have hlonger :=
        tokensFrom_solid (hsolid.append_newline ds (not_comment_of_ends hend ds)) hlong
      rw [hcuts.stop] at htokens
      have hlength := congrArg List.length hcuts.split
      rw [List.length_append] at hlength
      rw [htokens] at h
      have hbelow := ih _ (by simp only [List.length_append, List.length_cons]; omega)
        (fun t ht => h t (List.mem_cons_of_mem _ ht)) rfl
      have hsplit : gap ++ c :: cs ++ '\n' :: ds = gap ++ c :: (cs ++ '\n' :: ds) := by simp
      have hstop : p.after (gap ++ c :: cs ++ ['\n']) = ((p.after gap).after (c :: tail)).after
          ((readPiece (p.after gap) c cs).rest ++ ['\n']) := by
        rw [← Position.after_append, ← Position.after_append]
        conv_lhs => rw [hcuts.split]
        simp
      rw [hsplit, tokensFrom_gap hgap', hlonger, htokens, textTokens_cons hcuts.kind, hstop]
      exact congrArg (List.cons _) hbelow

/-- Reading the same text further down gives the same tokens further down. -/
theorem skipGap_down (k : Nat) (state : GapState) (p : Position) (cs : List Char) :
    skipGap state (p.down k) cs = ((skipGap state p cs).1.down k, (skipGap state p cs).2) := by
  fun_induction skipGap state p cs <;>
    simp_all [skipGap, ← Position.down_advance]

theorem scanFrom_down (k fuel : Nat) (p : Position) (cs : List Char) :
    scanFrom fuel (p.down k) cs = move (Position.down k) (scanFrom fuel p cs) := by
  induction fuel generalizing p cs with
  | zero => rfl
  | succ fuel ih =>
    rw [scanFrom, scanFrom, skipGap_down]
    obtain ⟨q, rest⟩ := skipGap .between p cs
    cases rest with
    | nil => rfl
    | cons c cs =>
      obtain ⟨tail, hcuts⟩ := readPiece_cutsOff q c cs
      have hread := hcuts.again (q.down k) _ (List.prefix_refl _)
      rw [← hcuts.split, ← Position.down_after, ← hcuts.stop] at hread
      dsimp only
      rw [hread, ih]
      rfl

/-- The tokens of two texts with a line feed between them, if no fault runs to the end of the first:
those of the first, and those of the second further down. -/
theorem scan_below {s : String} (h : ∀ t ∈ scan s, t.kind.isUnterminated = false) (s' : String) :
    scan (s ++ "\n" ++ s') =
      textTokens (scan s) ++ move (Position.down (linesDown s)) (scan s') := by
  have htext : (s ++ "\n" ++ s').toList = s.toList ++ '\n' :: s'.toList := by simp
  have hbelow := tokensFrom_below s'.toList h
  have hdown := scanFrom_down (linesDown s) (s'.toList.length + 1) Position.start s'.toList
  rw [after_line, ← htext] at hbelow
  exact hbelow.trans (congrArg (textTokens (scan s) ++ ·) hdown)

/-- The last token of a text is the end of input, and no other one is. -/
theorem exists_scan_eq (s : String) : ∃ tokens stop, scan s = tokens ++ [stop] ∧
    stop.kind = .endOfInput ∧ (∀ t ∈ tokens, t.kind ≠ .endOfInput) ∧
      textTokens (scan s) = tokens := by
  obtain ⟨gap, slices, stop, h⟩ := scan_sliced s
  refine ⟨slices.map Slice.token, stop, h.tokens_eq, h.stop_kind, h.kinds, ?_⟩
  rw [h.tokens_eq, textTokens_append h.kinds (Grammar.next_cons.mpr h.stop_kind)]

/-- Texts are scanned line by line. If no string and no block comment runs to the end of a text,
its tokens are also the first ones of the text with any other text below it. Behind them come the
tokens of that other text, in the same columns, and further down by a line for each line feed of the
first text and one for the line feed between the two. -/
theorem scan_lines {s : String} (h : ∀ t ∈ scan s, t.kind ≠ .fault .unterminatedString ∧
      t.kind ≠ .fault .unterminatedComment) (s' : String) :
    ∃ tokens stop, scan s = tokens ++ [stop] ∧ stop.kind = .endOfInput ∧
      (∀ t ∈ tokens, t.kind ≠ .endOfInput) ∧
      scan (s ++ "\n" ++ s') = tokens ++ (scan s').map fun t =>
        { t with position := ⟨t.position.line + (1 + s.toList.count '\n'), t.position.column⟩ } := by
  obtain ⟨tokens, stop, hscan, hstop, htokens, htext⟩ := exists_scan_eq s
  refine ⟨tokens, stop, hscan, hstop, htokens, ?_⟩
  have hends (t : Token) (ht : t ∈ scan s) : t.kind.isUnterminated = false := by
    obtain ⟨hstring, hcomment⟩ := h t ht
    unfold TokenKind.isUnterminated
    split
    · exact absurd ‹_› hstring
    · exact absurd ‹_› hcomment
    · rfl
  rw [scan_below hends s', htext]
  rfl

/-- The first text stops in a comment, behind a number with a point and half an operator; the second
one is a block comment that does not end. -/
theorem scan_lines_sample :
    (∀ t ∈ scan "a\n1. & // b", t.kind ≠ .fault .unterminatedString ∧
      t.kind ≠ .fault .unterminatedComment) ∧
    ∃ tokens stop, scan "a\n1. & // b" = tokens ++ [stop] ∧ tokens.length = 4 ∧
      scan ("a\n1. & // b" ++ "\n" ++ "c /* d") = tokens ++
        [⟨.identifier, "c", ⟨3, 1⟩⟩, ⟨.fault .unterminatedComment, "/* d", ⟨3, 3⟩⟩,
          ⟨.endOfInput, "", ⟨3, 7⟩⟩] := by
  have hends : ∀ t ∈ scan "a\n1. & // b", t.kind ≠ .fault .unterminatedString ∧
      t.kind ≠ .fault .unterminatedComment := by
    decide +kernel
  have hlength : (scan "a\n1. & // b").length = 5 := by decide +kernel
  obtain ⟨tokens, stop, hscan, -, -, hboth⟩ := scan_lines hends "c /* d"
  refine ⟨hends, tokens, stop, hscan, ?_, hboth.trans (congrArg (tokens ++ ·) ?_)⟩
  · rw [hscan, List.length_append, List.length_singleton] at hlength
    omega
  · decide +kernel

/-- As many line feeds. -/
def lineFeeds (k : Nat) : String := String.ofList (List.replicate k '\n')

/-- Behind line feeds a text is read further down. -/
theorem scan_lineFeeds (k : Nat) (s : String) :
    scan (lineFeeds k ++ s) = move (Position.down k) (scan s) := by
  have hgap (k : Nat) : Gap False (List.replicate k '\n') := by
    induction k with
    | zero => exact .nil
    | succ k ih => exact .blank rfl ih
  have hafter (k : Nat) :
      Position.start.after (List.replicate k '\n') = Position.start.down k := by
    induction k with
    | zero => rfl
    | succ k ih =>
      rw [List.replicate_succ', Position.after_append, ih]
      rfl
  have htext : (lineFeeds k ++ s).toList = List.replicate k '\n' ++ s.toList := by simp [lineFeeds]
  have hscan := tokensFrom_gap (hgap k) Position.start s.toList
  rw [hafter, ← htext] at hscan
  exact hscan.trans (scanFrom_down k (s.toList.length + 1) Position.start s.toList)

end Scriptlet
