import Scriptlet.Proofs.Token.Spellings

/-!
# Tokens written out

A token is written as its text, a string in quotes with a backslash before each quote and
backslash in it. `TokenKind.Admits` says what texts tokens of a kind may have, and `Separator`
what may stand between two tokens: a blank, and any gap behind it.

`scan_joined` says that reading takes back writing. Any tokens whose texts their kinds admit,
with any separators between them, are read as just these tokens. The step is
`tokensFrom_written`: before a blank or the end of the text each token ends where its text
does, because no number, name or symbol goes on with a blank, and only a quote that no
backslash stands before ends a string.
-/

namespace Scriptlet

/-! ## Writing -/

/-- The texts that a token of a kind may have. That of a string is the text it stands for, which may
be any. -/
inductive TokenKind.Admits : TokenKind → List Char → Prop
  | keyword (word : Keyword) : Admits (.keyword word) word.text.toList
  | symbol (s : Symbol) : Admits (.symbol s) s.chars
  | whole {c : Char} {cs : List Char} : c.isDigit = true → (∀ d ∈ cs, d.isDigit = true) →
    Admits .number (c :: cs)
  | decimal {c d : Char} {cs ds : List Char} : c.isDigit = true → (∀ e ∈ cs, e.isDigit = true) →
    d.isDigit = true → (∀ e ∈ ds, e.isDigit = true) → Admits .number (c :: (cs ++ '.' :: d :: ds))
  | name {c : Char} {cs : List Char} : isNameStart c = true → (∀ d ∈ cs, isNamePart d = true) →
    (∀ word : Keyword, word.text ≠ String.ofList (c :: cs)) → Admits .identifier (c :: cs)
  | string (text : List Char) : Admits .string text

/-- A character of a string, with a backslash before it if it is a quote or a backslash. -/
def escaped (c : Char) : List Char := if c = '"' ∨ c = '\\' then ['\\', c] else [c]

/-- How a token of a kind is written that has the text. -/
def TokenKind.written : TokenKind → List Char → List Char
  | .string, text => '"' :: (text.flatMap escaped ++ ['"'])
  | _, text => text

/-- What stands between two tokens: a gap that begins with a blank. -/
inductive Separator : List Char → Prop
  | mk {c : Char} {gap : List Char} : isGapChar c = true → Gap False gap → Separator (c :: gap)

/-- The tokens written one after the other, with the separators between them. Of these there must
be enough; what is left of them is not used. -/
def joined : List Token → List (List Char) → List Char
  | [], _ => []
  | [t], _ => t.kind.written t.lexeme.toList
  | t :: u :: ts, seps =>
    t.kind.written t.lexeme.toList ++ (seps.headD [] ++ joined (u :: ts) seps.tail)

/-! ## Where a token ends -/

/-- A blank comes next, or nothing. -/
def Parted (cs : List Char) : Prop := ∀ c ∈ cs.head?, isGapChar c = true

theorem parted_nil : Parted [] := fun _ h => nomatch h

theorem Separator.parted {sep : List Char} (h : Separator sep) (cs : List Char) :
    Parted (sep ++ cs) := by
  obtain ⟨hc, -⟩ := h
  rintro _ ⟨⟩
  exact hc

theorem isGapChar_cases {c : Char} (h : isGapChar c = true) :
    c = ' ' ∨ c = '\r' ∨ c = '\t' ∨ c = '\n' := by
  simpa [isGapChar, or_assoc] using h

/-- A blank ends names and numbers. -/
theorem Parted.delimited {cs : List Char} (h : Parted cs) : Delimited cs := fun c hc => by
  rcases isGapChar_cases (h c hc) with rfl | rfl | rfl | rfl <;> exact ⟨rfl, by decide⟩

namespace Symbol

theorem isGapChar_of_mem {s : Symbol} {c : Char} (h : c ∈ s.chars) : isGapChar c = false := by
  have hall : s.chars.all (!isGapChar ·) = true := by cases s <;> rfl
  simpa using List.all_eq_true.mp hall c h

/-- No symbol goes on with a blank. -/
theorem prefix_append_iff {s : Symbol} {cs rest : List Char} (h : Parted rest) :
    s.chars <+: cs ++ rest ↔ s.chars <+: cs := by
  refine ⟨fun ⟨more, hmore⟩ => ?_, fun hs => hs.trans (List.prefix_append cs rest)⟩
  rcases List.append_eq_append_iff.mp hmore with ⟨us, rfl, -⟩ | ⟨us, hs, hrest⟩
  · exact List.prefix_append _ us
  · cases us with
    | nil => rw [hs, List.append_nil]
    | cons u us =>
      have hblank : isGapChar u = true := h u (by rw [hrest]; rfl)
      rw [isGapChar_of_mem (s := s) (by rw [hs]; simp)] at hblank
      cases hblank

/-- Before a blank a symbol is the longest one. -/
theorem leading?_chars_append (s : Symbol) {rest : List Char} (h : Parted rest) :
    leading? (s.chars ++ rest) = some s := by
  have hsame : leading? (s.chars ++ rest) = leading? s.chars := by
    unfold leading?
    congr 1
    funext s'
    rw [Bool.eq_iff_iff, List.isPrefixOf_iff_prefix, List.isPrefixOf_iff_prefix,
      prefix_append_iff h]
  rw [hsame]
  cases s <;> rfl

/-- Only one symbol begins like a comment, and it is no more than that. -/
theorem tail_eq_nil {s : Symbol} {tail : List Char} (h : s.chars = '/' :: tail) : tail = [] := by
  cases s <;> simp_all [chars]

theorem isOtherChar_of_chars {s : Symbol} {c : Char} {tail : List Char} (h : s.chars = c :: tail) :
    isOtherChar c = true := by
  cases s <;> cases h <;> rfl

end Symbol

/-! ## One token -/

/-- A symbol before a blank. -/
theorem tokensFrom_symbol_parted (s : Symbol) {rest : List Char} (h : Parted rest) (p : Position) :
    tokensFrom p (s.chars ++ rest) =
      ⟨.symbol s, String.ofList s.chars, p⟩ :: tokensFrom (p.after s.chars) rest := by
  obtain ⟨c, tail, hs⟩ := List.exists_cons_of_ne_nil s.chars_ne_nil
  have hgap : isGapChar c = false := Symbol.isGapChar_of_mem (by rw [hs]; simp)
  -- What follows a slash is a blank, so no comment begins here.
  have hslash (d : Char) (hd : isGapChar d = false) :
      ¬ (c = '/' ∧ (tail ++ rest).head? = some d) := by
    rintro ⟨rfl, hhead⟩
    rw [Symbol.tail_eq_nil hs, List.nil_append] at hhead
    rw [h d hhead] at hd
    cases hd
  have hsolid : Solid (c :: (tail ++ rest)) := by
    refine ⟨fun hblank => by cases hblank; exact hgap, fun hline => ?_, fun {ds} hblock => ?_⟩
    · obtain ⟨hc, hmore⟩ := List.cons_prefix_cons.mp hline
      exact absurd ⟨hc.symm, head?_of_prefix hmore rfl⟩ (hslash '/' rfl)
    · obtain ⟨hc, hmore⟩ := List.cons.inj hblock
      exact absurd ⟨hc, by rw [hmore]; rfl⟩ (hslash '*' rfl)
  have hread : readPiece p c (tail ++ rest) =
      ⟨.symbol s, String.ofList (c :: tail), p.after (c :: tail), rest⟩ := by
    have hleading : Symbol.leading? (c :: (tail ++ rest)) = some s := by
      rw [← List.cons_append, ← hs]
      exact s.leading?_chars_append h
    rw [readPiece_other (Symbol.isOtherChar_of_chars hs) _ (hslash '*' rfl), hleading]
    show Piece.take (.symbol s) s.chars p (c :: (tail ++ rest)) = _
    rw [hs]
    exact Piece.take_append (.symbol s) (c :: tail) rest p
  rw [hs]
  exact tokensFrom_cons hsolid hread

/-- A number with a fraction. -/
theorem tokensFrom_decimal {c d : Char} {cs ds rest : List Char} (hc : c.isDigit = true)
    (hcs : ∀ e ∈ cs, e.isDigit = true) (hd : d.isDigit = true) (hds : ∀ e ∈ ds, e.isDigit = true)
    (h : Delimited rest) (p : Position) : tokensFrom p (c :: (cs ++ '.' :: d :: ds ++ rest)) =
      ⟨.number, String.ofList (c :: (cs ++ '.' :: d :: ds)), p⟩ ::
        tokensFrom (p.after (c :: (cs ++ '.' :: d :: ds))) rest := by
  have hfraction : fraction ('.' :: d :: (ds ++ rest)) = '.' :: d :: ds := by
    rw [fraction, if_pos hd, (takeWhile_of_delimited (fun _ => isNamePart_of_isDigit) hds h).1]
  have hnumber : numberText (c :: (cs ++ '.' :: d :: ds ++ rest)) =
      c :: (cs ++ '.' :: d :: ds) := by
    rw [numberText_cons hc, List.append_assoc, List.takeWhile_append_of_pos hcs,
      List.dropWhile_append_of_pos hcs]
    simp [hfraction]
  refine tokensFrom_cons (solid_of_namePart (isNamePart_of_isDigit hc) _) ?_
  rw [readPiece_digit hc, hnumber]
  exact Piece.take_append _ (c :: (cs ++ '.' :: d :: ds)) rest p

theorem nameKind_of_no_keyword {text : List Char}
    (h : ∀ word : Keyword, word.text ≠ String.ofList text) : nameKind text = .identifier := by
  have hnone : Keyword.ofText? (String.ofList text) = none :=
    List.find?_eq_none.mpr fun word _ => by simpa using h word
  rw [nameKind, hnone]

theorem writes_escaped (c : Char) : Writes (escaped c) c := by
  unfold escaped
  split
  · rename_i hc
    refine .inl ⟨c, rfl, ?_⟩
    rcases hc with rfl | rfl <;> rfl
  · rename_i hc
    exact .inr ⟨rfl, not_or.mp hc⟩

/-- A token that is written before a blank is read. -/
theorem tokensFrom_written {kind : TokenKind} {text : List Char} (h : kind.Admits text)
    {rest : List Char} (hrest : Parted rest) (p : Position) :
    tokensFrom p (kind.written text ++ rest) =
      ⟨kind, String.ofList text, p⟩ :: tokensFrom (p.after (kind.written text)) rest := by
  cases h with
  | keyword word =>
    obtain ⟨c, cs, hword, hstart, hcs, hkind⟩ := word.exists_chars
    have hscan := tokensFrom_name hstart hcs hrest.delimited p
    rwa [hkind, ← hword, ← List.cons_append, ← hword] at hscan
  | symbol s => exact tokensFrom_symbol_parted s hrest p
  | whole hc hcs => exact tokensFrom_digits hc hcs hrest.delimited p
  | decimal hc hcs hd hds => exact tokensFrom_decimal hc hcs hd hds hrest.delimited p
  | name hc hcs hword =>
    have hscan := tokensFrom_name hc hcs hrest.delimited p
    rwa [nameKind_of_no_keyword hword] at hscan
  | string => exact tokensFrom_string (fun c _ => writes_escaped c) p rest

/-! ## All tokens -/

theorem Separator.gap {sep : List Char} (h : Separator sep) : Gap False sep := by
  obtain ⟨hc, hgap⟩ := h
  exact .blank hc hgap

/-- From one token to all of them, by induction on the tokens that are left to write. -/
theorem tokensFrom_joined {ts : List Token} {seps : List (List Char)} (p : Position)
    (hts : ∀ t ∈ ts, t.kind.Admits t.lexeme.toList) (hseps : ∀ sep ∈ seps, Separator sep)
    (hcount : ts.length ≤ seps.length + 1) :
    (tokensFrom p (joined ts seps)).map (fun t => (t.kind, t.lexeme)) =
      ts.map (fun t => (t.kind, t.lexeme)) ++ [(.endOfInput, "")] := by
  fun_induction joined ts seps generalizing p with
  | case1 seps => rfl
  | case2 t seps =>
    have hread := tokensFrom_written (hts t List.mem_cons_self) parted_nil p
    rw [List.append_nil, String.ofList_toList] at hread
    rw [hread]
    rfl
  | case3 t u ts seps ih =>
    obtain _ | ⟨sep, seps⟩ := seps
    · simp at hcount
    have hsep : Separator sep := hseps sep List.mem_cons_self
    have hread := tokensFrom_written (hts t List.mem_cons_self)
      (hsep.parted (joined (u :: ts) seps)) p
    rw [String.ofList_toList, tokensFrom_gap hsep.gap] at hread
    have hmore := ih ((p.after (t.kind.written t.lexeme.toList)).after sep)
      (fun t ht => hts t (List.mem_cons_of_mem _ ht))
      (fun sep hs => hseps sep (List.mem_cons_of_mem _ hs)) (Nat.le_of_succ_le_succ hcount)
    simp only [List.headD_cons, List.tail_cons] at hmore ⊢
    rw [hread, List.map_cons, hmore]
    rfl

/-- Take any tokens whose texts their kinds admit, write them one after the other, and put any
separators between them. What is read is these tokens, and the end of the input behind them. -/
theorem scan_joined (ts : List Token) (seps : List (List Char))
    (hts : ∀ t ∈ ts, t.kind.Admits t.lexeme.toList) (hseps : ∀ sep ∈ seps, Separator sep)
    (hcount : ts.length ≤ seps.length + 1) :
    (scan (String.ofList (joined ts seps))).map (fun t => (t.kind, t.lexeme)) =
      ts.map (fun t => (t.kind, t.lexeme)) ++ [(.endOfInput, "")] := by
  have hscan := tokensFrom_joined Position.start hts hseps hcount
  rwa [← String.toList_ofList (l := joined ts seps)] at hscan

/-- A declaration with a string that holds a quote and a backslash. -/
def sampleRow : List Token :=
  [⟨.keyword .letWord, "let", ⟨1, 1⟩⟩, ⟨.identifier, "x", ⟨1, 5⟩⟩, ⟨.symbol .equal, "=", ⟨2, 1⟩⟩,
    ⟨.string, "a\"b\\", ⟨2, 3⟩⟩, ⟨.symbol .slash, "/", ⟨2, 23⟩⟩, ⟨.number, "1.5", ⟨2, 25⟩⟩]

/-- Blanks and comments to put between its tokens. -/
def sampleSeparators : List (List Char) :=
  [" ", " // name\n", " ", "\t/* text */ ", " "].map String.toList

/-- The comments and the slash between them are kept apart, and the string is read as it was. -/
theorem scan_joined_sample :
    joined sampleRow sampleSeparators =
      "let x // name\n= \"a\\\"b\\\\\"\t/* text */ / 1.5".toList ∧
    (scan (String.ofList (joined sampleRow sampleSeparators))).map (fun t => (t.kind, t.lexeme)) =
      [(.keyword .letWord, "let"), (.identifier, "x"), (.symbol .equal, "="),
        (.string, "a\"b\\"), (.symbol .slash, "/"), (.number, "1.5"), (.endOfInput, "")] := by
  have hword (word : Keyword) : word.text ≠ "x" := by cases word <;> decide
  have hts : ∀ t ∈ sampleRow, t.kind.Admits t.lexeme.toList := by
    simp only [sampleRow, List.forall_mem_cons]
    exact ⟨.keyword .letWord, .name rfl nofun hword, .symbol .equal, .string _, .symbol .slash,
      @TokenKind.Admits.decimal '1' '5' [] [] rfl nofun rfl nofun, nofun⟩
  have hname : Gap False "// name\n".toList := @Gap.line _ " name".toList [] (by decide) .nil
  have htext : Gap False "/* text */ ".toList :=
    @Gap.block _ " text ".toList [' '] (by decide) (.blank rfl .nil)
  have hseps : ∀ sep ∈ sampleSeparators, Separator sep := by
    simp only [sampleSeparators, List.map_cons, List.map_nil, List.forall_mem_cons]
    exact ⟨.mk rfl .nil, .mk rfl hname, .mk rfl .nil, .mk rfl htext, .mk rfl .nil, nofun⟩
  exact ⟨by decide, scan_joined sampleRow sampleSeparators hts hseps (by decide)⟩

end Scriptlet
