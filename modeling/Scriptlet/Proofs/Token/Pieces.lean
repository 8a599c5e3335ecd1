import Scriptlet.Proofs.Token.Gaps

/-!
# What a token is read from

`readPiece` reads one token off the front of a text. `readPiece_cutsOff` says what it
takes: a text that starts with the first character, and that is the token's text
unless the token is a string. What follows the token decides where it ends, but only
its very beginning matters: with any shorter rest the same token is read
(`Piece.CutsOff.again`). In particular it is read from its own text alone, and one
character more does not make it longer.
-/

namespace Scriptlet

/-- What is taken while `p` holds is taken also before a shorter rest. -/
theorem takeWhile_takeWhile_append {α : Type} {p : α → Bool} {cs more : List α}
    (h : more <+: cs.dropWhile p) :
    (cs.takeWhile p ++ more).takeWhile p = cs.takeWhile p ∧
      (cs.takeWhile p ++ more).dropWhile p = more := by
  induction cs with
  | nil => simp_all
  | cons c cs ih =>
    by_cases hc : p c = true
    · rw [List.dropWhile_cons_of_pos hc] at h
      simp [hc, ih h]
    · rw [List.dropWhile_cons_of_neg hc] at h
      cases more with
      | nil => simp [hc]
      | cons d more =>
        obtain ⟨rfl, -⟩ := List.cons_prefix_cons.mp h
        simp [hc]

/-- What a shorter text starts with, a longer one starts with too. -/
theorem head?_of_prefix {α : Type} {us cs : List α} {a : α} (h : us <+: cs)
    (ha : us.head? = some a) : cs.head? = some a := by
  obtain ⟨vs, rfl⟩ := h
  cases us with
  | nil => cases ha
  | cons u us => exact ha

/-- A string is read from the text up to its closing quote, whatever follows. -/
theorem readString_eq {read : List Char} {p : Position} {cs : List Char} {text : String}
    {stop : Position} {rest : List Char} (h : readString read p cs = some (text, stop, rest)) :
    ∃ body, cs = body ++ rest ∧
      ∀ q more, readString read q (body ++ more) = some (text, q.after body, more) := by
  fun_induction readString read p cs with
  | case1 | case3 => cases h
  | case2 read p cs =>
    cases h
    exact ⟨['"'], rfl, fun q more => rfl⟩
  | case4 read p c cs ih =>
    obtain ⟨body, rfl, hbody⟩ := ih h
    refine ⟨'\\' :: c :: body, rfl, fun q more => ?_⟩
    exact hbody ((q.advance '\\').advance c) more
  | case5 read p c cs hquote hend hescape ih =>
    obtain ⟨body, rfl, hbody⟩ := ih h
    refine ⟨c :: body, rfl, fun q more => ?_⟩
    have hc : c ≠ '\\' := by
      rintro rfl
      cases hcs : body ++ rest with
      | nil => exact hend rfl hcs
      | cons d ds => exact hescape d ds rfl hcs
    rw [List.cons_append,
      readString.eq_5 _ _ _ _ hquote (fun h => absurd h hc) fun _ _ h => absurd h hc]
    exact hbody (q.advance c) more

/-! ## Numbers -/

/-- The point and the digits behind it that `cs` starts with. -/
def fraction : List Char → List Char
  | '.' :: d :: more => if d.isDigit then '.' :: d :: more.takeWhile Char.isDigit else []
  | _ => []

theorem numberText_cons {c : Char} (hc : c.isDigit = true) (cs : List Char) :
    numberText (c :: cs) =
      c :: (cs.takeWhile Char.isDigit ++ fraction (cs.dropWhile Char.isDigit)) := by
  unfold numberText
  simp only [List.takeWhile_cons_of_pos hc, List.dropWhile_cons_of_pos hc]
  split
  · rename_i d more hafter
    rw [hafter]
    by_cases hd : d.isDigit = true <;> simp [fraction, hd]
  · rename_i hafter
    rw [fraction.eq_2 _ hafter, List.append_nil]

theorem fraction_eq_nil {ds more : List Char} (h : fraction ds = []) (hm : more <+: ds) :
    fraction more = [] := by
  obtain ⟨vs, rfl⟩ := hm
  unfold fraction at h ⊢
  split
  · rename_i d more
    split
    · rename_i hd
      simp [hd] at h
    · rfl
  · rfl

theorem fraction_eq (ds : List Char) : ∃ rest, ds = fraction ds ++ rest ∧
    ∀ more, more <+: rest → fraction (fraction ds ++ more) = fraction ds := by
  by_cases h : fraction ds = []
  · rw [h]
    exact ⟨ds, rfl, fun more hm => fraction_eq_nil h hm⟩
  · unfold fraction at h ⊢
    split at h
    · rename_i d more'
      split at h
      · rename_i hd
        refine ⟨more'.dropWhile Char.isDigit, by simp [hd], fun more hm => ?_⟩
        simp [hd, takeWhile_takeWhile_append hm]
      · exact absurd rfl h
    · exact absurd rfl h

/-- The text of a number is the first characters of the text, and the same ones are read before a
shorter rest. -/
theorem numberText_eq {c : Char} (hc : c.isDigit = true) (cs : List Char) :
    ∃ tail rest, cs = tail ++ rest ∧ numberText (c :: cs) = c :: tail ∧
      ∀ more, more <+: rest → numberText (c :: (tail ++ more)) = c :: tail := by
  obtain ⟨rest, hrest, hagain⟩ := fraction_eq (cs.dropWhile Char.isDigit)
  refine ⟨_, rest, ?_, numberText_cons hc cs, fun more hm => ?_⟩
  · rw [List.append_assoc, ← hrest, List.takeWhile_append_dropWhile]
  · have hprefix : fraction (cs.dropWhile Char.isDigit) ++ more <+: cs.dropWhile Char.isDigit := by
      conv_rhs => rw [hrest]
      exact List.prefix_append_right_inj _ |>.mpr hm
    rw [numberText_cons hc, List.append_assoc, (takeWhile_takeWhile_append hprefix).1,
      (takeWhile_takeWhile_append hprefix).2, hagain more hm]

/-! ## Symbols -/

namespace Symbol

theorem chars_ne_nil (s : Symbol) : s.chars ≠ [] := by
  cases s <;> simp [chars]

/-- The longest symbol at the start of a text is also the longest one at the start of a shorter text
that holds it. -/
theorem leading?_of_prefix {cs us : List Char} {s : Symbol} (h : leading? cs = some s)
    (hs : s.chars <+: us) (hu : us <+: cs) : leading? us = some s := by
  unfold leading? at h ⊢
  rw [List.find?_eq_some_iff_append] at h ⊢
  obtain ⟨-, longer, shorter, hall, hlonger⟩ := h
  refine ⟨List.isPrefixOf_iff_prefix.mpr hs, longer, shorter, hall, fun s' hs' => ?_⟩
  have hno := hlonger s' hs'
  simp only [Bool.not_eq_true', ← Bool.not_eq_true, List.isPrefixOf_iff_prefix] at hno ⊢
  exact fun hus => hno (hus.trans hu)

theorem leading?_eq_none_of_prefix {cs us : List Char} (h : leading? cs = none) (hu : us <+: cs) :
    leading? us = none := by
  unfold leading? at h ⊢
  rw [List.find?_eq_none] at h ⊢
  intro s hs
  have hno := h s hs
  rw [List.isPrefixOf_iff_prefix] at hno ⊢
  exact fun hus => hno (hus.trans hu)

end Symbol

/-! ## Tokens -/

/-- Whether the token is a fault that runs to the end of the text. -/
def TokenKind.isUnterminated : TokenKind → Bool
  | .fault .unterminatedString | .fault .unterminatedComment => true
  | _ => false

theorem TokenKind.isUnterminated_eq_false {k : TokenKind} (h : ∀ f, k ≠ .fault f) :
    k.isUnterminated = false := by
  unfold isUnterminated
  split
  · exact absurd rfl (h _)
  · exact absurd rfl (h _)
  · rfl

/-- The piece that starts with `c` takes `tail` off the front of `cs`. -/
structure Piece.CutsOff (piece : Piece) (c : Char) (tail cs : List Char) : Prop where
  split : cs = tail ++ piece.rest
  kind : piece.kind ≠ .endOfInput
  lexeme : piece.kind ≠ .string → piece.lexeme = String.ofList (c :: tail)
  unterminated : piece.kind.isUnterminated = true → piece.rest = []
  /-- The same piece is read anywhere, and before a shorter rest. -/
  again (q : Position) (more : List Char) : more <+: piece.rest →
    readPiece q c (tail ++ more) = ⟨piece.kind, piece.lexeme, q.after (c :: tail), more⟩

/-- Reading the piece leads behind its text. -/
theorem Piece.CutsOff.stop {p : Position} {c : Char} {tail cs : List Char}
    (h : (readPiece p c cs).CutsOff c tail cs) : (readPiece p c cs).stop = p.after (c :: tail) := by
  have hagain := h.again p _ (List.prefix_refl _)
  rw [← h.split] at hagain
  exact congrArg Piece.stop hagain

theorem Piece.take_append (kind : TokenKind) (text more : List Char) (p : Position) :
    Piece.take kind text p (text ++ more) = ⟨kind, String.ofList text, p.after text, more⟩ := by
  simp [Piece.take]

/-- A token that is cut off as the text `c :: tail`, before any shorter rest as well. -/
theorem cutsOff_of_take (kind : TokenKind) (c : Char) (tail rest : List Char)
    (hkind : kind ≠ .endOfInput) (hend : kind.isUnterminated = true → rest = [])
    (hread : ∀ q more, more <+: rest →
      readPiece q c (tail ++ more) = Piece.take kind (c :: tail) q (c :: tail ++ more))
    (p : Position) : (readPiece p c (tail ++ rest)).CutsOff c tail (tail ++ rest) := by
  rw [hread p rest (List.prefix_refl rest), Piece.take_append]
  refine ⟨rfl, hkind, fun _ => rfl, hend, fun q more hm => ?_⟩
  rw [hread q more hm, Piece.take_append]

theorem readPiece_comment {cs : List Char} (h : cs.head? = some '*') (p : Position) :
    readPiece p '/' cs =
      Piece.take (.fault .unterminatedComment) ('/' :: cs) p ('/' :: cs) := by
  simp [readPiece, h]

theorem readPiece_quote (p : Position) (cs : List Char) : readPiece p '"' cs =
    match readString [] (p.advance '"') cs with
    | some (text, stop, rest) => ⟨.string, text, stop, rest⟩
    | none => Piece.take (.fault .unterminatedString) ('"' :: cs) p ('"' :: cs) := by
  simp only [readPiece]
  rfl

theorem readPiece_digit {c : Char} (hc : c.isDigit = true) (p : Position) (cs : List Char) :
    readPiece p c cs = Piece.take .number (numberText (c :: cs)) p (c :: cs) := by
  have hslash : c ≠ '/' := by rintro rfl; cases hc
  have hquote : c ≠ '"' := by rintro rfl; cases hc
  simp [readPiece, hslash, hquote, hc]

/-- The kind of a token that is written like a name. -/
def nameKind (text : List Char) : TokenKind :=
  match Keyword.ofText? (String.ofList text) with
  | some word => .keyword word
  | none => .identifier

theorem readPiece_name {c : Char} (hc : isNameStart c = true) (hdigit : c.isDigit = false)
    (p : Position) (cs : List Char) : readPiece p c cs =
      Piece.take (nameKind (c :: cs.takeWhile isNamePart)) (c :: cs.takeWhile isNamePart) p
        (c :: cs) := by
  have hslash : c ≠ '/' := by rintro rfl; cases hc
  have hquote : c ≠ '"' := by rintro rfl; cases hc
  simp only [readPiece]
  rw [if_neg (by simp [hslash]), if_neg hquote, if_neg (by simp [hdigit]), if_pos hc]
  rfl

/-- Whether neither a string, a number nor a name starts with the character. -/
def isOtherChar (c : Char) : Bool := c ≠ '"' && !c.isDigit && !isNameStart c

theorem readPiece_other {c : Char} (hc : isOtherChar c = true) (cs : List Char)
    (hcomment : ¬ (c = '/' ∧ cs.head? = some '*')) (p : Position) : readPiece p c cs =
      match Symbol.leading? (c :: cs) with
      | some symbol => Piece.take (.symbol symbol) symbol.chars p (c :: cs)
      | none => Piece.take (.fault (.unexpectedCharacter c)) [c] p (c :: cs) := by
  simp only [isOtherChar, Bool.and_eq_true, decide_eq_true_eq, Bool.not_eq_true'] at hc
  obtain ⟨⟨hquote, hdigit⟩, hname⟩ := hc
  unfold readPiece
  refine (if_neg (by simpa using hcomment)).trans ((if_neg hquote).trans ?_)
  exact (if_neg (by simp [hdigit])).trans (if_neg (by simp [hname]))

/-- With what a text opens that starts with a token, in the order in which it is tried. -/
inductive Opening : Char → List Char → Prop
  /-- A block comment without an end. -/
  | comment {cs : List Char} : cs.head? = some '*' → Opening '/' cs
  | quote {cs : List Char} : Opening '"' cs
  | digit {c : Char} {cs : List Char} : c.isDigit = true → Opening c cs
  | name {c : Char} {cs : List Char} : isNameStart c = true → c.isDigit = false → Opening c cs
  | other {c : Char} {cs : List Char} : isOtherChar c = true →
    ¬ (c = '/' ∧ cs.head? = some '*') → Opening c cs

theorem opening (c : Char) (cs : List Char) : Opening c cs := by
  by_cases hcomment : c = '/' ∧ cs.head? = some '*'
  · obtain ⟨rfl, hstar⟩ := hcomment
    exact .comment hstar
  by_cases hquote : c = '"'
  · subst hquote
    exact .quote
  cases hdigit : c.isDigit with
  | true => exact .digit hdigit
  | false =>
    cases hname : isNameStart c with
    | true => exact .name hname hdigit
    | false => exact .other (by simp [isOtherChar, hquote, hdigit, hname]) hcomment

/-- A fault that runs to the end of the text takes all of it. -/
theorem cutsOff_of_unterminated (kind : TokenKind) {c : Char} {cs : List Char}
    (hkind : kind ≠ .endOfInput)
    (hread : ∀ q, readPiece q c cs = Piece.take kind (c :: cs) q (c :: cs)) (p : Position) :
    (readPiece p c cs).CutsOff c cs cs := by
  have h := cutsOff_of_take kind c cs [] hkind (fun _ => rfl) (fun q more hm => ?_) p
  · rwa [List.append_nil] at h
  · cases List.prefix_nil.mp hm
    simp only [List.append_nil]
    exact hread q

theorem readPiece_cutsOff_quote (p : Position) (cs : List Char) :
    ∃ tail, (readPiece p '"' cs).CutsOff '"' tail cs := by
  cases hstring : readString [] (p.advance '"') cs with
  | none =>
    refine ⟨cs, cutsOff_of_unterminated (.fault .unterminatedString) (by simp) (fun q => ?_) p⟩
    rw [readPiece_quote]
    -- Where the text stands does not decide whether the string is closed.
    cases hq : readString [] (q.advance '"') cs with
    | none => rfl
    | some found =>
      obtain ⟨body, rfl, hbody⟩ := readString_eq hq
      cases hstring.symm.trans (hbody _ _)
  | some found =>
    obtain ⟨text, stop, rest⟩ := found
    obtain ⟨body, rfl, hbody⟩ := readString_eq hstring
    refine ⟨body, ?_⟩
    rw [readPiece_quote, hstring]
    refine ⟨rfl, by simp, by simp, by simp [TokenKind.isUnterminated], fun q more _ => ?_⟩
    rw [readPiece_quote, hbody]
    rfl

theorem readPiece_cutsOff_name {c : Char} (hc : isNameStart c = true) (hdigit : c.isDigit = false)
    (p : Position) (cs : List Char) : ∃ tail, (readPiece p c cs).CutsOff c tail cs := by
  have hsplit := List.takeWhile_append_dropWhile (p := isNamePart) (l := cs)
  have h := cutsOff_of_take (nameKind (c :: cs.takeWhile isNamePart)) c (cs.takeWhile isNamePart)
    (cs.dropWhile isNamePart) ?_ ?_ (fun q more hm => ?_) p
  · rw [hsplit] at h
    exact ⟨_, h⟩
  · unfold nameKind
    split <;> simp
  · unfold nameKind
    split <;> nofun
  · rw [readPiece_name hc hdigit, (takeWhile_takeWhile_append hm).1, List.cons_append]

theorem readPiece_cutsOff_other {c : Char} (hc : isOtherChar c = true) (cs : List Char)
    (hcomment : ¬ (c = '/' ∧ cs.head? = some '*')) (p : Position) :
    ∃ tail, (readPiece p c cs).CutsOff c tail cs := by
  -- No comment starts at a shorter text either.
  have hread (q : Position) {ds : List Char} (hds : ds <+: cs) :=
    readPiece_other hc ds (fun h => hcomment ⟨h.1, head?_of_prefix hds h.2⟩) q
  cases hsymbol : Symbol.leading? (c :: cs) with
  | none =>
    refine ⟨[], cutsOff_of_take (.fault (.unexpectedCharacter c)) c [] cs (by simp) nofun
      (fun q more hm => ?_) p⟩
    rw [List.nil_append, hread q hm,
      Symbol.leading?_eq_none_of_prefix hsymbol (List.cons_prefix_cons.mpr ⟨rfl, hm⟩)]
    rfl
  | some symbol =>
    have hchars : symbol.chars <+: c :: cs := by
      have := List.find?_some hsymbol
      exact List.isPrefixOf_iff_prefix.mp this
    obtain ⟨d, tail, hd⟩ := List.exists_cons_of_ne_nil symbol.chars_ne_nil
    rw [hd] at hchars
    obtain ⟨rfl, rest, rfl⟩ := List.cons_prefix_cons.mp hchars
    refine ⟨tail, cutsOff_of_take (.symbol symbol) d tail rest (by simp) nofun
      (fun q more hm => ?_) p⟩
    have hm' : tail ++ more <+: tail ++ rest := (List.prefix_append_right_inj tail).mpr hm
    have hleading : Symbol.leading? (d :: (tail ++ more)) = some symbol := by
      refine Symbol.leading?_of_prefix hsymbol ?_ (List.cons_prefix_cons.mpr ⟨rfl, hm'⟩)
      rw [hd]
      exact List.prefix_append (d :: tail) more
    rw [hread q hm', hleading]
    show Piece.take (.symbol symbol) symbol.chars q (d :: (tail ++ more)) = _
    rw [hd, List.cons_append]

/-- Every token is cut off the front of the text. -/
theorem readPiece_cutsOff (p : Position) (c : Char) (cs : List Char) :
    ∃ tail, (readPiece p c cs).CutsOff c tail cs := by
  cases opening c cs with
  | comment hstar => exact ⟨cs, cutsOff_of_unterminated _ (by simp) (readPiece_comment hstar) p⟩
  | quote => exact readPiece_cutsOff_quote p cs
  | digit hdigit =>
    obtain ⟨tail, rest, rfl, -, hagain⟩ := numberText_eq hdigit cs
    refine ⟨tail, cutsOff_of_take .number c tail rest (by simp) nofun (fun q more hm => ?_) p⟩
    rw [readPiece_digit hdigit, hagain more hm, List.cons_append]
  | name hname hdigit => exact readPiece_cutsOff_name hname hdigit p cs
  | other hother hcomment => exact readPiece_cutsOff_other hother cs hcomment p

end Scriptlet
