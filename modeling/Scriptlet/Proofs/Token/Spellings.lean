import Scriptlet.Proofs.Syntax.Printing
import Scriptlet.Proofs.Token.Slices
import Scriptlet.Text.Quoted

/-!
# Texts that are read as given tokens

`Spelling cs ms` says that the text `cs` is read as tokens that say what the marks `ms` say,
wherever it stands and whatever is behind it, as long as that does not go on with a name or a
number (`Delimited`). Spellings of parts make a spelling of the whole: names, words and numbers
with something else behind them, quoted texts, and symbols.
-/

namespace Scriptlet

/-! ## Scanning from a position -/

/-- More fuel than characters is as good as any other such amount. -/
theorem scanFrom_congr {fuel fuel' : Nat} {cs : List Char} (h : cs.length < fuel)
    (h' : cs.length < fuel') (p : Position) : scanFrom fuel p cs = scanFrom fuel' p cs := by
  induction fuel generalizing fuel' p cs with
  | zero => omega
  | succ fuel ih =>
    obtain _ | fuel' := fuel'
    · omega
    obtain ⟨gap, rest, rfl, hskip, -, -⟩ := skipGap_eq .between p cs nofun
    rw [scanFrom, scanFrom, hskip]
    cases rest with
    | nil => rfl
    | cons c ds =>
      obtain ⟨tail, hpiece⟩ := readPiece_cutsOff (p.after gap) c ds
      have hlength := congrArg List.length hpiece.split
      simp only [List.length_append, List.length_cons] at h h' hlength
      exact congrArg _ (ih (by omega) (by omega) _)

/-- The tokens of the text `cs` that starts at `p`. -/
def tokensFrom (p : Position) (cs : List Char) : List Token := scanFrom (cs.length + 1) p cs

/-- One token is read, and then those behind it. -/
theorem tokensFrom_cons {c : Char} {tail rest : List Char} {kind : TokenKind} {lexeme : String}
    (hsolid : Solid (c :: (tail ++ rest))) {p : Position}
    (hread : readPiece p c (tail ++ rest) = ⟨kind, lexeme, p.after (c :: tail), rest⟩) :
    tokensFrom p (c :: (tail ++ rest)) =
      ⟨kind, lexeme, p⟩ :: tokensFrom (p.after (c :: tail)) rest := by
  unfold tokensFrom
  rw [scanFrom_of_solid hsolid, hread]
  refine congrArg _ (scanFrom_congr ?_ (Nat.lt_succ_self _) _)
  simp only [List.length_cons, List.length_append]
  omega

/-- A gap in front of a text changes nothing but where the text starts. -/
theorem tokensFrom_gap {gap : List Char} (h : Gap False gap) (p : Position) (cs : List Char) :
    tokensFrom p (gap ++ cs) = tokensFrom (p.after gap) cs := by
  have hmore : scanFrom ((gap ++ cs).length + 1) (p.after gap) cs = tokensFrom (p.after gap) cs :=
    scanFrom_congr (by simp only [List.length_append]; omega) (Nat.lt_succ_self _) _
  rw [← hmore, tokensFrom, scanFrom, scanFrom, skipGap_append h]

theorem tokensFrom_blank {c : Char} (hc : isGapChar c = true) (p : Position) (cs : List Char) :
    tokensFrom p (c :: cs) = tokensFrom (p.advance c) cs :=
  tokensFrom_gap (.blank hc .nil) p cs

/-! ## Spellings -/

/-- What may stand behind a name or a number: nothing that goes on with it. -/
def Delimited (cs : List Char) : Prop := ∀ c ∈ cs.head?, isNamePart c = false ∧ c ≠ '.'

theorem delimited_nil : Delimited [] := fun _ h => nomatch h

theorem delimited_cons {c : Char} (cs : List Char) (h : isNamePart c = false) (hc : c ≠ '.') :
    Delimited (c :: cs) := by
  rintro d ⟨⟩
  exact ⟨h, hc⟩

theorem delimited_blank (cs : List Char) : Delimited (' ' :: cs) := delimited_cons cs rfl (by decide)

/-- The text `cs` is read as tokens that say what the marks say. -/
def Spelling (cs : List Char) (ms : List Mark) : Prop := ∀ p rest, Delimited rest →
  ∃ ts, List.Forall₂ Mark.Matches ms ts ∧ tokensFrom p (cs ++ rest) = ts ++ tokensFrom (p.after cs) rest

namespace Spelling

variable {cs ds : List Char} {ms ms' : List Mark}

theorem nil : Spelling [] [] := fun _ _ _ => ⟨[], .nil, rfl⟩

/-- Two spellings one after the other, with something between them that ends a name. -/
theorem append (h : Spelling cs ms) (h' : Spelling ds ms')
    (hd : ∀ rest, Delimited rest → Delimited (ds ++ rest)) : Spelling (cs ++ ds) (ms ++ ms') := by
  intro p rest hrest
  obtain ⟨ts, hts, hscan⟩ := h p (ds ++ rest) (hd rest hrest)
  obtain ⟨us, hus, hscan'⟩ := h' (p.after cs) rest hrest
  refine ⟨ts ++ us, List.rel_append hts hus, ?_⟩
  rw [List.append_assoc, hscan, hscan', Position.after_append, List.append_assoc]

/-- A blank in front of a spelling. -/
theorem blank (h : Spelling cs ms) : Spelling (' ' :: cs) ms := by
  intro p rest hrest
  obtain ⟨ts, hts, hscan⟩ := h (p.advance ' ') rest hrest
  refine ⟨ts, hts, ?_⟩
  rw [List.cons_append, tokensFrom_blank rfl, hscan]
  rfl

/-- A token in front of a spelling, where what follows does not matter. -/
theorem cons {c : Char} (text : List Char) {m : Mark} (h : Spelling cs ms)
    (hm : ∀ p rest, Delimited rest → ∃ t, m.Matches t ∧
      tokensFrom p (c :: text ++ (cs ++ rest)) = t :: tokensFrom (p.after (c :: text)) (cs ++ rest)) :
    Spelling (c :: text ++ cs) (m :: ms) := by
  intro p rest hrest
  obtain ⟨t, ht, htoken⟩ := hm p rest hrest
  obtain ⟨ts, hts, hscan⟩ := h (p.after (c :: text)) rest hrest
  refine ⟨t :: ts, .cons ht hts, ?_⟩
  rw [List.append_assoc, htoken, hscan, Position.after_append]
  rfl

end Spelling

/-! ## One token -/

theorem solid_cons {c : Char} (hc : isGapChar c = false) (hslash : c ≠ '/') (cs : List Char) :
    Solid (c :: cs) where
  blank h := by
    cases h
    exact hc
  line h := hslash (List.cons_prefix_cons.mp h).1.symm
  block h := absurd (List.cons.inj h).1 hslash

/-- A symbol that is a single character, where no longer symbol starts with it. -/
theorem tokensFrom_symbol {c : Char} {s : Symbol} {cs : List Char} (hgap : isGapChar c = false)
    (hslash : c ≠ '/') (hc : isOtherChar c = true) (hs : s.chars = [c])
    (hleading : Symbol.leading? (c :: cs) = some s) (p : Position) :
    tokensFrom p (c :: cs) = ⟨.symbol s, String.ofList [c], p⟩ :: tokensFrom (p.advance c) cs := by
  have hread : readPiece p c ([] ++ cs) = ⟨.symbol s, String.ofList [c], p.after [c], cs⟩ := by
    rw [List.nil_append, readPiece_other hc cs (fun h => hslash h.1), hleading]
    show Piece.take (.symbol s) s.chars p (c :: cs) = _
    rw [hs]
    exact Piece.take_append (.symbol s) [c] cs p
  exact tokensFrom_cons (solid_cons hgap hslash _) hread

theorem toNat_lt_of_isDigit {c : Char} (h : c.isDigit = true) : c.toNat < 128 := by
  simp only [Char.isDigit, Bool.and_eq_true, decide_eq_true_eq] at h
  exact Nat.lt_of_le_of_lt (UInt32.le_iff_toNat_le.mp h.2) (by decide)

theorem isNamePart_of_isDigit {c : Char} (h : c.isDigit = true) : isNamePart c = true := by
  simp [isNamePart, Text.isNumeral_of_lt (toNat_lt_of_isDigit h), h]

theorem isNamePart_of_isNameStart {c : Char} (h : isNameStart c = true) : isNamePart c = true := by
  simp only [isNameStart, isNamePart, Bool.or_eq_true] at *
  tauto

/-- No name begins with a digit. -/
theorem isDigit_of_isNameStart {c : Char} (h : isNameStart c = true) : c.isDigit = false := by
  have hall : ∀ n < 128, (Char.ofNat n).isDigit = true → isNameStart (Char.ofNat n) = false := by
    decide +kernel
  rw [← Bool.not_eq_true]
  intro hdigit
  have hc := hall c.toNat (toNat_lt_of_isDigit hdigit)
  rw [Char.ofNat_toNat] at hc
  exact Bool.false_ne_true ((hc hdigit).symm.trans h)

/-- No gap starts with a character of a name. -/
theorem solid_of_namePart {c : Char} (hc : isNamePart c = true) (cs : List Char) :
    Solid (c :: cs) := by
  refine solid_cons ?_ (by rintro rfl; cases hc) cs
  cases hgap : isGapChar c with
  | false => rfl
  | true =>
    simp only [isGapChar, Bool.or_eq_true, decide_eq_true_eq] at hgap
    rcases hgap with ((rfl | rfl) | rfl) | rfl <;> cases hc

/-- What stands before something that does not go on with a name. -/
theorem takeWhile_of_delimited {q : Char → Bool} (hq : ∀ c, q c = true → isNamePart c = true)
    {cs rest : List Char} (hcs : ∀ c ∈ cs, q c = true) (h : Delimited rest) :
    (cs ++ rest).takeWhile q = cs ∧ (cs ++ rest).dropWhile q = rest := by
  have hrest : ∀ c ∈ rest.head?, ¬ q c = true := fun c hc hqc => by
    have hpart := (h c hc).1
    rw [hq c hqc] at hpart
    cases hpart
  rw [List.takeWhile_append_of_pos hcs, List.dropWhile_append_of_pos hcs]
  cases rest with
  | nil => simp
  | cons c rest => simp [hrest c rfl]

/-- A name or a word. -/
theorem tokensFrom_name {c : Char} {cs rest : List Char} (hc : isNameStart c = true)
    (hcs : ∀ c ∈ cs, isNamePart c = true) (h : Delimited rest) (p : Position) :
    tokensFrom p (c :: (cs ++ rest)) =
      ⟨nameKind (c :: cs), String.ofList (c :: cs), p⟩ :: tokensFrom (p.after (c :: cs)) rest := by
  refine tokensFrom_cons (solid_of_namePart (isNamePart_of_isNameStart hc) _) ?_
  rw [readPiece_name hc (isDigit_of_isNameStart hc), (takeWhile_of_delimited (fun _ h => h) hcs h).1]
  exact Piece.take_append _ (c :: cs) rest p

/-- A number without a fraction. -/
theorem tokensFrom_digits {c : Char} {cs rest : List Char} (hc : c.isDigit = true)
    (hcs : ∀ c ∈ cs, c.isDigit = true) (h : Delimited rest) (p : Position) :
    tokensFrom p (c :: (cs ++ rest)) =
      ⟨.number, String.ofList (c :: cs), p⟩ :: tokensFrom (p.after (c :: cs)) rest := by
  have hfraction : fraction rest = [] := by
    unfold fraction
    split
    · exact absurd rfl (h _ rfl).2
    · rfl
  obtain ⟨htake, hdrop⟩ := takeWhile_of_delimited (fun _ => isNamePart_of_isDigit) hcs h
  refine tokensFrom_cons (solid_of_namePart (isNamePart_of_isDigit hc) _) ?_
  rw [readPiece_digit hc, numberText_cons hc, htake, hdrop, hfraction, List.append_nil]
  exact Piece.take_append _ (c :: cs) rest p

/-! ## Spellings of single tokens -/

/-- The symbol `s` is the character `c`, and no longer symbol starts with it. -/
structure Symbol.IsChar (s : Symbol) (c : Char) : Prop where
  chars : s.chars = [c]
  leading (cs : List Char) : leading? (c :: cs) = some s
  gap : isGapChar c = false
  slash : c ≠ '/'
  other : isOtherChar c = true

namespace Spelling

variable {cs : List Char} {ms : List Mark}

/-- A symbol in front of a spelling. -/
theorem symbol {s : Symbol} {c : Char} (h : Spelling cs ms) (hs : s.IsChar c) :
    Spelling (c :: cs) (.symbol s :: ms) :=
  h.cons [] (m := .symbol s) fun p _ _ =>
    ⟨⟨.symbol s, String.ofList [c], p⟩, rfl,
      tokensFrom_symbol hs.gap hs.slash hs.other hs.chars (hs.leading _) p⟩

/-- A single token. -/
theorem single {c : Char} {cs : List Char} {m : Mark} {kind : TokenKind}
    (hm : ∀ p, m.Matches ⟨kind, String.ofList (c :: cs), p⟩)
    (hscan : ∀ p rest, Delimited rest → tokensFrom p (c :: (cs ++ rest)) =
      ⟨kind, String.ofList (c :: cs), p⟩ :: tokensFrom (p.after (c :: cs)) rest) :
    Spelling (c :: cs) [m] :=
  fun p rest hrest => ⟨[_], .cons (hm p) .nil, hscan p rest hrest⟩

theorem ofName {c : Char} {cs : List Char} {m : Mark} (hc : isNameStart c = true)
    (hcs : ∀ c ∈ cs, isNamePart c = true)
    (hm : ∀ p, m.Matches ⟨nameKind (c :: cs), String.ofList (c :: cs), p⟩) :
    Spelling (c :: cs) [m] :=
  single hm fun p _ hrest => tokensFrom_name hc hcs hrest p

end Spelling

/-- Of what a word is made. -/
theorem Keyword.exists_chars (word : Keyword) : ∃ c cs, word.text.toList = c :: cs ∧
    isNameStart c = true ∧ (∀ d ∈ cs, isNamePart d = true) ∧
    nameKind (c :: cs) = .keyword word := by
  have hall (cs : List Char) (h : cs.all isNamePart = true) : ∀ d ∈ cs, isNamePart d = true :=
    List.all_eq_true.mp h
  cases word <;> exact ⟨_, _, rfl, rfl, hall _ rfl, rfl⟩

theorem Spelling.word (word : Keyword) : Spelling word.text.toList [.keyword word] := by
  obtain ⟨c, cs, hword, hstart, hcs, hkind⟩ := word.exists_chars
  rw [hword]
  exact .ofName hstart hcs fun _ => hkind

/-! ## Names -/

/-- Whether the text is a name: scanned alone it is one name, with just this text. -/
def isName (x : String) : Prop :=
  (scan x).map (fun t => (t.kind, t.lexeme)) = [(.identifier, x), (.endOfInput, "")]

instance (x : String) : Decidable (isName x) := inferInstanceAs (Decidable (_ = _))

/-- Only a character of a name starts a name. -/
theorem isNameStart_of_kind {p : Position} {c : Char} {cs : List Char}
    (h : (readPiece p c cs).kind = .identifier) : isNameStart c = true := by
  cases opening c cs with
  | comment hstar =>
    rw [readPiece_comment hstar] at h
    cases h
  | quote =>
    rw [readPiece_quote] at h
    split at h <;> cases h
  | digit hdigit =>
    rw [readPiece_digit hdigit] at h
    cases h
  | name hname => exact hname
  | other hother hcomment =>
    rw [readPiece_other hother cs hcomment] at h
    split at h <;> cases h

/-- Of what a name is made. -/
theorem exists_of_isName {x : String} (h : isName x) : ∃ c cs, x.toList = c :: cs ∧
    isNameStart c = true ∧ (∀ c ∈ cs, isNamePart c = true) ∧
    nameKind (c :: cs) = .identifier := by
  obtain ⟨gap, rest, -, hskip, -, -⟩ := skipGap_eq .between Position.start x.toList nofun
  unfold isName scan at h
  dsimp only at h
  rw [scanFrom, hskip] at h
  cases rest with
  | nil => cases h
  | cons c ds =>
    simp only [List.map_cons, List.cons.injEq, Prod.mk.injEq] at h
    obtain ⟨⟨hkind, hlexeme⟩, -⟩ := h
    have hstart := isNameStart_of_kind hkind
    rw [readPiece_name hstart (isDigit_of_isNameStart hstart)] at hkind hlexeme
    have hchars : x.toList = c :: ds.takeWhile isNamePart := by
      rw [← hlexeme]
      exact String.toList_ofList
    exact ⟨c, _, hchars, hstart, List.all_eq_true.mp List.all_takeWhile, hkind⟩

theorem Spelling.name {x : String} (h : isName x) : Spelling x.toList [.name x] := by
  obtain ⟨c, cs, hx, hstart, hcs, hkind⟩ := exists_of_isName h
  rw [hx]
  refine .ofName hstart hcs fun p => ⟨hkind, ?_⟩
  rw [← hx]
  exact String.ofList_toList

/-! ## Numbers -/

theorem splitSign_of_isDigit {c : Char} (hc : c.isDigit = true) (cs : List Char) :
    Number.splitSign (c :: cs) = (false, c :: cs) := by
  unfold Number.splitSign
  split
  · rename_i heq
    cases heq
    cases hc
  · rename_i heq
    cases heq
    cases hc
  · rfl

/-- Digits are read as the whole number that they are the digits of, if it fits in 64 bits. -/
theorem readInteger?_digits {c : Char} {cs : List Char}
    (hall : ∀ d ∈ c :: cs, d.isDigit = true) :
    Number.readInteger? (String.ofList (c :: cs)) =
      Number.word? (Number.digitsValue (c :: cs)) := by
  have hdigits : (c :: cs).all Char.isDigit = true := List.all_eq_true.mpr hall
  unfold Number.readInteger?
  rw [String.toList_ofList, splitSign_of_isDigit (hall c List.mem_cons_self)]
  simp only [List.isEmpty_cons, hdigits, Bool.not_true, Bool.or_self, Bool.false_eq_true,
    ↓reduceIte]

/-- Digits are read as the number that they are the digits of, if it is small enough. -/
theorem numberLiteral?_digits {c : Char} {cs : List Char}
    (hall : ∀ d ∈ c :: cs, d.isDigit = true) (p : Position)
    (hn : Number.digitsValue (c :: cs) ≤ 9223372036854775807) :
    numberLiteral? ⟨.number, String.ofList (c :: cs), p⟩ =
      some (.integer p (Int64.ofInt (Number.digitsValue (c :: cs)))) := by
  have hpoint : (c :: cs).contains '.' = false := by
    rw [List.contains_eq_any_beq, List.any_eq_false]
    intro d hd hdot
    have hdigit := hall d hd
    rw [← eq_of_beq hdot] at hdigit
    cases hdigit
  have hread : Number.readInteger? (String.ofList (c :: cs)) =
      some (Int64.ofInt (Number.digitsValue (c :: cs))) :=
    (readInteger?_digits hall).trans (if_pos ⟨by omega, by omega⟩)
  unfold numberLiteral?
  simp only [String.toList_ofList, hpoint, Bool.false_eq_true, ↓reduceIte, hread]

/-- The digits of a natural number that is small enough. -/
theorem Spelling.digits {n : Nat} (hn : n ≤ 9223372036854775807) :
    Spelling (Nat.toDigits 10 n) [.integer (Int64.ofInt n)] := by
  obtain ⟨c, cs, hdigits⟩ := List.exists_cons_of_ne_nil (Nat.toDigits_ne_nil (n := n) (b := 10))
  have hall : ∀ d ∈ c :: cs, d.isDigit = true := fun d hd =>
    Nat.isDigit_of_mem_toDigits (b := 10) (n := n) (by decide) (by decide) (hdigits ▸ hd)
  have hvalue : Number.digitsValue (c :: cs) = n := by
    rw [← hdigits]
    exact Nat.ofDigitChars_eq_foldl.symm.trans Nat.ofDigitChars_ten_toDigits
  rw [hdigits]
  refine .single (fun p => ⟨rfl, ?_⟩) fun p rest hrest => ?_
  · rw [← hvalue] at hn ⊢
    exact numberLiteral?_digits hall p hn
  · exact tokensFrom_digits (hall c List.mem_cons_self)
      (fun d hd => hall d (List.mem_cons_of_mem _ hd)) hrest p

/-! ## Quoted texts -/

/-- The text `cs` stands for the character `c` in a string: it is an escape for it, or the character
itself. -/
def Writes (cs : List Char) (c : Char) : Prop :=
  (∃ d, cs = ['\\', d] ∧ unescape d = [c]) ∨ cs = [c] ∧ c ≠ '"' ∧ c ≠ '\\'

/-- A string is read as what its characters stand for, up to the quote behind them. -/
theorem readString_flatMap {f : Char → List Char} {cs : List Char} (h : ∀ c ∈ cs, Writes (f c) c)
    (read : List Char) (p : Position) (rest : List Char) :
    readString read p (cs.flatMap f ++ '"' :: rest) =
      some (String.ofList (read.reverse ++ cs), p.after (cs.flatMap f ++ ['"']), rest) := by
  induction cs generalizing read p with
  | nil => simp [readString]
  | cons c cs ih =>
    have hcs : ∀ d ∈ cs, Writes (f d) d := fun d hd => h d (List.mem_cons_of_mem _ hd)
    obtain ⟨d, hwritten, hunescape⟩ | ⟨hwritten, hquote, hescape⟩ := h c List.mem_cons_self
    · rw [List.flatMap_cons, hwritten]
      simp only [List.cons_append, List.nil_append]
      rw [readString.eq_4, ih hcs, hunescape]
      simp
    · rw [List.flatMap_cons, hwritten]
      simp only [List.cons_append, List.nil_append]
      rw [readString.eq_5 _ _ _ _ hquote (fun he => absurd he hescape)
        fun _ _ he => absurd he hescape, ih hcs]
      simp

/-- A string with its quotes around it, whatever follows. -/
theorem tokensFrom_string {f : Char → List Char} {cs : List Char} (h : ∀ c ∈ cs, Writes (f c) c)
    (p : Position) (rest : List Char) : tokensFrom p ('"' :: (cs.flatMap f ++ ['"'] ++ rest)) =
      ⟨.string, String.ofList cs, p⟩ ::
        tokensFrom (p.after ('"' :: (cs.flatMap f ++ ['"']))) rest := by
  refine tokensFrom_cons (solid_cons rfl (by decide) _) ?_
  rw [readPiece_quote, List.append_assoc, List.singleton_append, readString_flatMap h]
  rfl

/-- A character that a quoted text shows as itself, or by an escape that a string may contain. -/
def Text.isPlain (c : Char) : Bool :=
  c ≠ '\x00' && (c = '\t' || c = '\r' || c = '\n' || c = '"' || c = '\\' ||
    isPrintable c && !(isExtending c && !isHalfwidthMark c))

theorem Text.writes_quotedChar {c : Char} (h : isPlain c = true) : Writes (quotedChar c) c := by
  simp only [isPlain, Bool.and_eq_true, Bool.or_eq_true, decide_eq_true_eq] at h
  obtain ⟨hzero, ((((rfl | rfl) | rfl) | rfl) | rfl) | ⟨hprint, hextend⟩⟩ := h
  · exact .inl ⟨'t', rfl, rfl⟩
  · exact .inl ⟨'r', rfl, rfl⟩
  · exact .inl ⟨'n', rfl, rfl⟩
  · exact .inl ⟨'"', rfl, rfl⟩
  · exact .inl ⟨'\\', rfl, rfl⟩
  · unfold quotedChar
    split
    · contradiction
    split
    · exact .inl ⟨'t', rfl, by simp [unescape, *]⟩
    split
    · exact .inl ⟨'r', rfl, by simp [unescape, *]⟩
    split
    · exact .inl ⟨'n', rfl, by simp [unescape, *]⟩
    split
    · exact .inl ⟨'"', rfl, by simp [unescape, *]⟩
    split
    · exact .inl ⟨'\\', rfl, by simp [unescape, *]⟩
    rename_i hquote hescape
    refine .inr ⟨?_, hquote, hescape⟩
    have hshown : ((isExtending c && !isHalfwidthMark c) || !isPrintable c) = false := by
      rw [hprint, (Bool.not_eq_true' _).mp hextend]
      rfl
    rw [hshown]
    rfl

theorem Spelling.quoted {x : String} (h : ∀ c ∈ x.toList, Text.isPlain c = true) :
    Spelling (Text.quoted x).toList [.text x] := by
  intro p rest _
  refine ⟨[⟨.string, x, p⟩], .cons ⟨rfl, rfl⟩ .nil, ?_⟩
  have hscan := tokensFrom_string (fun c hc => Text.writes_quotedChar (h c hc)) p rest
  rw [String.ofList_toList] at hscan
  rw [Text.quoted, String.toList_ofList]
  exact hscan

end Scriptlet
