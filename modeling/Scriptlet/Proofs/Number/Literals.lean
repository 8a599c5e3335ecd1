import Mathlib.Data.List.TakeWhile
import Scriptlet.Proofs.Number.Arithmetic
import Scriptlet.Proofs.Token.Rendering

/-!
# What a number token stands for

The scanner makes a number of digits, with a point among them only if digits stand on both
sides of it (`admits_of_number`). Such a text can always be read. It stands for a whole
number if it has no point and its decimal value fits in 64 bits, and else for the nearest
floating point number: `Token.Denotes` says so without the reader, and `Token.Denotes.unique` that
a number token stands for one literal, which is the one that is read.
-/

namespace Scriptlet

/-- The number that the text has as its digits. -/
def Token.decimal (t : Token) : Nat := Nat.ofDigitChars 10 t.lexeme.toList 0

/-- The literal that a number token stands for. -/
inductive Token.Denotes (t : Token) : Expr → Prop
  | integer {n : Int64} : '.' ∉ t.lexeme.toList → t.decimal ≤ 2 ^ 63 - 1 → n.toInt = t.decimal →
    Denotes t (.integer t.position n)
  | float {x : Float} : '.' ∈ t.lexeme.toList ∨ 2 ^ 63 - 1 < t.decimal →
    Number.readFloat? t.lexeme = some x → Denotes t (.float t.position x)

/-! ## Number tokens of a text -/

theorem fraction_cases (ds : List Char) : fraction ds = [] ∨ ∃ d es, fraction ds = '.' :: d :: es ∧
    d.isDigit = true ∧ ∀ e ∈ es, e.isDigit = true := by
  fun_cases fraction ds with
  | case1 d more hd => exact .inr ⟨d, _, rfl, hd, fun e he => List.mem_takeWhile_imp he⟩
  | case2 | case3 => exact .inl rfl

/-- Only a digit starts a number. -/
theorem isDigit_of_number {p : Position} {c : Char} {cs : List Char}
    (h : (readPiece p c cs).kind = .number) : c.isDigit = true := by
  cases opening c cs with
  | comment hstar =>
    rw [readPiece_comment hstar] at h
    cases h
  | quote =>
    rw [readPiece_quote] at h
    split at h <;> cases h
  | digit hdigit => exact hdigit
  | name hname hdigit =>
    rw [readPiece_name hname hdigit] at h
    simp only [Piece.take, nameKind] at h
    split at h <;> cases h
  | other hother hcomment =>
    rw [readPiece_other hother cs hcomment] at h
    split at h <;> cases h

theorem admits_of_readPiece {p : Position} {c : Char} {cs : List Char}
    (h : (readPiece p c cs).kind = .number) :
    TokenKind.Admits .number (readPiece p c cs).lexeme.toList := by
  have hc := isDigit_of_number h
  have hwhole : ∀ e ∈ cs.takeWhile Char.isDigit, e.isDigit = true := fun e he =>
    List.mem_takeWhile_imp he
  rw [readPiece_digit hc, numberText_cons hc]
  simp only [Piece.take, String.toList_ofList]
  obtain hnone | ⟨d, es, hfraction, hd, hes⟩ := fraction_cases (cs.dropWhile Char.isDigit)
  · rw [hnone, List.append_nil]
    exact .whole hc hwhole
  · rw [hfraction]
    exact .decimal hc hwhole hd hes

/-- The text of a number token is made of digits, or of digits on both sides of a point. -/
theorem admits_of_number {source : String} {t : Token} (ht : t ∈ scan source)
    (hk : t.kind = .number) : TokenKind.Admits .number t.lexeme.toList := by
  have hscan (fuel : Nat) (p : Position) (cs : List Char) : ∀ t ∈ scanFrom fuel p cs,
      t.kind = .number → TokenKind.Admits .number t.lexeme.toList := by
    induction fuel generalizing p cs with
    | zero => simp [scanFrom]
    | succ fuel ih =>
      rw [scanFrom]
      split
      · simp
      · rename_i p c cs _
        exact List.forall_mem_cons.mpr ⟨admits_of_readPiece, ih _ _⟩
  exact hscan _ _ _ t ht hk

/-! ## Reading the text of a number -/

namespace Number

theorem digitsValue_eq (cs : List Char) : digitsValue cs = Nat.ofDigitChars 10 cs 0 :=
  Nat.ofDigitChars_eq_foldl.symm

/-- Digits with a fraction are all of the coefficient; the exponent says how many belong to the
fraction. -/
theorem read?_fraction {cs ds : List Char} (hcs : ∀ e ∈ cs, e.isDigit = true) (hne : cs ≠ [])
    (hds : ∀ e ∈ ds, e.isDigit = true) : Decimal.read? (cs ++ '.' :: ds) =
      some ⟨digitsValue (cs ++ ds), -(ds.length : Int)⟩ := by
  have htake : (cs ++ '.' :: ds).takeWhile Char.isDigit = cs := by
    rw [List.takeWhile_append_of_pos hcs]
    simp
  have hdrop : (cs ++ '.' :: ds).dropWhile Char.isDigit = '.' :: ds := by
    rw [List.dropWhile_append_of_pos hcs]
    rfl
  unfold Decimal.read?
  simp [htake, hdrop, List.takeWhile_eq_self_iff.mpr hds, List.dropWhile_eq_nil_iff.mpr hds, hne]

theorem read?_digits {cs : List Char} (hcs : ∀ e ∈ cs, e.isDigit = true) (hne : cs ≠ []) :
    Decimal.read? cs = some ⟨digitsValue cs, 0⟩ := by
  unfold Decimal.read?
  simp [List.takeWhile_eq_self_iff.mpr hcs, List.dropWhile_eq_nil_iff.mpr hcs, hne]

theorem toLower_of_isDigit {c : Char} (h : c.isDigit = true) : c.toLower = c := by
  simp only [Char.isDigit, Bool.and_eq_true, decide_eq_true_eq] at h
  have h57 := UInt32.le_iff_toNat_le.mp h.2
  unfold Char.toLower
  rw [dif_neg]
  intro hupper
  have h65 := UInt32.le_iff_toNat_le.mp hupper.1
  simp only [UInt32.reduceToNat, Char.reduceVal] at h57 h65
  omega

/-- A text that starts with a digit has no sign and is no word. -/
theorem readFloat?_of_isDigit {s : String} {c : Char} {cs : List Char} (hs : s.toList = c :: cs)
    (hc : c.isDigit = true) : readFloat? s = (Decimal.read? (c :: cs)).map (Decimal.toFloat false) := by
  have hword (word : String) (d : Char) (ds : List Char) (hw : word.toList = d :: ds)
      (hd : d.isDigit = false) : String.ofList ((c :: cs).map Char.toLower) ≠ word := by
    rintro rfl
    rw [String.toList_ofList, List.map_cons, toLower_of_isDigit hc, List.cons.injEq] at hw
    rw [← hw.1, hc] at hd
    cases hd
  unfold readFloat?
  rw [hs, splitSign_of_isDigit hc]
  simp [-List.map_cons, hword "inf" _ _ rfl rfl, hword "infinity" _ _ rfl rfl, hword "nan" _ _ rfl rfl]

theorem exists_readFloat? {s : String} (h : TokenKind.Admits .number s.toList) :
    ∃ x, readFloat? s = some x := by
  generalize hs : s.toList = text at h
  cases h with
  | whole hc hcs =>
    rw [readFloat?_of_isDigit hs hc, read?_digits (List.forall_mem_cons.mpr ⟨hc, hcs⟩) nofun]
    exact ⟨_, rfl⟩
  | @decimal c d cs ds hc hcs hd hds =>
    rw [readFloat?_of_isDigit hs hc, ← List.cons_append, read?_fraction
      (List.forall_mem_cons.mpr ⟨hc, hcs⟩) nofun (List.forall_mem_cons.mpr ⟨hd, hds⟩)]
    exact ⟨_, rfl⟩

end Number

/-! ## The literal of a number token -/

theorem TokenKind.Admits.dot_or_digits {text : List Char} (h : TokenKind.Admits .number text) :
    '.' ∈ text ∨ '.' ∉ text ∧ ∃ c cs, text = c :: cs ∧ ∀ e ∈ c :: cs, e.isDigit = true := by
  cases h with
  | @whole c cs hc hcs =>
    have hall : ∀ e ∈ c :: cs, e.isDigit = true := List.forall_mem_cons.mpr ⟨hc, hcs⟩
    exact .inr ⟨fun hdot => Bool.false_ne_true (hall _ hdot), _, _, rfl, hall⟩
  | decimal => exact .inl (by simp)

/-- What is read of a number token is what it stands for. -/
theorem exists_denotes {t : Token} (h : TokenKind.Admits .number t.lexeme.toList) :
    ∃ e, numberLiteral? t = some e ∧ t.Denotes e := by
  obtain ⟨x, hx⟩ := Number.exists_readFloat? h
  obtain hdot | ⟨hdot, c, cs, htext, hall⟩ := h.dot_or_digits
  · refine ⟨.float t.position x, ?_, .float (.inl hdot) hx⟩
    simp [numberLiteral?, hdot, hx]
  have hread : Number.readInteger? t.lexeme = Number.word? t.decimal := by
    rw [Token.decimal, ← Number.digitsValue_eq, htext, ← readInteger?_digits hall, ← htext,
      String.ofList_toList]
  by_cases hfits : t.decimal ≤ 2 ^ 63 - 1
  · obtain ⟨n, hn⟩ := (Number.fits_iff t.decimal).mp ⟨by omega, by omega⟩
    refine ⟨.integer t.position n, ?_, .integer hdot hfits hn⟩
    have hsome := hread.trans ((Number.word?_eq_some_iff _ n).mpr hn)
    simp [numberLiteral?, hdot, hsome]
  · refine ⟨.float t.position x, ?_, .float (.inr (by omega)) hx⟩
    have hnone : Number.readInteger? t.lexeme = none := by
      refine hread.trans ((Number.word?_eq_none_iff _).mpr fun hn => hfits ?_)
      have hle : (t.decimal : Int) ≤ 2 ^ 63 - 1 := hn.2
      omega
    simp [numberLiteral?, hdot, hnone, hx]

/-- A number token stands for one literal only. -/
theorem Token.Denotes.unique {t : Token} {e e' : Expr} (h : t.Denotes e) (h' : t.Denotes e') :
    e = e' := by
  cases h with
  | integer hdot hfits hn =>
    cases h' with
    | integer _ _ hn' => rw [Int64.toInt_inj.mp (hn.trans hn'.symm)]
    | float hother => exact absurd hother (not_or.mpr ⟨hdot, Nat.not_lt_of_le hfits⟩)
  | float hother hx =>
    cases h' with
    | integer hdot hfits => exact absurd hother (not_or.mpr ⟨hdot, Nat.not_lt_of_le hfits⟩)
    | float _ hx' => rw [Option.some.inj (hx.symm.trans hx')]

end Scriptlet
