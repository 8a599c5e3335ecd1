import Mathlib

/-!
# The order of encoded texts

In UTF-8 a character is a first byte, which says how many bytes follow, and then its digits to the
base 64 (`utf8EncodeChar_eq`). Both grow with the character, and no encoding is the beginning of
another one, so two characters decide the order of their encodings whatever stands behind them
(`utf8EncodeChar_lt`). Hence texts are in the same order byte by byte as character by character
(`flatMap_utf8EncodeChar_lt_iff`).
-/

namespace Scriptlet.Text

open String (utf8EncodeChar)

/-- The bytes of a text in UTF-8. -/
def utf8 (s : String) : List UInt8 := s.toUTF8.data.toList

theorem utf8_eq (s : String) : utf8 s = s.toList.flatMap utf8EncodeChar := by
  unfold utf8
  rw [String.toUTF8_eq_toByteArray, ← String.utf8Encode_toList, List.utf8Encode,
    List.toList_data_toByteArray]

/-! ## One character -/

/-- How many bytes follow the first one in the encoding of the character with the code `v`. -/
def followers (v : Nat) : Nat :=
  if v ≤ 0x7f then 0 else if v ≤ 0x7ff then 1 else if v ≤ 0xffff then 2 else 3

/-- The bits that mark the first byte of an encoding of `k + 1` bytes. -/
def firstMark : Nat → Nat
  | 0 => 0
  | 1 => 0xc0
  | 2 => 0xe0
  | _ => 0xf0

/-- The first byte of the encoding of the character with the code `v`. -/
def firstByte (v : Nat) : Nat := v / 64 ^ followers v + firstMark (followers v)

/-- The last `k` digits of `v` to the base 64, each in a byte of its own. -/
def digitBytes : (k : Nat) → Nat → List UInt8
  | 0, _ => []
  | k + 1, v => UInt8.ofNat (v / 64 ^ k % 64 + 0x80) :: digitBytes k v

theorem utf8EncodeChar_eq (c : Char) : utf8EncodeChar c =
    UInt8.ofNat (firstByte c.toNat) :: digitBytes (followers c.toNat) c.toNat := by
  have hcode : c.val.toNat = c.toNat := rfl
  have hle : c.toNat ≤ 0x10ffff := c.toNat_le_max
  unfold utf8EncodeChar firstByte followers
  rw [hcode]
  dsimp only
  split
  · simp [digitBytes, firstMark]
  split
  · have hfirst : c.toNat / 64 % 32 = c.toNat / 64 := by omega
    simp [digitBytes, firstMark, hfirst]
  split
  · have hfirst : c.toNat / 4096 % 16 = c.toNat / 4096 := by omega
    simp [digitBytes, firstMark, hfirst]
  · have hfirst : c.toNat / 262144 % 8 = c.toNat / 262144 := by omega
    simp [digitBytes, firstMark, hfirst]

theorem ofNat_lt_ofNat {a b : Nat} (hb : b < 256) (h : a < b) : UInt8.ofNat a < UInt8.ofNat b := by
  rw [UInt8.lt_iff_toNat_lt, UInt8.toNat_ofNat', UInt8.toNat_ofNat']
  omega

/-- Of two numbers that agree in the digits before the last `k`, the smaller one has the smaller
digits, whatever stands behind them. -/
theorem digitBytes_lt {k v w : Nat} (h : v < w) (heq : v / 64 ^ k = w / 64 ^ k)
    (bs bs' : List UInt8) : digitBytes k v ++ bs < digitBytes k w ++ bs' := by
  induction k with
  | zero =>
    rw [Nat.pow_zero, Nat.div_one, Nat.div_one] at heq
    omega
  | succ k ih =>
    rw [Nat.pow_succ, ← Nat.div_div_eq_div_mul, ← Nat.div_div_eq_div_mul] at heq
    have hle : v / 64 ^ k ≤ w / 64 ^ k := Nat.div_le_div_right (Nat.le_of_lt h)
    rw [digitBytes, digitBytes, List.cons_append, List.cons_append, List.cons_lt_cons_iff]
    rcases Nat.lt_or_eq_of_le hle with hlt | hsame
    · exact .inl (ofNat_lt_ofNat (by omega) (by omega))
    · exact .inr ⟨by rw [hsame], ih hsame⟩

/-- The first byte grows with the character. Where it is the same, as many bytes follow, and the
digits in it are the same. -/
theorem firstByte_cases {v w : Nat} (h : v < w) : firstByte v < firstByte w ∨
    firstByte v = firstByte w ∧ followers v = followers w ∧
      v / 64 ^ followers v = w / 64 ^ followers w := by
  unfold firstByte followers
  repeat' split
  all_goals
    simp only [firstMark, Nat.reducePow, true_and]
    omega

theorem firstByte_lt {v : Nat} (h : v ≤ 0x10ffff) : firstByte v < 256 := by
  unfold firstByte followers
  repeat' split
  all_goals
    simp only [firstMark, Nat.reducePow]
    omega

/-- The smaller character has the smaller encoding, whatever stands behind the two. -/
theorem utf8EncodeChar_lt {c d : Char} (h : c < d) (bs bs' : List UInt8) :
    utf8EncodeChar c ++ bs < utf8EncodeChar d ++ bs' := by
  have hcode : c.toNat < d.toNat := h
  rw [utf8EncodeChar_eq, utf8EncodeChar_eq, List.cons_append, List.cons_append,
    List.cons_lt_cons_iff]
  rcases firstByte_cases hcode with hfirst | ⟨hfirst, hfollow, hdigits⟩
  · exact .inl (ofNat_lt_ofNat (firstByte_lt d.toNat_le_max) hfirst)
  · rw [hfollow] at hdigits
    rw [hfirst, hfollow]
    exact .inr ⟨rfl, digitBytes_lt hcode hdigits bs bs'⟩

/-! ## Texts -/

theorem flatMap_utf8EncodeChar_lt {cs ds : List Char} (h : cs < ds) :
    cs.flatMap utf8EncodeChar < ds.flatMap utf8EncodeChar := by
  induction cs generalizing ds with
  | nil =>
    cases ds with
    | nil => cases h
    | cons d ds =>
      rw [List.flatMap_cons, utf8EncodeChar_eq]
      exact List.nil_lt_cons _ _
  | cons c cs ih =>
    cases ds with
    | nil => cases h
    | cons d ds =>
      rw [List.flatMap_cons, List.flatMap_cons]
      rcases List.cons_lt_cons_iff.mp h with hchar | ⟨rfl, hrest⟩
      · exact utf8EncodeChar_lt hchar _ _
      · exact List.append_left_lt (ih hrest)

/-- The encodings are in the order of the texts. -/
theorem flatMap_utf8EncodeChar_lt_iff {cs ds : List Char} :
    cs.flatMap utf8EncodeChar < ds.flatMap utf8EncodeChar ↔ cs < ds := by
  refine ⟨fun h => ?_, flatMap_utf8EncodeChar_lt⟩
  rcases lt_trichotomy cs ds with hlt | rfl | hgt
  · exact hlt
  · exact absurd h (List.lt_irrefl _)
  · exact absurd h (List.lt_asymm (flatMap_utf8EncodeChar_lt hgt))

theorem utf8_lt_iff {s t : String} : utf8 s < utf8 t ↔ s.toList < t.toList := by
  rw [utf8_eq, utf8_eq, flatMap_utf8EncodeChar_lt_iff]

end Scriptlet.Text
