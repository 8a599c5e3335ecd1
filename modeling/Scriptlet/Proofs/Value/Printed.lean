import Scriptlet.Proofs.Syntax.RoundTrip
import Scriptlet.Proofs.Token.Spellings
import Scriptlet.Value.Render

/-!
# The text of data is an expression

Data are values without functions, instances, classes and floating point numbers, of which no
more than a number of levels lie inside each other (`Heap.IsData`). The text that shows such a
value is scanned as the tokens that `Heap.marks` lists (`Heap.spelling_render`).
-/

namespace Scriptlet

open Grammar

namespace Heap

/-- The value is made of null, undefined, truth values, integers, texts, arrays and objects, with at
most `levels` arrays and objects inside each other. The least integer is left out, since no literal
with a minus in front of it is that number; a text holds only characters that can be read back, and
a key is a name. -/
inductive IsData (h : Heap) : (levels : Nat) → Value → Prop
  | undefined {levels : Nat} : IsData h levels .undefined
  | null {levels : Nat} : IsData h levels .null
  | boolean {levels : Nat} (b : Bool) : IsData h levels (.boolean b)
  | integer {levels : Nat} {n : Int64} : n ≠ Int64.minValue → IsData h levels (.integer n)
  | string {levels : Nat} {s : String} : (∀ c ∈ s.toList, Text.isPlain c = true) →
    IsData h levels (.string s)
  | array {levels : Nat} {r : Ref .array} {items : Array Value} : h.arrays.get? r = some items →
    (∀ v ∈ items.toList, IsData h levels v) → IsData h (levels + 1) (.array r)
  | object {levels : Nat} {r : Ref .object} {es : OrderedMap Value} : h.objects.get? r = some es →
    (∀ e ∈ es.entries, isName e.1) → (∀ e ∈ es.entries, IsData h levels e.2) →
    IsData h (levels + 1) (.object r)

theorem items_of_get? {h : Heap} {r : Ref .array} {items : Array Value}
    (hr : h.arrays.get? r = some items) : h.items r = items := by rw [Heap.items, hr]; rfl

theorem entries_of_get? {h : Heap} {r : Ref .object} {es : OrderedMap Value}
    (hr : h.objects.get? r = some es) : h.entries r = es := by rw [Heap.entries, hr]; rfl

/-- What the tokens of the text of a value say. -/
def marks (h : Heap) : (levels : Nat) → Value → List Mark
  | _, .undefined => [.keyword .undefinedWord]
  | _, .null => [.keyword .nullWord]
  | _, .boolean b => [.keyword (if b then .trueWord else .falseWord)]
  | _, .integer n =>
    if 0 ≤ n.toInt then [.integer n] else [.symbol .minus, .integer (Int64.ofInt (-n.toInt))]
  | _, .string s => [.text s]
  | levels + 1, .array r =>
    bracketed .leftBracket .rightBracket (separated ((h.items r).toList.map (h.marks levels)))
  | levels + 1, .object r =>
    bracketed .leftBrace .rightBrace (separated ((h.entries r).entries.map fun e =>
      .name e.1 :: .symbol .colon :: h.marks levels e.2))
  | _, _ => []

end Heap

/-! ## The text as tokens -/

namespace Spelling

variable {cs : List Char} {ms : List Mark}

theorem comma (h : Spelling cs ms) : Spelling (',' :: cs) (.symbol .comma :: ms) :=
  h.symbol ⟨rfl, fun _ => rfl, rfl, by decide, rfl⟩

theorem colon (h : Spelling cs ms) : Spelling (':' :: cs) (.symbol .colon :: ms) :=
  h.symbol ⟨rfl, fun _ => rfl, rfl, by decide, rfl⟩

/-- A text between two brackets. -/
theorem bracketed {left right : Symbol} {l r : Char} (hl : left.IsChar l) (hr : right.IsChar r)
    (hstop : isNamePart r = false ∧ r ≠ '.') (h : Spelling cs ms) :
    Spelling (l :: (cs ++ [r])) (Scriptlet.bracketed left right ms) :=
  (h.append (nil.symbol hr) fun _ _ => delimited_cons _ hstop.1 hstop.2).symbol hl

/-- Texts with a comma and a blank between any two. -/
theorem separated {α : Type} {f : α → List Char} {g : α → List Mark} {as : List α}
    (h : ∀ a ∈ as, Spelling (f a) (g a)) :
    Spelling ([',', ' '].intercalate (as.map f)) (Scriptlet.separated (as.map g)) := by
  induction as with
  | nil => exact nil
  | cons a as ih =>
    have ha := h a List.mem_cons_self
    have hrest := ih fun a ha => h a (List.mem_cons_of_mem _ ha)
    cases as with
    | nil =>
      rw [List.map_singleton, List.intercalate_singleton]
      exact ha
    | cons b as =>
      rw [List.map_cons, List.map_cons, List.intercalate_cons_cons, List.append_assoc]
      exact ha.append hrest.blank.comma fun _ _ => delimited_cons _ rfl (by decide)

/-- A number with a minus in front of it. -/
theorem minus {n : Nat} (hn : n ≤ 9223372036854775807) :
    Spelling ('-' :: Nat.toDigits 10 n) [.symbol .minus, .integer (Int64.ofInt n)] :=
  (digits hn).symbol ⟨rfl, fun _ => rfl, rfl, by decide, rfl⟩

end Spelling

theorem toList_toString_int (a : Int) : (toString a).toList =
    if 0 ≤ a then Nat.toDigits 10 a.toNat else '-' :: Nat.toDigits 10 (-a).toNat := by
  rw [Int.toString_eq_repr, Int.repr_eq_if]
  split
  · rw [Nat.repr_eq_ofList_toDigits, String.toList_ofList]
  · rw [Nat.repr_eq_ofList_toDigits, String.toList_append, String.toList_ofList]
    exact congrArg ('-' :: ·) String.toList_ofList

theorem Int64.neg_toInt_le {n : Int64} (hn : n ≠ Int64.minValue) :
    -n.toInt ≤ 9223372036854775807 := by
  have hlo := n.le_toInt
  have hne : n.toInt ≠ Int64.minValue.toInt := fun h => hn (Int64.toInt_inj.mp h)
  simp only [Int64.toInt_minValue] at hne
  omega

theorem spelling_integer {n : Int64} (hn : n ≠ Int64.minValue) :
    Spelling (toString n.toInt).toList (if 0 ≤ n.toInt then [.integer n]
      else [.symbol .minus, .integer (Int64.ofInt (-n.toInt))]) := by
  have hlo := Int64.neg_toInt_le hn
  have hhi := n.toInt_lt
  rw [toList_toString_int]
  split
  · rename_i h
    have hdigits := Spelling.digits (n := n.toInt.toNat) (by omega)
    rwa [Int.toNat_of_nonneg h, Int64.ofInt_toInt] at hdigits
  · have hdigits := Spelling.minus (n := (-n.toInt).toNat) (by omega)
    rwa [Int.toNat_of_nonneg (by omega)] at hdigits

namespace Heap

/-- A key with its value. -/
theorem spelling_entry {key : String} {text : String} {ms : List Mark} (hkey : isName key)
    (h : Spelling text.toList ms) :
    Spelling (key ++ ": " ++ text).toList (.name key :: .symbol .colon :: ms) := by
  have hspelling := (Spelling.name hkey).append h.blank.colon fun _ _ =>
    delimited_cons _ rfl (by decide)
  rw [String.toList_append, String.toList_append, List.append_assoc]
  exact hspelling

/-- The text of data is scanned as its marks. -/
theorem spelling_render {h : Heap} {levels : Nat} {v : Value} (hv : h.IsData levels v) :
    Spelling (h.render levels v).toList (h.marks levels v) := by
  induction hv with
  | undefined =>
    rw [render, marks]
    exact .word .undefinedWord
  | null =>
    rw [render, marks]
    exact .word .nullWord
  | boolean b =>
    rw [render, marks]
    cases b
    · exact .word .falseWord
    · exact .word .trueWord
  | integer hn =>
    rw [render, marks]
    exact spelling_integer hn
  | string hs =>
    rw [render, marks]
    exact .quoted hs
  | @array levels r items hr _ ih =>
    rw [render, marks, items_of_get? hr]
    have hleft : Symbol.leftBracket.IsChar '[' := ⟨rfl, fun _ => rfl, rfl, by decide, rfl⟩
    have hright : Symbol.rightBracket.IsChar ']' := ⟨rfl, fun _ => rfl, rfl, by decide, rfl⟩
    have htexts := (Spelling.separated ih).bracketed hleft hright ⟨rfl, by decide⟩
    rw [String.toList_append, String.toList_append, String.toList_intercalate, List.map_map]
    exact htexts
  | @object levels r es hr hnames _ ih =>
    rw [render, marks, entries_of_get? hr]
    have hleft : Symbol.leftBrace.IsChar '\x7b' := ⟨rfl, fun _ => rfl, rfl, by decide, rfl⟩
    have hright : Symbol.rightBrace.IsChar '\x7d' := ⟨rfl, fun _ => rfl, rfl, by decide, rfl⟩
    have hentries : ∀ e ∈ es.entries, Spelling (e.1 ++ ": " ++ h.render levels e.2).toList
        (.name e.1 :: .symbol .colon :: h.marks levels e.2) := by
      intro e he
      exact spelling_entry (hnames e he) (ih e he)
    have htexts := Spelling.separated hentries
    cases hes : es.entries with
    | nil =>
      dsimp only
      exact Spelling.nil.bracketed hleft hright ⟨rfl, by decide⟩
    | cons e rest =>
      rw [hes] at htexts
      have hclosed := htexts.append (Spelling.nil.symbol hright).blank fun _ _ => delimited_blank _
      have hblank := hclosed.blank.symbol hleft
      dsimp only
      rw [String.toList_append, String.toList_append, String.toList_intercalate, List.map_map]
      exact hblank

end Heap

end Scriptlet
