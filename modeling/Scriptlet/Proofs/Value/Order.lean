import Scriptlet.Operator
import Scriptlet.Proofs.Text.Encoding

/-!
# The order of integers and of texts

Of two integers, and of two texts, one is less than the other or they are equal, and all five
comparisons say the same about which it is (`Heap.Ranks`). The order of texts is that of their
characters, which is also that of their bytes in UTF-8 (`comparisons_total`).
-/

namespace Scriptlet

/-- The values are two integers or two texts. -/
inductive Value.Comparable : Value → Value → Prop
  | integers (a b : Int64) : Comparable (.integer a) (.integer b)
  | texts (s t : String) : Comparable (.string s) (.string t)

namespace Heap

/-- All comparisons of `l` with `r` have the results that fit the order `o` of the two. -/
structure Ranks (h : Heap) (l r : Value) (o : Ordering) : Prop where
  less : h.applyBinary .less l r = .ok (.boolean (o = .lt))
  equal : h.applyBinary .equal l r = .ok (.boolean (o = .eq))
  greater : h.applyBinary .greater l r = .ok (.boolean (o = .gt))
  lessEqual : h.applyBinary .lessEqual l r = .ok (.boolean (o ≠ .gt))
  greaterEqual : h.applyBinary .greaterEqual l r = .ok (.boolean (o ≠ .lt))

/-- `l < r` is true. -/
def Less (h : Heap) (l r : Value) : Prop := h.applyBinary .less l r = .ok (.boolean true)

variable {h : Heap}

theorem Ranks.less_iff {l r : Value} {o : Ordering} (hranks : h.Ranks l r o) :
    h.Less l r ↔ o = .lt := by
  unfold Less
  rw [hranks.less]
  simp

/-- The comparisons of order test one ordering of the operands, and the test for equality tells
whether that is `.eq`. -/
theorem ranks_of_ordered {l r : Value} {o : Ordering} (hequal : h.equal l r = (o = .eq))
    (hordered : ∀ op test, ordered op test l r = .ok (.boolean (test o))) : h.Ranks l r o where
  less := by
    rw [applyBinary, hordered]
    cases o <;> rfl
  equal := by
    rw [applyBinary]
    simp [← hequal]
  greater := by
    rw [applyBinary, hordered]
    cases o <;> rfl
  lessEqual := by
    rw [applyBinary, hordered]
    cases o <;> rfl
  greaterEqual := by
    rw [applyBinary, hordered]
    cases o <;> rfl

theorem ranks_integers (a b : Int64) :
    h.Ranks (.integer a) (.integer b) (compare a.toInt b.toInt) := by
  refine ranks_of_ordered ?_ fun _ _ => rfl
  have hequal : h.equal (.integer a) (.integer b) = decide (a = b) := rfl
  rw [hequal]
  simp [Int64.toInt_inj]

end Heap

theorem textOrder_eq_lt_iff {s t : String} : textOrder s t = .lt ↔ s < t := by
  unfold textOrder
  split
  · exact iff_of_true rfl ‹_›
  · split <;> exact iff_of_false nofun ‹_›

theorem textOrder_eq_eq_iff {s t : String} : textOrder s t = .eq ↔ s = t := by
  unfold textOrder
  split
  · next hlt => exact iff_of_false nofun (ne_of_lt hlt)
  · split
    · exact iff_of_true rfl ‹_›
    · exact iff_of_false nofun ‹_›

theorem textOrder_swap (s t : String) : (textOrder s t).swap = textOrder t s := by
  rcases lt_trichotomy s t with hlt | rfl | hgt
  · have hback : ¬ t < s := lt_asymm hlt
    simp [textOrder, hlt, hback, ne_of_gt hlt]
  · simp [textOrder]
  · have hback : ¬ s < t := lt_asymm hgt
    simp [textOrder, hgt, hback, ne_of_gt hgt]

namespace Heap

variable {h : Heap}

theorem ranks_texts (s t : String) : h.Ranks (.string s) (.string t) (textOrder s t) := by
  refine ranks_of_ordered ?_ fun _ _ => rfl
  have hequal : h.equal (.string s) (.string t) = decide (s = t) := rfl
  rw [hequal]
  simp [textOrder_eq_eq_iff]

theorem less_integers_iff {a b : Int64} :
    h.Less (.integer a) (.integer b) ↔ a.toInt < b.toInt := by
  rw [(ranks_integers a b).less_iff, compare_lt_iff_lt]

theorem less_texts_iff {s t : String} : h.Less (.string s) (.string t) ↔ s < t := by
  rw [(ranks_texts s t).less_iff, textOrder_eq_lt_iff]

theorem Less.trans {l m r : Value} (hlm : l.Comparable m) (hmr : m.Comparable r)
    (hless : h.Less l m) (hless' : h.Less m r) : h.Less l r := by
  cases hlm with
  | integers a b =>
    cases hmr with
    | integers _ c =>
      rw [less_integers_iff] at hless hless' ⊢
      exact Int.lt_trans hless hless'
  | texts s t =>
    cases hmr with
    | texts _ u =>
      rw [less_texts_iff] at hless hless' ⊢
      exact lt_trans hless hless'

end Heap

/-- Integers are in a total order, and so are texts. Of two integers or two texts one is less, or
they are equal, and `<`, `==`, `>`, `<=` and `>=` say which, in either direction; `<` is transitive.
A text is less than another one if its bytes in UTF-8 come first in the lexicographic order, which
is to say that its characters do. -/
theorem comparisons_total (h : Heap) :
    (∀ l r : Value, l.Comparable r → ∃ o : Ordering, h.Ranks l r o ∧ h.Ranks r l o.swap) ∧
    (∀ l m r : Value, l.Comparable m → m.Comparable r → h.Less l m → h.Less m r → h.Less l r) ∧
    ∀ s t : String, (h.Less (.string s) (.string t) ↔ Text.utf8 s < Text.utf8 t) ∧
      (Text.utf8 s < Text.utf8 t ↔ s.toList < t.toList) := by
  refine ⟨fun l r hlr => ?_, fun l m r hlm hmr => Heap.Less.trans hlm hmr, fun s t => ⟨?_, ?_⟩⟩
  · cases hlr with
    | integers a b =>
      refine ⟨_, Heap.ranks_integers a b, ?_⟩
      rw [Int.compare_swap]
      exact Heap.ranks_integers b a
    | texts s t =>
      refine ⟨_, Heap.ranks_texts s t, ?_⟩
      rw [textOrder_swap]
      exact Heap.ranks_texts t s
  · rw [Heap.less_texts_iff, Text.utf8_lt_iff, String.lt_iff]
  · exact Text.utf8_lt_iff

/-- Characters of three and of four bytes: the one is the greatest below `U+10000`, the other lies
above. A text comes before all that go on behind it. -/
theorem comparisons_total_sample :
    (∃ o, Heap.empty.Ranks (.integer (-1)) (.integer 1) o ∧
      Heap.empty.Ranks (.integer 1) (.integer (-1)) o.swap) ∧
    Heap.empty.Less (.string "né") (.string "né\uffff") ∧
    Heap.empty.Less (.string "né\uffff") (.string "né😀") ∧
    Heap.empty.Less (.string "né") (.string "né😀") := by
  obtain ⟨hranks, htrans, hbytes⟩ := comparisons_total Heap.empty
  have hshorter : Heap.empty.Less (.string "né") (.string "né\uffff") := by
    rw [(hbytes _ _).1, (hbytes _ _).2]
    decide
  have hlarger : Heap.empty.Less (.string "né\uffff") (.string "né😀") := by
    rw [(hbytes _ _).1, (hbytes _ _).2]
    decide
  exact ⟨hranks _ _ (.integers (-1) 1), hshorter, hlarger,
    htrans _ _ _ (.texts _ _) (.texts _ _) hshorter hlarger⟩

end Scriptlet
