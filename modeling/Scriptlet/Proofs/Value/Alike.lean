import Mathlib.Data.List.Zip
import Scriptlet.Proofs.Value.Contents
import Scriptlet.Proofs.Value.Printed
import Scriptlet.Value.Equal

/-!
# Values that are built alike

Two values are alike (`Heap.Alike`) if they are built alike from atoms, arrays and objects,
whatever cells these are, and in whatever heaps. Values that are alike have the same texts
(`Heap.Alike.render_eq`) and are equal (`Heap.Alike.equalAlong`), and cells that are added to a
heap do not matter (`Heap.Alike.mono`).
-/

namespace Scriptlet

/-! ## Maps and lists that agree place by place -/

theorem map_eq_map_of_zip {α β γ : Type} {f : α → γ} {g : β → γ} {as : List α} {bs : List β}
    (hlength : as.length = bs.length) (h : ∀ p ∈ as.zip bs, f p.1 = g p.2) :
    as.map f = bs.map g := by
  induction as generalizing bs with
  | nil => rw [List.length_eq_zero_iff.mp hlength.symm, List.map_nil, List.map_nil]
  | cons a as ih =>
    obtain ⟨b, bs, rfl⟩ := List.exists_cons_of_length_eq_add_one hlength.symm
    rw [List.map_cons, List.map_cons, h (a, b) List.mem_cons_self,
      ih (Nat.succ.inj hlength) fun p hp => h p (List.mem_cons_of_mem _ hp)]

theorem swap_mem_zip {α β : Type} {as : List α} {bs : List β} {p : β × α} (hp : p ∈ bs.zip as) :
    p.swap ∈ as.zip bs := by
  rw [← List.zip_swap]
  exact List.mem_map_of_mem hp

theorem length_eq_of_keys {es es' : OrderedMap Value} (h : es.keys = es'.keys) :
    es.entries.length = es'.entries.length := by
  simpa only [OrderedMap.keys, List.length_map] using congrArg List.length h

theorem fst_eq_of_keys {es es' : OrderedMap Value} (h : es.keys = es'.keys)
    {p : (String × Value) × (String × Value)} (hp : p ∈ es.entries.zip es'.entries) :
    p.1.1 = p.2.1 := by
  obtain ⟨i, hi, rfl⟩ := List.mem_iff_getElem.mp hp
  rw [List.getElem_zip]
  have hkeys := congrArg (·[i]?) h
  rw [List.length_zip] at hi
  simpa [OrderedMap.keys, show i < es.entries.length by omega,
    show i < es'.entries.length by omega] using hkeys

theorem exists_get?_of_keys {es es' : OrderedMap Value} (h : es.keys = es'.keys)
    {e : String × Value} (he : e ∈ es.entries) :
    ∃ y, es'.get? e.1 = some y ∧ (e, (e.1, y)) ∈ es.entries.zip es'.entries := by
  obtain ⟨i, hi, rfl⟩ := List.mem_iff_getElem.mp he
  have hi' : i < es'.entries.length := length_eq_of_keys h ▸ hi
  have hp : (es.entries[i], es'.entries[i]) ∈ es.entries.zip es'.entries := by
    rw [← List.getElem_zip (h := by rw [List.length_zip]; omega)]
    exact List.getElem_mem _
  have hkey : es.entries[i].1 = es'.entries[i].1 := fst_eq_of_keys h hp
  rw [hkey]
  exact ⟨es'.entries[i].2, OrderedMap.get?_of_mem (List.getElem_mem hi'), hp⟩

/-! ## Stores that grow -/

theorem Store.get?_lt {s : CellSort} {α : Type} {st : Store s α} {r : Ref s} {a : α}
    (h : st.get? r = some a) : r.index < st.size :=
  (Array.getElem?_eq_some_iff.mp h).1

/-- What exists in a store is there also after one more cell is added. -/
theorem Store.get?_alloc_of_some {s : CellSort} {α : Type} {st : Store s α} {r : Ref s} {a : α}
    (h : st.get? r = some a) (b : α) : (st.alloc b).get? r = some a := by
  rw [Store.get?_alloc, if_neg, h]
  rintro rfl
  exact Nat.lt_irrefl _ (Store.get?_lt h)

/-! ## Values that are alike -/

namespace Heap

/-- `v` in `h` and `w` in `h'` are built alike, with at most `levels` arrays and objects inside each
other. -/
inductive Alike (h h' : Heap) : (levels : Nat) → Value → Value → Prop
  | undefined {levels : Nat} : Alike h h' levels .undefined .undefined
  | null {levels : Nat} : Alike h h' levels .null .null
  | boolean {levels : Nat} (b : Bool) : Alike h h' levels (.boolean b) (.boolean b)
  | integer {levels : Nat} (n : Int64) : Alike h h' levels (.integer n) (.integer n)
  | string {levels : Nat} (s : String) : Alike h h' levels (.string s) (.string s)
  | array {levels : Nat} {r r' : Ref .array} {items items' : Array Value} :
    h.arrays.get? r = some items → h'.arrays.get? r' = some items' → items.size = items'.size →
    (∀ p ∈ items.toList.zip items'.toList, Alike h h' levels p.1 p.2) →
    Alike h h' (levels + 1) (.array r) (.array r')
  | object {levels : Nat} {r r' : Ref .object} {es es' : OrderedMap Value} :
    h.objects.get? r = some es → h'.objects.get? r' = some es' → es.keys = es'.keys →
    (∀ p ∈ es.entries.zip es'.entries, Alike h h' levels p.1.2 p.2.2) →
    Alike h h' (levels + 1) (.object r) (.object r')

/-- Arrays and objects keep their contents. -/
structure Keeps (h h' : Heap) : Prop where
  arrays {r : Ref .array} {items : Array Value} :
    h.arrays.get? r = some items → h'.arrays.get? r = some items
  objects {r : Ref .object} {es : OrderedMap Value} :
    h.objects.get? r = some es → h'.objects.get? r = some es

theorem Keeps.refl (h : Heap) : Keeps h h := ⟨id, id⟩

theorem Keeps.trans {h₁ h₂ h₃ : Heap} (h : Keeps h₁ h₂) (h' : Keeps h₂ h₃) : Keeps h₁ h₃ :=
  ⟨fun hr => h'.arrays (h.arrays hr), fun hr => h'.objects (h.objects hr)⟩

theorem keeps_newArray (h : Heap) (items : Array Value) : Keeps h (h.newArray items).2 :=
  ⟨fun hr => Store.get?_alloc_of_some hr _, id⟩

theorem keeps_newObject (h : Heap) (es : OrderedMap Value) : Keeps h (h.newObject es).2 :=
  ⟨id, fun hr => Store.get?_alloc_of_some hr _⟩

namespace Alike

variable {h h' : Heap} {levels : Nat} {v w : Value}

theorem mono {h₁ h₁' : Heap} (hv : Alike h h' levels v w) (hh : Keeps h h₁) (hh' : Keeps h' h₁')
    {levels' : Nat} (hl : levels ≤ levels') : Alike h₁ h₁' levels' v w := by
  induction hv generalizing levels' with
  | undefined => exact .undefined
  | null => exact .null
  | boolean b => exact .boolean b
  | integer n => exact .integer n
  | string s => exact .string s
  | array hr hr' hsize _ ih =>
    obtain ⟨levels', rfl⟩ := Nat.exists_eq_succ_of_ne_zero (Nat.ne_of_gt (Nat.zero_lt_of_lt hl))
    exact .array (hh.arrays hr) (hh'.arrays hr') hsize fun p hp => ih p hp (Nat.le_of_succ_le_succ hl)
  | object hr hr' hkeys _ ih =>
    obtain ⟨levels', rfl⟩ := Nat.exists_eq_succ_of_ne_zero (Nat.ne_of_gt (Nat.zero_lt_of_lt hl))
    exact .object (hh.objects hr) (hh'.objects hr') hkeys fun p hp =>
      ih p hp (Nat.le_of_succ_le_succ hl)

theorem symm (hv : Alike h h' levels v w) : Alike h' h levels w v := by
  induction hv with
  | undefined => exact .undefined
  | null => exact .null
  | boolean b => exact .boolean b
  | integer n => exact .integer n
  | string s => exact .string s
  | array hr hr' hsize _ ih =>
    exact .array hr' hr hsize.symm fun p hp => ih p.swap (swap_mem_zip hp)
  | object hr hr' hkeys _ ih =>
    exact .object hr' hr hkeys.symm fun p hp => ih p.swap (swap_mem_zip hp)

/-- Values that are alike have the same text, with however many levels shown. -/
theorem render_eq (hv : Alike h h' levels v w) (shown : Nat) :
    h.render shown v = h'.render shown w := by
  induction hv generalizing shown with
  | undefined | null | boolean | integer | string => rw [render, render]
  | array hr hr' hsize _ ih =>
    cases shown with
    | zero => rw [render, render]
    | succ shown =>
      rw [render, render, items_of_get? hr, items_of_get? hr',
        map_eq_map_of_zip hsize fun p hp => ih p hp shown]
  | @object levels r r' es es' hr hr' hkeys _ ih =>
    cases shown with
    | zero => rw [render, render]
    | succ shown =>
      have htexts : (es.entries.map fun e => e.1 ++ ": " ++ h.render shown e.2) =
          es'.entries.map fun e => e.1 ++ ": " ++ h'.render shown e.2 := by
        refine map_eq_map_of_zip (length_eq_of_keys hkeys) fun p hp => ?_
        rw [fst_eq_of_keys hkeys hp, ih p hp shown]
      rw [render, render, entries_of_get? hr, entries_of_get? hr']
      cases hes : es.entries with
      | nil =>
        rw [List.map_eq_nil_iff.mp (htexts.symm.trans (by rw [hes, List.map_nil]))]
      | cons e rest =>
        cases hes' : es'.entries with
        | nil =>
          rw [hes, hes'] at htexts
          cases htexts
        | cons e' rest' =>
          rw [hes, hes'] at htexts
          dsimp only
          rw [htexts]

/-- Values of one heap that are alike are equal. -/
theorem equalAlong (hv : Alike h h levels v w) {fuel : Nat} (hfuel : levels < fuel)
    (path : List CellPair) : h.equalAlong fuel path v w = true := by
  induction hv generalizing fuel path with
  | undefined | null | boolean | integer | string =>
    obtain ⟨fuel, rfl⟩ := Nat.exists_eq_add_one_of_ne_zero (Nat.ne_of_gt (Nat.zero_lt_of_lt hfuel))
    simp [Heap.equalAlong, Heap.equalBy]
  | array hr hr' hsize _ ih =>
    obtain ⟨fuel, rfl⟩ := Nat.exists_eq_add_one_of_ne_zero (Nat.ne_of_gt (Nat.zero_lt_of_lt hfuel))
    rw [Heap.equalAlong, Heap.equalBy, items_of_get? hr, items_of_get? hr']
    split
    · rfl
    · refine Bool.and_eq_true_iff.mpr ⟨decide_eq_true hsize, List.all_eq_true.mpr fun p hp => ?_⟩
      exact ih p hp (Nat.lt_of_succ_lt_succ hfuel) _
  | object hr hr' hkeys _ ih =>
    obtain ⟨fuel, rfl⟩ := Nat.exists_eq_add_one_of_ne_zero (Nat.ne_of_gt (Nat.zero_lt_of_lt hfuel))
    rw [Heap.equalAlong, Heap.equalBy, entries_of_get? hr, entries_of_get? hr']
    split
    · rfl
    · refine Bool.and_eq_true_iff.mpr
        ⟨decide_eq_true (length_eq_of_keys hkeys), List.all_eq_true.mpr fun e he => ?_⟩
      obtain ⟨y, hy, hp⟩ := exists_get?_of_keys hkeys he
      rw [hy]
      exact ih _ hp (Nat.lt_of_succ_lt_succ hfuel) _

end Alike

end Heap

end Scriptlet
