import Mathlib.Data.List.Perm.Subperm
import Mathlib.Data.List.ProdSigma
import Scriptlet.Value.Equal

/-!
# Comparisons come to an end

To compare two arrays or two objects is to compare what they hold, and they may hold
themselves; to compare two bound functions is to compare what they are bound to.
`Heap.Settles` says without any bound that a comparison comes to a result: all comparisons nested
in it do. Either one of these has one more pair of cells on its path, which was not there before, or
it is about values that functions were bound to when they were made. So there are at most as many
pairs inside each other as there are pairs of cells, and functions in between that are bound to
functions end:

* `Heap.Settles.unique`: a comparison has no more than one result;
* `Heap.settles_iff`: every comparison settles, and its result is that of `Heap.equal`;
* `Heap.equalAlong_of_le`: a higher bound on the nesting gives nothing else.
-/

namespace Scriptlet

theorem all_congr_mem {α : Type} {as : List α} {p q : α → Bool} (h : ∀ a ∈ as, p a = q a) :
    as.all p = as.all q := by
  rw [Bool.eq_iff_iff, List.all_eq_true, List.all_eq_true]
  exact forall₂_congr fun a ha => by rw [h a ha]

/-- The comparison of two functions is one of the values that they are bound to. -/
structure Function.Defers (f g : Function) (x y : Value) : Prop where
  distinct : (Value.function f).identical (.function g) = false
  alike : f.alike g = true
  left : f.receiver = some x
  right : g.receiver = some y

/-- Another comparison is needed: both values are arrays, or objects, or functions that are bound. -/
inductive Value.Nest : Value → Value → Prop
  | arrays (a b : Ref .array) : Nest (.array a) (.array b)
  | objects (a b : Ref .object) : Nest (.object a) (.object b)
  | bound {f g : Function} {x y : Value} : f.Defers g x y → Nest (.function f) (.function g)

namespace Heap

/-- The comparison of two values comes to a result while the pairs of `path` are being compared,
since every comparison that is nested in it does. -/
inductive Settles (h : Heap) : List CellPair → Value → Value → Bool → Prop
  /-- Values that hold nothing to compare are compared at once. -/
  | atOnce {path : List CellPair} {l r : Value} : ¬ l.Nest r →
    Settles h path l r (h.equalAlong 1 path l r)
  | arraysMet {path : List CellPair} {a b : Ref .array} : a = b ∨ .arrays a b ∈ path →
    Settles h path (.array a) (.array b) true
  | arrays {path : List CellPair} {a b : Ref .array} {result : Value × Value → Bool} :
    ¬ (a = b ∨ .arrays a b ∈ path) →
    (∀ p ∈ (h.items a).toList.zip (h.items b).toList,
      Settles h (.arrays a b :: path) p.1 p.2 (result p)) →
    Settles h path (.array a) (.array b) ((h.items a).size = (h.items b).size &&
      ((h.items a).toList.zip (h.items b).toList).all result)
  | objectsMet {path : List CellPair} {a b : Ref .object} : a = b ∨ .objects a b ∈ path →
    Settles h path (.object a) (.object b) true
  | objects {path : List CellPair} {a b : Ref .object} {result : String × Value → Bool} :
    ¬ (a = b ∨ .objects a b ∈ path) →
    (∀ e ∈ (h.entries a).entries, ∀ y, (h.entries b).get? e.1 = some y →
      Settles h (.objects a b :: path) e.2 y (result e)) →
    Settles h path (.object a) (.object b) ((h.entries a).size = (h.entries b).size &&
      (h.entries a).entries.all fun e => (h.entries b).contains e.1 && result e)
  | bound {path : List CellPair} {f g : Function} {x y : Value} {result : Bool} : f.Defers g x y →
    Settles h path x y result → Settles h path (.function f) (.function g) result

variable {h : Heap}

/-- A comparison has one result. -/
theorem Settles.unique {path : List CellPair} {l r : Value} {b b' : Bool}
    (hb : h.Settles path l r b) (hb' : h.Settles path l r b') : b = b' := by
  induction hb generalizing b' with
  | atOnce hnest =>
    cases hb' with
    | atOnce => rfl
    | arraysMet | arrays => exact absurd (.arrays _ _) hnest
    | objectsMet | objects => exact absurd (.objects _ _) hnest
    | bound hdefers => exact absurd (.bound hdefers) hnest
  | arraysMet hmet =>
    cases hb' with
    | atOnce hnest => exact absurd (.arrays _ _) hnest
    | arraysMet => rfl
    | arrays hnew => exact absurd hmet hnew
  | arrays hnew _ ih =>
    cases hb' with
    | atOnce hnest => exact absurd (.arrays _ _) hnest
    | arraysMet hmet => exact absurd hmet hnew
    | arrays _ hitems => exact congrArg _ (all_congr_mem fun p hp => ih p hp (hitems p hp))
  | objectsMet hmet =>
    cases hb' with
    | atOnce hnest => exact absurd (.objects _ _) hnest
    | objectsMet => rfl
    | objects hnew => exact absurd hmet hnew
  | objects hnew _ ih =>
    cases hb' with
    | atOnce hnest => exact absurd (.objects _ _) hnest
    | objectsMet hmet => exact absurd hmet hnew
    | objects _ hentries =>
      refine congrArg _ (all_congr_mem fun e he => ?_)
      unfold OrderedMap.contains
      cases hy : OrderedMap.get? _ e.1 with
      | none => rfl
      | some y => exact congrArg _ (ih e he y hy (hentries e he y hy))
  | bound hdefers _ ih =>
    cases hb' with
    | atOnce hnest => exact absurd (.bound hdefers) hnest
    | bound hdefers' hinner =>
      obtain rfl := Option.some.inj (hdefers.left.symm.trans hdefers'.left)
      obtain rfl := Option.some.inj (hdefers.right.symm.trans hdefers'.right)
      exact ih hinner

/-! ## The steps of a comparison -/

section

variable {fuel : Nat} {path : List CellPair}

/-- How what two cells hold is compared does not matter to other values. -/
theorem equalBy_atOnce {inner inner' : List CellPair → Value → Value → Bool} {l r : Value}
    (hnest : ¬ l.Nest r) : h.equalBy inner path l r = h.equalBy inner' path l r := by
  by_cases hl : ∃ f, l = .function f
  · obtain ⟨f, rfl⟩ := hl
    by_cases hr : ∃ g, r = .function g
    · obtain ⟨g, rfl⟩ := hr
      rw [equalBy_function, equalBy_function]
      cases hdistinct : (Value.function f).identical (.function g) with
      | true => rfl
      | false =>
        cases halike : f.alike g with
        | false => rfl
        | true =>
          unfold Function.boundAs
          split
          · rfl
          · rename_i hx hy
            exact absurd (.bound ⟨hdistinct, halike, hx, hy⟩) hnest
          · rfl
    · rw [equalBy_function_other h inner path f fun g hg => hr ⟨g, hg⟩,
        equalBy_function_other h inner' path f fun g hg => hr ⟨g, hg⟩]
  · cases l with
    | function f => exact absurd ⟨f, rfl⟩ hl
    | array a =>
      cases r with
      | array b => exact absurd (.arrays a b) hnest
      | _ => rfl
    | object a =>
      cases r with
      | object b => exact absurd (.objects a b) hnest
      | _ => rfl
    | _ => cases r <;> rfl

theorem equalBy_bound {inner : List CellPair → Value → Value → Bool} {f g : Function} {x y : Value}
    (hdefers : f.Defers g x y) :
    h.equalBy inner path (.function f) (.function g) = h.equalBy inner path x y := by
  rw [equalBy_function, hdefers.distinct, hdefers.alike, Function.boundAs, hdefers.left,
    hdefers.right]
  rfl

theorem equalAlong_atOnce {l r : Value} (hnest : ¬ l.Nest r) :
    h.equalAlong (fuel + 1) path l r = h.equalAlong 1 path l r :=
  equalBy_atOnce hnest

theorem equalAlong_bound {f g : Function} {x y : Value} (hdefers : f.Defers g x y) :
    h.equalAlong (fuel + 1) path (.function f) (.function g) =
      h.equalAlong (fuel + 1) path x y :=
  equalBy_bound hdefers

theorem equalAlong_arraysMet {a b : Ref .array} (hmet : a = b ∨ .arrays a b ∈ path) :
    h.equalAlong (fuel + 1) path (.array a) (.array b) = true := by
  rw [equalAlong, equalBy, if_pos]
  simpa using hmet

theorem equalAlong_arrays {a b : Ref .array} (hmet : ¬ (a = b ∨ .arrays a b ∈ path)) :
    h.equalAlong (fuel + 1) path (.array a) (.array b) =
      ((h.items a).size = (h.items b).size && ((h.items a).toList.zip (h.items b).toList).all
        fun p => h.equalAlong fuel (.arrays a b :: path) p.1 p.2) := by
  rw [equalAlong, equalBy, if_neg]
  simpa using hmet

theorem equalAlong_objectsMet {a b : Ref .object} (hmet : a = b ∨ .objects a b ∈ path) :
    h.equalAlong (fuel + 1) path (.object a) (.object b) = true := by
  rw [equalAlong, equalBy, if_pos]
  simpa using hmet

theorem equalAlong_objects {a b : Ref .object} (hmet : ¬ (a = b ∨ .objects a b ∈ path)) :
    h.equalAlong (fuel + 1) path (.object a) (.object b) =
      ((h.entries a).size = (h.entries b).size && (h.entries a).entries.all fun e =>
        (h.entries b).contains e.1 && ((h.entries b).get? e.1).any fun y =>
          h.equalAlong fuel (.objects a b :: path) e.2 y) := by
  rw [equalAlong, equalBy, if_neg]
  · refine congrArg (_ && ·) (all_congr_mem fun e _ => ?_)
    unfold OrderedMap.contains
    cases (h.entries b).get? e.1 <;> rfl
  · simpa using hmet

end

/-! ## Pairs of cells -/

variable (h) in
/-- All pairs of arrays, and all pairs of objects. -/
def pairs : List CellPair :=
  (List.range h.arrays.size ×ˢ List.range h.arrays.size).map (fun p => .arrays ⟨p.1⟩ ⟨p.2⟩) ++
    (List.range h.objects.size ×ˢ List.range h.objects.size).map fun p => .objects ⟨p.1⟩ ⟨p.2⟩

variable (h) in
theorem length_pairs : h.pairs.length + 1 = h.pairBound := by
  simp [pairs, pairBound, List.length_product]

theorem arrays_mem_pairs {a b : Ref .array} (ha : a.index < h.arrays.size)
    (hb : b.index < h.arrays.size) : .arrays a b ∈ h.pairs := by
  refine List.mem_append_left _ (List.mem_map.mpr ⟨(a.index, b.index), ?_, rfl⟩)
  exact List.mem_product.mpr ⟨List.mem_range.mpr ha, List.mem_range.mpr hb⟩

theorem objects_mem_pairs {a b : Ref .object} (ha : a.index < h.objects.size)
    (hb : b.index < h.objects.size) : .objects a b ∈ h.pairs := by
  refine List.mem_append_right _ (List.mem_map.mpr ⟨(a.index, b.index), ?_, rfl⟩)
  exact List.mem_product.mpr ⟨List.mem_range.mpr ha, List.mem_range.mpr hb⟩

theorem index_lt_of_item {r : Ref .array} {v : Value} (hv : v ∈ (h.items r).toList) :
    r.index < h.arrays.size := by
  refine Nat.lt_of_not_le fun hle => ?_
  rw [items, show h.arrays.get? r = none from Array.getElem?_eq_none hle] at hv
  cases hv

theorem index_lt_of_entry {r : Ref .object} {e : String × Value} (he : e ∈ (h.entries r).entries) :
    r.index < h.objects.size := by
  refine Nat.lt_of_not_le fun hle => ?_
  rw [entries, show h.objects.get? r = none from Array.getElem?_eq_none hle] at he
  cases he

theorem index_lt_of_get? {r : Ref .object} {key : String} {v : Value}
    (hv : (h.entries r).get? key = some v) : r.index < h.objects.size := by
  refine Nat.lt_of_not_le fun hle => ?_
  rw [entries, show h.objects.get? r = none from Array.getElem?_eq_none hle] at hv
  cases hv

/-! ## Bounds on the nesting -/

/-- With the pairs of `path` being compared, no more than `fuel` comparisons can nest: the path
repeats no pair, and there are not enough pairs for a longer one. -/
structure Enough (h : Heap) (fuel : Nat) (path : List CellPair) : Prop where
  nodup : path.Nodup
  stored : path ⊆ h.pairs
  bound : h.pairBound ≤ fuel + path.length

namespace Enough

variable {fuel : Nat} {path : List CellPair}

theorem start (hfuel : h.pairBound ≤ fuel) : h.Enough fuel [] :=
  ⟨List.nodup_nil, List.nil_subset _, hfuel⟩

theorem pos (hpath : h.Enough fuel path) : 0 < fuel := by
  have hlength := (List.subperm_of_subset hpath.nodup hpath.stored).length_le
  have hpairs := h.length_pairs
  have hbound := hpath.bound
  omega

/-- One more pair is being compared. -/
theorem nested {pair : CellPair} (hpath : h.Enough (fuel + 1) path) (hnew : pair ∉ path)
    (hpair : pair ∈ h.pairs) : h.Enough fuel (pair :: path) where
  nodup := List.nodup_cons.mpr ⟨hnew, hpath.nodup⟩
  stored := List.cons_subset.mpr ⟨hpair, hpath.stored⟩
  bound := by
    have hbound := hpath.bound
    rw [List.length_cons]
    omega

/-- Enough comparisons may nest for this one to settle. -/
theorem settles (hpath : h.Enough fuel path) (l r : Value) :
    h.Settles path l r (h.equalAlong fuel path l r) := by
  induction fuel generalizing path l r with
  | zero => exact absurd hpath.pos (Nat.lt_irrefl 0)
  | succ fuel ih =>
    -- No pair is met on the way through the values that functions are bound to.
    induction l using Value.inductionOnReceiver generalizing r with
    | function f ihf =>
      by_cases hnest : (Value.function f).Nest r
      · cases hnest with
        | bound hdefers =>
          rw [equalAlong_bound hdefers]
          exact .bound hdefers (ihf _ hdefers.left _)
      · rw [equalAlong_atOnce hnest]
        exact .atOnce hnest
    | other l hl =>
      by_cases hnest : l.Nest r
      · cases hnest with
        | bound => exact absurd rfl (hl _)
        | arrays a b =>
          by_cases hmet : a = b ∨ .arrays a b ∈ path
          · rw [equalAlong_arraysMet hmet]
            exact .arraysMet hmet
          · rw [equalAlong_arrays hmet]
            refine .arrays hmet fun p hp =>
              ih (hpath.nested (fun hmem => hmet (.inr hmem)) ?_) p.1 p.2
            have ha := index_lt_of_item (List.of_mem_zip hp).1
            have hb := index_lt_of_item (List.of_mem_zip hp).2
            exact arrays_mem_pairs ha hb
        | objects a b =>
          by_cases hmet : a = b ∨ .objects a b ∈ path
          · rw [equalAlong_objectsMet hmet]
            exact .objectsMet hmet
          · rw [equalAlong_objects hmet]
            refine .objects hmet fun e he y hy => ?_
            have ha := index_lt_of_entry he
            have hb := index_lt_of_get? hy
            have hnested := hpath.nested (fun hmem => hmet (.inr hmem)) (objects_mem_pairs ha hb)
            rw [hy]
            exact ih hnested e.2 y
      · rw [equalAlong_atOnce hnest]
        exact .atOnce hnest

end Enough

/-- Every comparison settles, and what `equal` says is its one result. -/
theorem settles_iff (l r : Value) (b : Bool) : h.Settles [] l r b ↔ h.equal l r = b := by
  have hsettles : h.Settles [] l r (h.equal l r) := (Enough.start (Nat.le_refl _)).settles l r
  constructor
  · exact fun hb => hsettles.unique hb
  · rintro rfl
    exact hsettles

/-- A comparison in which more pairs of cells may nest gives nothing else. -/
theorem equalAlong_of_le {fuel : Nat} (hfuel : h.pairBound ≤ fuel) (l r : Value) :
    h.equalAlong fuel [] l r = h.equal l r :=
  ((settles_iff l r _).mp ((Enough.start hfuel).settles l r)).symm

end Heap

end Scriptlet
