import Scriptlet.Proofs.Eval.Outcomes
import Scriptlet.Proofs.Value.Alike

/-!
# Expressions that write data down

`Copies h v act` says that the evaluation `act` makes new cells and gives a value that is alike to
`v` in `h`. Literals of atoms, arrays and objects are such evaluations, and so the tokens of the text
of data are an expression that copies it (`Heap.exists_copies`).
-/

namespace Scriptlet

open Grammar

/-! ## Steps that do not fail -/

theorem Eval.step_ok {α : Type} {act : Eval α} {p : Position} {a : α} {m m' : Machine}
    (hm : m.interrupted = false) (h : act m = .ok a m') : step p act m = .ok a m' := by
  rw [Eval.step_eq hm]
  unfold located
  rw [h]

theorem insertEntry_of_not_mem {α : Type} {key : String} {es : List (String × α)}
    (h : key ∉ es.map Prod.fst) (a : α) : insertEntry key a es = es ++ [(key, a)] := by
  induction es with
  | nil => rfl
  | cons e es ih =>
    rw [List.map_cons, List.mem_cons, not_or] at h
    rw [insertEntry, if_neg (Ne.symm h.1), ih h.2, List.cons_append]

/-! ## Copies -/

namespace Heap

/-- The number of arrays and objects. -/
def cells (h : Heap) : Nat := h.arrays.size + h.objects.size

/-- The heap `h'` has all that `h` has, and at least `n` more cells. -/
structure Grows (n : Nat) (h h' : Heap) : Prop where
  keeps : Keeps h h'
  cells : h.cells + n ≤ h'.cells

theorem Grows.refl (h : Heap) : Grows 0 h h := ⟨.refl h, Nat.le_refl _⟩

theorem Grows.trans {n n' : Nat} {h₁ h₂ h₃ : Heap} (h : Grows n h₁ h₂) (h' : Grows n' h₂ h₃) :
    Grows (n + n') h₁ h₃ where
  keeps := h.keeps.trans h'.keeps
  cells := by
    have := h.cells
    have := h'.cells
    omega

theorem Grows.mono {n n' : Nat} {h h' : Heap} (hg : Grows n h h') (hn : n' ≤ n) : Grows n' h h' :=
  ⟨hg.keeps, Nat.le_trans (Nat.add_le_add_left hn _) hg.cells⟩

theorem grows_newArray (h : Heap) (items : Array Value) : Grows 1 h (h.newArray items).2 where
  keeps := keeps_newArray h items
  cells := by
    show h.arrays.size + h.objects.size + 1 ≤ (h.arrays.alloc items).size + h.objects.size
    rw [Store.size_alloc]
    omega

theorem grows_newObject (h : Heap) (es : OrderedMap Value) : Grows 1 h (h.newObject es).2 where
  keeps := keeps_newObject h es
  cells := by
    show h.arrays.size + h.objects.size + 1 ≤ h.arrays.size + (h.objects.alloc es).size
    rw [Store.size_alloc]
    omega

end Heap

open Heap (Alike Grows)

/-- The evaluation gives a value that is alike to `v` in `h`. It may be as deep as the number of cells
that it is made of. -/
def Copies (h : Heap) (v : Value) (act : Eval Value) : Prop := ∀ m : Machine, m.interrupted = false →
  ∃ w levels heap', act m = .ok w { m with heap := heap' } ∧ Alike h heap' levels v w ∧
    Grows levels m.heap heap'

variable {h : Heap} {g : Engine}

namespace Copies

variable {v : Value} {p : Position}

theorem step {act : Eval Value} (hact : Copies h v act) : Copies h v (Eval.step p act) := by
  intro m hm
  obtain ⟨w, levels, heap', heval, hw⟩ := hact m hm
  exact ⟨w, levels, heap', Eval.step_ok hm heval, hw⟩

/-- A value that is no cell. -/
theorem pure (hv : ∀ h', Alike h h' 0 v v) : Copies h v (pure v) :=
  fun m _ => ⟨v, 0, m.heap, rfl, hv _, .refl _⟩

end Copies

/-- Evaluating expressions that copy the values one by one gives values that are alike to these. -/
theorem exists_evalArgs {vs : List Value} {es : List Expr}
    (hcopies : List.Forall₂ (fun v e => Copies h v (evalExpr g e)) vs es) (m : Machine)
    (hm : m.interrupted = false) :
    ∃ ws levels heap', evalArgs g es m = .ok ws { m with heap := heap' } ∧ vs.length = ws.length ∧
      (∀ p ∈ vs.zip ws, Alike h heap' levels p.1 p.2) ∧ Grows levels m.heap heap' := by
  induction hcopies generalizing m with
  | nil => exact ⟨[], 0, m.heap, by rw [evalArgs]; rfl, rfl, nofun, .refl _⟩
  | @cons v e vs es hcopy _ ih =>
    obtain ⟨w, levels, heap₁, heval, hw, hgrows⟩ := hcopy m hm
    obtain ⟨ws, levels', heap₂, hevals, hlength, hws, hgrows'⟩ := ih { m with heap := heap₁ } hm
    refine ⟨w :: ws, max levels levels', heap₂, ?_, by rw [List.length_cons, List.length_cons, hlength],
      ?_, (hgrows.trans hgrows').mono (by omega)⟩
    · rw [evalArgs, Eval.bind_ok heval, Eval.bind_ok hevals]
      rfl
    · intro p hp
      obtain rfl | hp := List.mem_cons.mp hp
      · exact hw.mono (.refl h) hgrows'.keeps (Nat.le_max_left ..)
      · exact (hws p hp).mono (.refl h) (.refl heap₂) (Nat.le_max_right ..)

/-- Evaluating entries with new keys adds entries with these keys to the map, with values that are
alike to those copied. -/
theorem exists_evalEntries {entries : List (String × Value)} {es : List Entry}
    (hcopies : List.Forall₂ (fun e x => x.key = e.1 ∧ Copies h e.2 (evalExpr g x.value)) entries es)
    (m : Machine) (hm : m.interrupted = false) (map : OrderedMap Value)
    (hnew : (map.keys ++ entries.map Prod.fst).Nodup) :
    ∃ map' ws levels heap', evalEntries g map es m = .ok map' { m with heap := heap' } ∧
      map'.entries = map.entries ++ ws ∧ entries.map Prod.fst = ws.map Prod.fst ∧
      (∀ p ∈ entries.zip ws, Alike h heap' levels p.1.2 p.2.2) ∧ Grows levels m.heap heap' := by
  induction hcopies generalizing m map with
  | nil =>
    exact ⟨map, [], 0, m.heap, by rw [evalEntries]; rfl, (List.append_nil _).symm, rfl, nofun, .refl _⟩
  | @cons e x entries es hcopy _ ih =>
    obtain ⟨key, value⟩ := x
    obtain ⟨rfl, hcopy⟩ := hcopy
    obtain ⟨w, levels, heap₁, heval, hw, hgrows⟩ := hcopy m hm
    have hfresh : e.1 ∉ map.keys := fun hmem =>
      (List.nodup_append.mp hnew).2.2 e.1 hmem e.1 List.mem_cons_self rfl
    have hinsert : (map.insert e.1 w).entries = map.entries ++ [(e.1, w)] :=
      insertEntry_of_not_mem hfresh w
    have hnew' : ((map.insert e.1 w).keys ++ entries.map Prod.fst).Nodup := by
      rw [OrderedMap.keys_insert, if_neg hfresh, List.append_assoc]
      exact hnew
    obtain ⟨map', ws, levels', heap₂, hevals, hentries, hkeys, hws, hgrows'⟩ :=
      ih { m with heap := heap₁ } hm _ hnew'
    refine ⟨map', (e.1, w) :: ws, max levels levels', heap₂, ?_, ?_, ?_, ?_,
      (hgrows.trans hgrows').mono (by omega)⟩
    · rw [evalEntries, Eval.bind_ok heval, hevals]
    · rw [hentries, hinsert, List.append_assoc, List.singleton_append]
    · rw [List.map_cons, List.map_cons, hkeys]
    · intro p hp
      obtain rfl | hp := List.mem_cons.mp hp
      · exact hw.mono (.refl h) hgrows'.keeps (Nat.le_max_left ..)
      · exact (hws p hp).mono (.refl h) (.refl heap₂) (Nat.le_max_right ..)

namespace Copies

variable {p : Position}

/-- A negative integer is written as the operator and the integer without its sign. -/
theorem negative {n : Int64} (hn : n ≠ Int64.minValue) (hneg : ¬ 0 ≤ n.toInt) (q : Position) :
    Copies h (.integer n)
      (evalExpr g (.unary p .negate (.integer q (Int64.ofInt (-n.toInt))))) := by
  have habs : (Int64.ofInt (-n.toInt)).toInt = -n.toInt := by
    have hle := Int64.neg_toInt_le hn
    exact Int64.toInt_ofInt_of_le (by simp; omega) (by simp; omega)
  have hword : Number.word? n.toInt = some n := (Number.word?_eq_some_iff _ _).mpr rfl
  have hnegate : applyUnary .negate (.integer (Int64.ofInt (-n.toInt))) = .ok (.integer n) := by
    show exactly (Number.word? (-(Int64.ofInt (-n.toInt)).toInt)) = _
    rw [habs, Int.neg_neg, hword]
    rfl
  rw [evalExpr]
  refine .step fun m hm => ⟨.integer n, 0, m.heap, ?_, .integer n, .refl _⟩
  have hliteral : evalExpr g (.integer q (Int64.ofInt (-n.toInt))) m =
      .ok (.integer (Int64.ofInt (-n.toInt))) m := by
    rw [evalExpr]
    exact Eval.step_ok hm rfl
  rw [Eval.bind_ok hliteral, hnegate]
  rfl

theorem array {r : Ref .array} {items : Array Value} (hr : h.arrays.get? r = some items)
    {es : List Expr}
    (hcopies : List.Forall₂ (fun v e => Copies h v (evalExpr g e)) items.toList es) :
    Copies h (.array r) (evalExpr g (.array p es)) := by
  rw [evalExpr]
  refine .step fun m hm => ?_
  obtain ⟨ws, levels, heap', hevals, hlength, hws, hgrows⟩ := exists_evalArgs hcopies m hm
  have hnew := Heap.grows_newArray heap' ws.toArray
  refine ⟨.array heap'.arrays.next, levels + 1, (heap'.newArray ws.toArray).2, ?_, ?_,
    hgrows.trans hnew⟩
  · rw [Eval.bind_ok hevals]
    rfl
  · refine .array hr ((Store.get?_alloc ..).trans (if_pos rfl)) hlength fun p hp => ?_
    exact (hws p hp).mono (.refl h) hnew.keeps (Nat.le_refl _)

theorem object {r : Ref .object} {entries : OrderedMap Value}
    (hr : h.objects.get? r = some entries) {es : List Entry}
    (hcopies : List.Forall₂ (fun e x => x.key = e.1 ∧ Copies h e.2 (evalExpr g x.value))
      entries.entries es) :
    Copies h (.object r) (evalExpr g (.object p es)) := by
  rw [evalExpr]
  refine .step fun m hm => ?_
  obtain ⟨map', ws, levels, heap', hevals, hentries, hkeys, hws, hgrows⟩ :=
    exists_evalEntries hcopies m hm .empty entries.nodup
  obtain rfl : map'.entries = ws := hentries
  have hnew := Heap.grows_newObject heap' map'
  refine ⟨.object heap'.objects.next, levels + 1, (heap'.newObject map').2, ?_, ?_,
    hgrows.trans hnew⟩
  · rw [Eval.bind_ok hevals]
    rfl
  · refine .object hr ((Store.get?_alloc ..).trans (if_pos rfl)) hkeys fun p hp => ?_
    exact (hws p hp).mono (.refl h) hnew.keeps (Nat.le_refl _)

end Copies

/-! ## The tokens of data -/

namespace Heap

/-- The tokens that say the marks of data are an expression that copies it, in whatever program. -/
theorem exists_copies {levels : Nat} {v : Value} (hv : h.IsData levels v) {ts rest : List Token}
    (hts : Spells (h.marks levels v) ts rest) :
    ∃ e, Expression ts e rest ∧ ∀ g, Copies h v (evalExpr g e) := by
  induction hv generalizing ts rest with
  | undefined =>
    rw [marks] at hts
    obtain ⟨t, _, rfl, ht, rfl⟩ := hts
    refine ⟨_, .undefined ht, fun g => ?_⟩
    rw [evalExpr]
    exact .step (.pure fun _ => .undefined)
  | null =>
    rw [marks] at hts
    obtain ⟨t, _, rfl, ht, rfl⟩ := hts
    refine ⟨_, .null ht, fun g => ?_⟩
    rw [evalExpr]
    exact .step (.pure fun _ => .null)
  | boolean b =>
    rw [marks] at hts
    obtain ⟨t, _, rfl, ht, rfl⟩ := hts
    cases b with
    | true =>
      refine ⟨_, .trueWord ht, fun g => ?_⟩
      rw [evalExpr]
      exact .step (.pure fun _ => .boolean true)
    | false =>
      refine ⟨_, .falseWord ht, fun g => ?_⟩
      rw [evalExpr]
      exact .step (.pure fun _ => .boolean false)
  | @integer levels n hn =>
    rw [marks] at hts
    split at hts
    · obtain ⟨t, _, rfl, ⟨hk, ht⟩, rfl⟩ := hts
      refine ⟨_, .integer hk ht, fun g => ?_⟩
      rw [evalExpr]
      exact .step (.pure fun _ => .integer n)
    · rename_i hneg
      obtain ⟨o, _, rfl, ho, t, _, rfl, ⟨hk, ht⟩, rfl⟩ := hts
      have hop : UnaryOp.ofKind? o.kind = some .negate := by
        rw [ho]
        rfl
      exact ⟨_, .unary hop (.integer hk ht) (Nat.le_succ unaryLevel), fun g => .negative hn hneg _⟩
  | @string levels s _ =>
    rw [marks] at hts
    obtain ⟨t, _, rfl, ⟨hk, rfl⟩, rfl⟩ := hts
    refine ⟨_, .string hk, fun g => ?_⟩
    rw [evalExpr]
    exact .step (.pure fun _ => .string _)
  | @array levels r items hr _ ih =>
    rw [marks, items_of_get? hr] at hts
    obtain ⟨left, right, us, rfl, hleft, hitems, hright⟩ := spells_bracketed hts
    obtain ⟨es, hes, hcopies⟩ := exists_looseCommas
      (R := fun v e => ∀ g, Copies h v (evalExpr g e)) (fun v hv _ _ => ih v hv) hitems
    exact ⟨_, .array hleft hes hright, fun g => .array hr (hcopies.imp fun _ _ hcopy => hcopy g)⟩
  | @object levels r entries hr _ _ ih =>
    rw [marks, entries_of_get? hr] at hts
    obtain ⟨left, right, us, rfl, hleft, hentries, hright⟩ := spells_bracketed hts
    have hitem : ∀ e ∈ entries.entries, ∀ ts rest,
        Spells (.name e.1 :: .symbol .colon :: h.marks levels e.2) ts rest →
        ∃ x, ObjectEntry ts x rest ∧ x.key = e.1 ∧ ∀ g, Copies h e.2 (evalExpr g x.value) := by
      rintro e he _ rest ⟨k, _, rfl, ⟨hk, hkey⟩, c, us, rfl, hc, hvalue⟩
      obtain ⟨value, hvalue, hcopy⟩ := ih e he hvalue
      exact ⟨_, .mk (.inl hk) hc hvalue, hkey, hcopy⟩
    obtain ⟨es, hes, hcopies⟩ := exists_looseCommas hitem hentries
    exact ⟨_, .object hleft hes hright, fun g =>
      .object hr (hcopies.imp fun _ _ hcopy => ⟨hcopy.1, hcopy.2 g⟩)⟩

end Heap

end Scriptlet
