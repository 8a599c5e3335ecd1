import Scriptlet.Value.Render

/-!
# What is shown of a value

The unfolding of a value is the tree of all that is reached from it through arrays and objects,
by whatever cells; it is infinite if an array or an object lies inside itself.
`Heap.unfolding` gives it as a labelling of paths.

Cut below a number of levels (`cut`), an unfolding is a finite tree, and there is only one
finite tree with its labels (`LabelTree.ext`). The text of a value is the text of that tree
(`Heap.text_shown`), so it depends on nothing but the first levels of the unfolding.
-/

namespace Scriptlet

namespace Label

/-- An array or an object is not shown, and anything else is. -/
def hidden : Label → Label
  | array _ | object _ => ellipsis
  | l => l

/-- The text of what stands at a place, from the texts of what lies in it. -/
def text : Label → List String → String
  | undefined, _ => "undefined"
  | null, _ => "null"
  | boolean b, _ => boolText b
  | integer n, _ => toString n.toInt
  | float x, _ => Number.floatText x
  | string s, _ => Text.quoted s
  | array _, texts => "[" ++ String.intercalate ", " texts ++ "]"
  | object [], _ => "\x7b\x7d"
  | object keys, texts => "\x7b " ++
      String.intercalate ", " (List.zipWith (fun key text => key ++ ": " ++ text) keys texts) ++ " \x7d"
  | inst className, _ => "<" ++ className ++ " instance>"
  | function name, _ => "<function " ++ name ++ ">"
  | builtin name, _ => "<builtin " ++ name ++ ">"
  | klass name, _ => "<class " ++ name ++ ">"
  | ellipsis, _ => "..."

end Label

/-- An unfolding in which no array and no object inside `levels` others is shown. -/
def cut (levels : Nat) (u : List Nat → Option Label) (path : List Nat) : Option Label :=
  if path.length < levels then u path
  else if path.length = levels then (u path).map Label.hidden
  else none

theorem Heap.cut_zero_cons (h : Heap) (v : Value) (i : Nat) (path : List Nat) :
    cut 0 (h.unfolding v) (i :: path) = none := by
  simp [cut]

/-- Below the root a cut unfolding is one of the parts, cut one level earlier. -/
theorem Heap.cut_succ_cons (h : Heap) (levels : Nat) (v : Value) (i : Nat) (path : List Nat) :
    cut (levels + 1) (h.unfolding v) (i :: path) =
      (h.parts v)[i]?.bind fun w => cut levels (h.unfolding w) path := by
  simp only [cut, unfolding, reached?, List.length_cons, Nat.add_lt_add_iff_right,
    Nat.add_right_cancel_iff]
  cases (h.parts v)[i]? with
  | none => simp
  | some w => rfl

/-! ## Finite trees -/

/-- A finite tree of labels. -/
inductive LabelTree where
  | node (label : Label) (parts : List LabelTree)

namespace LabelTree

/-- What stands at the end of a path. -/
def label? : LabelTree → List Nat → Option Label
  | node l _, [] => some l
  | node _ ts, i :: path => ts[i]?.bind fun t => t.label? path

mutual

/-- The text of a tree. -/
def text : LabelTree → String
  | node l ts => l.text (texts ts)

/-- The texts of trees. -/
def texts : List LabelTree → List String
  | [] => []
  | t :: ts => t.text :: texts ts

end

/-- The text of a tree, without quotes if it is nothing but a text. -/
def bareText : LabelTree → String
  | node (.string s) _ => s
  | t => t.text

theorem texts_eq_map (ts : List LabelTree) : texts ts = ts.map text := by
  induction ts with
  | nil => rfl
  | cons t ts ih => rw [texts, ih, List.map_cons]

mutual

/-- Trees with the same labels are the same. -/
theorem ext : ∀ {t t' : LabelTree}, t.label? = t'.label? → t = t'
  | node l ts, node l' ts', h => by
    have hroot : l = l' := Option.some.inj (congrFun h [])
    have hparts : ts = ts' := parts_ext fun i path => congrFun h (i :: path)
    rw [hroot, hparts]

theorem parts_ext : ∀ {ts ts' : List LabelTree}, (∀ (i : Nat) (path : List Nat),
    (ts[i]?.bind fun t => label? t path) = ts'[i]?.bind fun t => label? t path) → ts = ts'
  | [], [], _ => rfl
  | [], node _ _ :: _, h | node _ _ :: _, [], h => nomatch h 0 []
  | t :: ts, t' :: ts', h => by
    have hhead : t.label? = t'.label? := funext fun path => h 0 path
    have htail : ts = ts' := parts_ext fun i path => h (i + 1) path
    rw [ext hhead, htail]

end

end LabelTree

/-! ## The tree that is shown -/

namespace Heap

/-- The first levels of the unfolding of a value, as a finite tree. -/
def shown (h : Heap) : (levels : Nat) → Value → LabelTree
  | 0, v => .node (h.label v).hidden []
  | levels + 1, v => .node (h.label v) ((h.parts v).map (h.shown levels))

/-- The labels of the tree are those of the unfolding. -/
theorem label?_shown (h : Heap) (levels : Nat) (v : Value) :
    (h.shown levels v).label? = cut levels (h.unfolding v) := by
  funext path
  induction path generalizing levels v with
  | nil => cases levels <;> rfl
  | cons i path ih =>
    cases levels with
    | zero => exact (h.cut_zero_cons v i path).symm
    | succ levels =>
      rw [shown, LabelTree.label?, cut_succ_cons, List.getElem?_map, Option.bind_map]
      exact congrArg _ (funext fun w => ih levels w)

/-- An object is shown by its keys, each with the text of its value. -/
theorem text_object (es : List (String × Value)) (f : Value → String) :
    (Label.object (es.map Prod.fst)).text ((es.map Prod.snd).map f) =
      match es with
      | [] => "\x7b\x7d"
      | es => "\x7b " ++ String.intercalate ", " (es.map fun e => e.1 ++ ": " ++ f e.2) ++ " \x7d" := by
  cases es with
  | nil => rfl
  | cons e es =>
    have hentries : List.zipWith (fun key text => key ++ ": " ++ text) ((e :: es).map Prod.fst)
        (((e :: es).map Prod.snd).map f) = (e :: es).map fun e => e.1 ++ ": " ++ f e.2 := by
      rw [List.map_map, List.zipWith_map, List.zipWith_self]
      rfl
    dsimp only
    rw [← hentries]
    rfl

/-- The text of the tree is the text of the value. -/
theorem text_shown (h : Heap) (levels : Nat) (v : Value) :
    (h.shown levels v).text = h.render levels v := by
  induction levels generalizing v with
  | zero => cases v <;> rfl
  | succ levels ih =>
    rw [shown, LabelTree.text, LabelTree.texts_eq_map, List.map_map]
    have htexts : LabelTree.text ∘ h.shown levels = h.render levels := funext ih
    rw [htexts]
    cases v with
    | array r => rfl
    | object r => exact text_object (h.entries r).entries (h.render levels)
    | _ => rfl

/-- Without quotes around a text that is the value itself, the text of the tree is what is printed. -/
theorem bareText_shown (h : Heap) (v : Value) :
    (h.shown displayLevels v).bareText = h.display v := by
  have htext : (h.shown displayLevels v).text = h.inspect v := h.text_shown displayLevels v
  cases v with
  | string s => rfl
  | _ => exact htext

end Heap

/-- The quotes alone make a text longer. -/
theorem Text.length_lt_quoted (s : String) : s.length < (quoted s).length := by
  have hchar (c : Char) : 1 ≤ (quotedChar c).length := by
    unfold quotedChar
    repeat' split
    all_goals simp [codePointEscape]
  have hle : ∀ cs : List Char, cs.length ≤ (cs.flatMap quotedChar).length := by
    intro cs
    induction cs with
    | nil => exact Nat.le_refl _
    | cons c cs ih =>
      rw [List.flatMap_cons, List.length_append, List.length_cons]
      have := hchar c
      omega
  have := hle s.toList
  rw [← String.length_toList, ← String.length_toList, quoted, String.toList_ofList, List.length_cons,
    List.length_append]
  omega

/-- The text of every value of every heap, printed or inspected, is that of a finite tree, the only
one whose labels are those of the value's unfolding with every array and object inside 32 others
replaced by an ellipsis. So values whose unfoldings agree so far have the same texts, in whatever
heaps they are; and the two texts of a value differ exactly if it is a text. -/
theorem rendered_unfolding :
    (∀ (h : Heap) (v : Value), ∃ t : LabelTree, t.label? = cut 32 (h.unfolding v) ∧
      (∀ t' : LabelTree, t'.label? = cut 32 (h.unfolding v) → t' = t) ∧
      h.inspect v = t.text ∧ h.display v = t.bareText) ∧
    (∀ (h h' : Heap) (v v' : Value), cut 32 (h.unfolding v) = cut 32 (h'.unfolding v') →
      h.inspect v = h'.inspect v' ∧ h.display v = h'.display v') ∧
    ∀ (h : Heap) (v : Value), h.display v ≠ h.inspect v ↔ ∃ s, v = .string s := by
  refine ⟨fun h v => ?_, fun h h' v v' hcut => ?_, fun h v => ⟨fun hne => ?_, ?_⟩⟩
  · have hlabels := h.label?_shown displayLevels v
    refine ⟨h.shown displayLevels v, hlabels, fun t ht => ?_, ?_, (h.bareText_shown v).symm⟩
    · exact LabelTree.ext (ht.trans hlabels.symm)
    · exact (h.text_shown displayLevels v).symm
  · have hshown : h.shown displayLevels v = h'.shown displayLevels v' :=
      LabelTree.ext ((h.label?_shown _ v).trans (hcut.trans (h'.label?_shown _ v').symm))
    rw [← h.bareText_shown, ← h'.bareText_shown, Heap.inspect, Heap.inspect, ← h.text_shown,
      ← h'.text_shown, hshown]
    exact ⟨rfl, rfl⟩
  · cases v with
    | string s => exact ⟨s, rfl⟩
    | _ => exact absurd rfl hne
  · rintro ⟨s, rfl⟩ heq
    have hlt := Text.length_lt_quoted s
    have heq : s = Text.quoted s := heq
    rw [← heq] at hlt
    exact Nat.lt_irrefl _ hlt

/-- An array that holds itself. -/
def Heap.loop : Heap := { arrays := ⟨#[#[.array ⟨0⟩]]⟩ }

/-- Two arrays that hold each other. -/
def Heap.pair : Heap := { arrays := ⟨#[#[.array ⟨1⟩], #[.array ⟨0⟩]]⟩ }

/-- An array that holds itself cannot be told from two that hold each other. -/
theorem rendered_unfolding_sample :
    Heap.loop.unfolding (.array ⟨0⟩) = Heap.pair.unfolding (.array ⟨0⟩) ∧
    Heap.loop.inspect (.array ⟨0⟩) = Heap.pair.inspect (.array ⟨0⟩) ∧
    Heap.loop.display (.string "a") ≠ Heap.loop.inspect (.string "a") := by
  have hunfold (path : List Nat) :
      Heap.loop.unfolding (.array ⟨0⟩) path = Heap.pair.unfolding (.array ⟨0⟩) path ∧
      Heap.loop.unfolding (.array ⟨0⟩) path = Heap.pair.unfolding (.array ⟨1⟩) path := by
    induction path with
    | nil => exact ⟨rfl, rfl⟩
    | cons i path ih =>
      cases i with
      | zero => exact ⟨ih.2, ih.1⟩
      | succ i => exact ⟨rfl, rfl⟩
  have hagree := funext fun path => (hunfold path).1
  obtain ⟨-, htexts, hstrings⟩ := rendered_unfolding
  refine ⟨hagree, ?_, (hstrings Heap.loop (.string "a")).mpr ⟨"a", rfl⟩⟩
  exact (htexts Heap.loop Heap.pair (.array ⟨0⟩) (.array ⟨0⟩) (by rw [hagree])).1

end Scriptlet
