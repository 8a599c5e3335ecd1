import Scriptlet.Builtin
import Scriptlet.Proofs.Layout.Move
import Scriptlet.Value.Equal

/-!
# Moving values, and all that a machine holds

The positions in a value are those of the routine of a function and those in the value that
it is bound to, and a machine has them in its values, its classes and its events. What is
read off moved values is what is read off the values themselves, but for the move: their
types, truth values and texts are the same, and so are the names bound in a scope, the keys
of an object, the cells that there are, and what a built-in function sees of an argument.
Only the comparison of functions looks at a position, the one that tells routines apart; so
it gives the same if no two positions are moved to one (`Heap.equal_move`).
-/

namespace Scriptlet

/-! ## Maps and stores -/

instance {α : Type} [Movable α] : Movable (Array α) := ⟨fun ρ => Array.map (move ρ)⟩

namespace OrderedMap

variable {α : Type} [Movable α]

instance : Movable (OrderedMap α) where
  move ρ m := ⟨m.entries.map fun e => (e.1, move ρ e.2), by
    rw [List.map_map]
    exact m.nodup⟩

variable (ρ : Position → Position)

theorem ext {α : Type} {m m' : OrderedMap α} (h : m.entries = m'.entries) : m = m' := by
  obtain ⟨entries, _⟩ := m
  obtain ⟨entries', _⟩ := m'
  cases h
  rfl

@[simp] theorem move_empty : move ρ (empty : OrderedMap α) = empty := rfl

theorem keys_move (m : OrderedMap α) : (move ρ m).keys = m.keys := List.map_map

theorem size_move (m : OrderedMap α) : (move ρ m).size = m.size := List.length_map _

theorem get?_move (m : OrderedMap α) (x : String) : (move ρ m).get? x = move ρ (m.get? x) := by
  unfold get?
  show List.lookup x (m.entries.map fun e => (e.1, move ρ e.2)) = _
  induction m.entries with
  | nil => rfl
  | cons e es ih =>
    rw [List.map_cons, List.lookup_cons, List.lookup_cons]
    cases x == e.1 with
    | true => rfl
    | false => exact ih

theorem insert_move (m : OrderedMap α) (x : String) (a : α) :
    (move ρ m).insert x (move ρ a) = move ρ (m.insert x a) := by
  refine ext ?_
  show insertEntry x (move ρ a) (m.entries.map fun e => (e.1, move ρ e.2)) =
    (insertEntry x a m.entries).map fun e => (e.1, move ρ e.2)
  induction m.entries with
  | nil => rfl
  | cons e es ih =>
    obtain ⟨y, b⟩ := e
    rw [List.map_cons]
    unfold insertEntry
    split
    · rfl
    · exact congrArg ((y, move ρ b) :: ·) ih

theorem ofList_move (pairs : List (String × α)) :
    ofList (pairs.map fun p => (p.1, move ρ p.2)) = move ρ (ofList pairs) := by
  have from_map (m : OrderedMap α) :
      (pairs.map fun p => (p.1, move ρ p.2)).foldl (fun m p => m.insert p.1 p.2) (move ρ m) =
        move ρ (pairs.foldl (fun m p => m.insert p.1 p.2) m) := by
    induction pairs generalizing m with
    | nil => rfl
    | cons p pairs ih =>
      rw [List.map_cons, List.foldl_cons, insert_move]
      exact ih _
  exact from_map empty

end OrderedMap

namespace Store

variable {s : CellSort} {α : Type} [Movable α]

instance : Movable (Store s α) := ⟨fun ρ st => ⟨st.cells.map (move ρ)⟩⟩

variable (ρ : Position → Position)

@[simp] theorem move_empty : move ρ (empty : Store s α) = empty :=
  congrArg Store.mk Array.map_empty

@[simp] theorem size_move (st : Store s α) : (move ρ st).size = st.size := Array.size_map

@[simp] theorem next_move (st : Store s α) : (move ρ st).next = st.next :=
  congrArg Ref.mk Array.size_map

theorem get?_move (st : Store s α) (r : Ref s) : (move ρ st).get? r = move ρ (st.get? r) :=
  Array.getElem?_map

theorem alloc_move (st : Store s α) (a : α) :
    (move ρ st).alloc (move ρ a) = move ρ (st.alloc a) :=
  congrArg Store.mk Array.map_push.symm

theorem modify_move (st : Store s α) (r : Ref s) {f f' : α → α}
    (hf : ∀ a, f' (move ρ a) = move ρ (f a)) :
    (move ρ st).modify r f' = move ρ (st.modify r f) := by
  refine congrArg Store.mk (Array.ext_getElem? fun i => ?_)
  show ((st.cells.map (move ρ)).modify r.index f')[i]? =
    ((st.cells.modify r.index f).map (move ρ))[i]?
  rw [Array.getElem?_modify, Array.getElem?_map, Array.getElem?_map, Array.getElem?_modify]
  split
  · cases st.cells[i]? with
    | none => rfl
    | some a => exact congrArg some (hf a)
  · rfl

end Store

/-! ## Values -/

/-- The value with each position in it moved. -/
def Value.moved (ρ : Position → Position) : Value → Value
  | .function ⟨p, r, s, some v, n⟩ => .function ⟨p, move ρ r, s, some (v.moved ρ), n⟩
  | .function ⟨p, r, s, none, n⟩ => .function ⟨p, move ρ r, s, none, n⟩
  | v => v

instance : Movable Value := ⟨Value.moved⟩

instance : Movable Function :=
  ⟨fun ρ f => { f with routine := move ρ f.routine, receiver := move ρ f.receiver }⟩

instance : Movable Instance := ⟨fun ρ i => ⟨i.klass, move ρ i.fields⟩⟩

instance : Movable Class := ⟨fun ρ c => ⟨c.name, c.program, move ρ c.methods, c.scope⟩⟩

instance {s : CellSort} : Movable (Ref s) := ⟨fun _ r => r⟩

section

variable (ρ : Position → Position)

theorem Routine.name_move (r : Routine) : (move ρ r).name = r.name := by cases r; rfl

theorem Routine.params_move (r : Routine) : (move ρ r).params = r.params := by cases r; rfl

theorem Routine.body_move (r : Routine) : (move ρ r).body = move ρ r.body := by
  cases r
  exact stmtsMoved_eq ρ _

theorem Routine.position_move (r : Routine) : (move ρ r).position = ρ r.position := by cases r; rfl

namespace Value

theorem move_function (f : Function) : move ρ (Value.function f) = .function (move ρ f) := by
  obtain ⟨p, r, s, _ | v, n⟩ := f <;> rfl

theorem typeName_move (v : Value) : (move ρ v).typeName = v.typeName := by
  cases v with
  | function f => rw [move_function]; rfl
  | _ => rfl

theorem truthy_move (v : Value) : (move ρ v).truthy = v.truthy := by
  cases v with
  | function f => rw [move_function]; rfl
  | _ => rfl

end Value

end

/-! ## Heaps -/

instance : Movable Heap :=
  ⟨fun ρ h => ⟨move ρ h.arrays, move ρ h.objects, move ρ h.instances, move ρ h.classes⟩⟩

namespace Heap

variable (ρ : Position → Position) (h : Heap)

theorem items_move (r : Ref .array) : (move ρ h).items r = move ρ (h.items r) := by
  have hcell : (move ρ h).arrays.get? r = move ρ (h.arrays.get? r) := h.arrays.get?_move ρ r
  unfold items
  rw [hcell]
  cases h.arrays.get? r with
  | none => exact Array.map_empty.symm
  | some items => rfl

theorem entries_move (r : Ref .object) : (move ρ h).entries r = move ρ (h.entries r) := by
  have hcell : (move ρ h).objects.get? r = move ρ (h.objects.get? r) := h.objects.get?_move ρ r
  unfold entries
  rw [hcell]
  cases h.objects.get? r <;> rfl

theorem inst_move (r : Ref .inst) : (move ρ h).inst r = move ρ (h.inst r) := by
  have hcell : (move ρ h).instances.get? r = move ρ (h.instances.get? r) :=
    h.instances.get?_move ρ r
  unfold inst
  rw [hcell]
  cases h.instances.get? r <;> rfl

theorem klass_move (r : Ref .klass) : (move ρ h).klass r = move ρ (h.klass r) := by
  have hcell : (move ρ h).classes.get? r = move ρ (h.classes.get? r) := h.classes.get?_move ρ r
  unfold klass
  rw [hcell]
  cases h.classes.get? r <;> rfl

theorem classOf_move (r : Ref .inst) : (move ρ h).classOf r = move ρ (h.classOf r) := by
  unfold classOf
  rw [inst_move]
  exact klass_move ρ h _

theorem ownerName_move (v : Value) : (move ρ h).ownerName (move ρ v) = h.ownerName v := by
  cases v with
  | inst r => exact (congrArg Class.name (classOf_move ρ h r) : _ = (move ρ (h.classOf r)).name)
  | function f => rw [Value.move_function]; rfl
  | _ => rfl

theorem size_items_move (r : Ref .array) : ((move ρ h).items r).size = (h.items r).size := by
  rw [items_move]
  exact Array.size_map

/-! ### Texts -/

theorem render_move (levels : Nat) (v : Value) :
    (move ρ h).render levels (move ρ v) = h.render levels v := by
  -- The texts of these values are the same at all levels.
  have inst_text (n : Nat) (r : Ref .inst) :
      (move ρ h).render n (.inst r) = h.render n (.inst r) := by
    have hname : ((move ρ h).classOf r).name = (h.classOf r).name := by rw [classOf_move]; rfl
    cases n <;> exact congrArg (fun name => "<" ++ name ++ " instance>") hname
  have function_text (n : Nat) (f : Function) :
      (move ρ h).render n (move ρ (.function f)) = h.render n (.function f) := by
    rw [Value.move_function]
    cases n <;> exact congrArg (fun name => "<function " ++ name ++ ">") (f.routine.name_move ρ)
  have class_text (n : Nat) (r : Ref .klass) :
      (move ρ h).render n (.klass r) = h.render n (.klass r) := by
    have hname : ((move ρ h).klass r).name = (h.klass r).name := by rw [klass_move]; rfl
    cases n <;> exact congrArg (fun name => "<class " ++ name ++ ">") hname
  induction levels generalizing v with
  | zero =>
    cases v with
    | inst r => exact inst_text 0 r
    | function f => exact function_text 0 f
    | klass r => exact class_text 0 r
    | _ => rfl
  | succ n ih =>
    cases v with
    | inst r => exact inst_text (n + 1) r
    | function f => exact function_text (n + 1) f
    | klass r => exact class_text (n + 1) r
    | array r =>
      have htexts : ((move ρ h).items r).toList.map (fun v => (move ρ h).render n v) =
          (h.items r).toList.map fun v => h.render n v := by
        rw [items_move]
        show ((h.items r).map (move ρ)).toList.map _ = _
        rw [Array.toList_map, List.map_map]
        exact List.map_congr_left fun v _ => ih v
      exact congrArg (fun texts => "[" ++ String.intercalate ", " texts ++ "]") htexts
    | object r =>
      have htexts (es : List (String × Value)) :
          (es.map fun e => (e.1, move ρ e.2)).map (fun e => e.1 ++ ": " ++ (move ρ h).render n e.2) =
            es.map fun e => e.1 ++ ": " ++ h.render n e.2 := by
        rw [List.map_map]
        exact List.map_congr_left fun e _ => congrArg (e.1 ++ ": " ++ ·) (ih e.2)
      have hentries : ((move ρ h).entries r).entries =
          (h.entries r).entries.map fun e => (e.1, move ρ e.2) := by
        rw [entries_move]
        rfl
      show (move ρ h).render (n + 1) (.object r) = h.render (n + 1) (.object r)
      unfold render
      rw [hentries]
      cases (h.entries r).entries with
      | nil => rfl
      | cons e es =>
        exact congrArg (fun texts => "\x7b " ++ String.intercalate ", " texts ++ " \x7d")
          (htexts (e :: es))
    | _ => rfl

theorem display_move (v : Value) : (move ρ h).display (move ρ v) = h.display v := by
  cases v with
  | string s => rfl
  | function f =>
    have htext := render_move ρ h displayLevels (.function f)
    rw [Value.move_function] at htext ⊢
    exact htext
  | _ => exact render_move ρ h displayLevels _

/-! ### Unfoldings -/

theorem label_move (v : Value) : (move ρ h).label (move ρ v) = h.label v := by
  cases v with
  | array r => exact congrArg Label.array (size_items_move ρ h r)
  | object r =>
    refine congrArg Label.object ?_
    rw [entries_move, OrderedMap.keys_move]
  | inst r =>
    have hname : ((move ρ h).classOf r).name = (h.classOf r).name := by rw [classOf_move]; rfl
    exact congrArg Label.inst hname
  | function f =>
    rw [Value.move_function]
    exact congrArg Label.function (f.routine.name_move ρ)
  | klass r =>
    have hname : ((move ρ h).klass r).name = (h.klass r).name := by rw [klass_move]; rfl
    exact congrArg Label.klass hname
  | _ => rfl

theorem parts_move (v : Value) : (move ρ h).parts (move ρ v) = move ρ (h.parts v) := by
  cases v with
  | array r =>
    show ((move ρ h).items r).toList = _
    rw [items_move]
    exact Array.toList_map
  | object r =>
    show ((move ρ h).entries r).entries.map Prod.snd = (h.parts (.object r)).map (move ρ)
    rw [entries_move, parts, List.map_map]
    exact List.map_map
  | function f =>
    rw [Value.move_function]
    rfl
  | _ => rfl

theorem reached?_move (path : List Nat) (v : Value) :
    (move ρ h).reached? path (move ρ v) = move ρ (h.reached? path v) := by
  induction path generalizing v with
  | nil => rfl
  | cons i path ih =>
    unfold reached?
    rw [parts_move, show (move ρ (h.parts v))[i]? = move ρ (h.parts v)[i]? from List.getElem?_map]
    cases (h.parts v)[i]? with
    | none => rfl
    | some w => exact ih w

theorem sight_move (v : Value) : (move ρ h).sight (move ρ v) = h.sight v := by
  have hunfolding : (move ρ h).unfolding (move ρ v) = h.unfolding v := by
    funext path
    unfold unfolding
    rw [reached?_move]
    cases h.reached? path v with
    | none => rfl
    | some w => exact congrArg some (label_move ρ h w)
  have htext (quoted : Bool) : (if quoted then (move ρ h).inspect (move ρ v)
      else (move ρ h).display (move ρ v)) = if quoted then h.inspect v else h.display v := by
    rw [display_move, inspect, render_move]
    rfl
  unfold sight
  rw [label_move, hunfolding]
  exact congrArg _ (funext htext)

theorem yielded_move (args : List Value) (y : Yield) :
    (move ρ h).yielded (move ρ args) y = move ρ (h.yielded args y) := by
  cases y with
  | datum d => cases d <;> rfl
  | part i path =>
    show ((move ρ args)[i]?.bind ((move ρ h).reached? path)).getD .undefined =
      move ρ ((args[i]?.bind (h.reached? path)).getD .undefined)
    rw [show (move ρ args)[i]? = move ρ args[i]? from List.getElem?_map]
    cases args[i]? with
    | none => rfl
    | some v =>
      show ((move ρ h).reached? path (move ρ v)).getD .undefined =
        move ρ ((h.reached? path v).getD .undefined)
      rw [reached?_move]
      cases h.reached? path v <;> rfl

/-! ### Equality -/

variable {ρ} (hρ : Function.Injective ρ)
include hρ

theorem alike_move (f g : Function) : (move ρ f).alike (move ρ g) = f.alike g := by
  have hposition : decide ((move ρ f).routine.position = (move ρ g).routine.position) =
      decide (f.routine.position = g.routine.position) := by
    rw [decide_eq_decide]
    show (move ρ f.routine).position = (move ρ g.routine).position ↔ _
    rw [Routine.position_move, Routine.position_move]
    exact hρ.eq_iff
  unfold Function.alike
  rw [hposition]
  rfl

omit hρ in
theorem boundAs_move {f g : Function} {test test' : Value → Value → Bool}
    (htest : ∀ x, f.receiver = some x → ∀ y, test' (move ρ x) (move ρ y) = test x y) :
    (move ρ f).boundAs (move ρ g) test' = f.boundAs g test := by
  have hf : (move ρ f).receiver = move ρ f.receiver := rfl
  have hg : (move ρ g).receiver = move ρ g.receiver := rfl
  unfold Function.boundAs
  rw [hf, hg]
  cases hx : f.receiver with
  | none => cases g.receiver <;> rfl
  | some x =>
    cases g.receiver with
    | none => rfl
    | some y => exact htest x hx y

omit hρ in
theorem move_ne_function {v : Value} (hv : ∀ f, v ≠ .function f) (f : Function) :
    move ρ v ≠ .function f := by
  cases v with
  | function g => exact absurd rfl (hv g)
  | _ => nofun

theorem identical_move (l r : Value) : (move ρ l).identical (move ρ r) = l.identical r := by
  induction l using Value.inductionOnReceiver generalizing r with
  | function f ih =>
    rw [Value.move_function]
    by_cases hr : ∃ g, r = .function g
    · obtain ⟨g, rfl⟩ := hr
      rw [Value.move_function, Value.identical_function, Value.identical_function, alike_move hρ,
        boundAs_move ih]
      rfl
    · have hr : ∀ g, r ≠ .function g := fun g hg => hr ⟨g, hg⟩
      rw [Value.identical_function_other f hr,
        Value.identical_function_other _ (move_ne_function hr)]
  | other l hl =>
    cases l with
    | function f => exact absurd rfl (hl f)
    | _ =>
      cases r with
      | function g => rw [Value.move_function]; rfl
      | _ => rfl

theorem equalBy_move {inner inner' : List CellPair → Value → Value → Bool}
    (hinner : ∀ path l r, inner' path (move ρ l) (move ρ r) = inner path l r)
    (path : List CellPair) (l r : Value) :
    (move ρ h).equalBy inner' path (move ρ l) (move ρ r) = h.equalBy inner path l r := by
  induction l using Value.inductionOnReceiver generalizing r with
  | function f ih =>
    rw [Value.move_function]
    by_cases hr : ∃ g, r = .function g
    · obtain ⟨g, rfl⟩ := hr
      have hidentical := identical_move hρ (.function f) (.function g)
      rw [Value.move_function, Value.move_function] at hidentical
      rw [Value.move_function, equalBy_function, equalBy_function, hidentical, alike_move hρ,
        boundAs_move ih]
    · have hr : ∀ g, r ≠ .function g := fun g hg => hr ⟨g, hg⟩
      rw [equalBy_function_other h inner path f hr,
        equalBy_function_other _ inner' path _ (move_ne_function hr)]
  | other l hl =>
    cases l with
    | function f => exact absurd rfl (hl f)
    | array a =>
      cases r with
      | array b =>
        have hall : (((move ρ h).items a).toList.zip ((move ρ h).items b).toList).all
              (fun p => inner' (.arrays a b :: path) p.1 p.2) =
            ((h.items a).toList.zip (h.items b).toList).all
              fun p => inner (.arrays a b :: path) p.1 p.2 := by
          rw [items_move, items_move]
          show (((h.items a).map (move ρ)).toList.zip ((h.items b).map (move ρ)).toList).all _ = _
          rw [Array.toList_map, Array.toList_map, List.zip_map, List.all_map]
          exact congrArg _ (funext fun p => hinner _ p.1 p.2)
        show (move ρ h).equalBy inner' path (.array a) (.array b) = _
        unfold equalBy
        dsimp only
        rw [hall, size_items_move, size_items_move]
      | function g => rw [Value.move_function]; rfl
      | _ => rfl
    | object a =>
      cases r with
      | object b =>
        have hsizes : (((move ρ h).entries a).size = ((move ρ h).entries b).size) =
            ((h.entries a).size = (h.entries b).size) := by
          rw [entries_move, entries_move, OrderedMap.size_move, OrderedMap.size_move]
        show (move ρ h).equalBy inner' path (.object a) (.object b) = _
        unfold equalBy
        simp only [hsizes]
        split
        · rfl
        · refine congrArg (decide _ && ·) ?_
          rw [entries_move, entries_move]
          refine List.all_map.trans (congrArg _ (funext fun e => ?_))
          dsimp only [Function.comp]
          rw [OrderedMap.get?_move]
          cases (h.entries b).get? e.1 with
          | none => rfl
          | some y => exact hinner _ e.2 y
      | function g => rw [Value.move_function]; rfl
      | _ => rfl
    | _ =>
      cases r with
      | function g => rw [Value.move_function]; rfl
      | _ => rfl

theorem equalAlong_move (fuel : Nat) (path : List CellPair) (l r : Value) :
    (move ρ h).equalAlong fuel path (move ρ l) (move ρ r) = h.equalAlong fuel path l r := by
  induction fuel generalizing path l r with
  | zero => rfl
  | succ fuel ih => exact equalBy_move h hρ ih path l r

theorem equal_move (l r : Value) : (move ρ h).equal (move ρ l) (move ρ r) = h.equal l r := by
  have hbound : (move ρ h).pairBound = h.pairBound := by
    show (move ρ h.arrays).size * (move ρ h.arrays).size +
      (move ρ h.objects).size * (move ρ h.objects).size + 1 = _
    rw [Store.size_move, Store.size_move]
    rfl
  unfold equal
  rw [hbound]
  exact equalAlong_move h hρ _ _ _ _

end Heap

end Scriptlet
