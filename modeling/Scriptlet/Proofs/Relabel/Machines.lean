import Scriptlet.Proofs.Eval.Bounds
import Scriptlet.Proofs.Layout.Machines
import Scriptlet.Proofs.Relabel.Values

/-!
# Two machines whose things are labelled differently

Operations on values that stand for each other give such values, or fail for the same cause, and
they write to cells that stand for each other (`Answers`). A name is found in the corresponding
scope, a new cell corresponds to the new cell of the other run, and calls are counted alike, so
`Relabeling.Machines` holds after each operation if it held before.
-/

namespace Scriptlet

/-! ## Results -/

/-- Both results are there and related, or both are missing for the same cause. -/
inductive Answers {α β : Type} (R : α → β → Prop) : Except Cause α → Except Cause β → Prop
  | ok {a : α} {b : β} : R a b → Answers R (.ok a) (.ok b)
  | error (c : Cause) : Answers R (.error c) (.error c)

theorem Answers.ite {α β : Type} {R : α → β → Prop} {c : Prop} [Decidable c] {r s : Except Cause α}
    {r' s' : Except Cause β} (ht : Answers R r r') (he : Answers R s s') :
    Answers R (if c then r else s) (if c then r' else s') := by
  split
  · exact ht
  · exact he

namespace Relabeling

variable {κ : Relabeling} {n n' : Nat} {v v' w w' : Value} {h h' : Heap}

/-! ## Operators -/

theorem Relates.of_plain (hv : v.Plain) : κ.Relates n v v := by
  cases v with
  | undefined => exact .undefined
  | null => exact .null
  | boolean b => exact .boolean b
  | integer i => exact .integer i
  | float x => exact .float x
  | string s => exact .string s
  | _ => exact hv.elim

/-- An operation that gives plain values gives values that stand for themselves. -/
theorem answers_of_gives {r r' : Except Cause Value} (h : Gives Value.Plain r) (hr : r' = r) :
    Answers (κ.Relates n) r r' := by
  subst hr
  cases r' with
  | ok v => exact .ok (.of_plain h)
  | error c => exact .error c

section

variable (hv : κ.Relates n v v') (hw : κ.Relates n w w')
include hv

theorem applyUnary (op : UnaryOp) :
    Answers (κ.Relates n) (applyUnary op v) (applyUnary op v') := by
  refine answers_of_gives (Gives.applyUnary op v) ?_
  cases op <;> cases hv <;> rfl

include hw

theorem arithmetic_eq (op : BinaryOp) (onInts : Int → Int → Int)
    (onFloats : Float → Float → Float) :
    arithmetic op onInts onFloats v' w' = arithmetic op onInts onFloats v w := by
  cases hv <;> cases hw <;> rfl

theorem divide_eq : divide v' w' = divide v w := by
  cases hv <;> cases hw <;> rfl

theorem remainder_eq : remainder v' w' = remainder v w := by
  cases hv <;> cases hw <;> rfl

theorem power_eq : power v' w' = power v w := by
  cases hv <;> cases hw <;> rfl

theorem ordered_eq (op : BinaryOp) (test : Ordering → Bool) :
    ordered op test v' w' = ordered op test v w := by
  cases hv <;> cases hw <;> rfl

theorem add_eq (hh : κ.Heaps n h h') (hn : n ≤ h.instances.size) : h'.add v' w' = h.add v w := by
  have joined (a : String) : h'.add (.string a) w' = h.add (.string a) w :=
    congrArg (fun text => Except.ok (Value.string (a ++ text))) (hh.display hn hw)
  have joining (b : String) : h'.add v' (.string b) = h.add v (.string b) := by
    have htext : (.ok (.string (h'.display v' ++ b)) : Except Cause Value) =
        .ok (.string (h.display v ++ b)) := by rw [hh.display hn hv]
    cases hv with
    | string a => rfl
    | _ => exact htext
  cases hv with
  | string a => exact joined a
  | _ =>
    cases hw with
    | string b => exact joining b
    | _ => rfl

theorem applyBinary (hh : κ.Heaps n h h') (hn : n ≤ h.instances.size) (op : BinaryOp) :
    Answers (κ.Relates n) (h.applyBinary op v w) (h'.applyBinary op v' w') := by
  refine answers_of_gives (Gives.applyBinary h op v w) ?_
  cases op with
  | add => exact add_eq hv hw hh hn
  | subtract => exact arithmetic_eq hv hw _ _ _
  | multiply => exact arithmetic_eq hv hw _ _ _
  | divide => exact divide_eq hv hw
  | remainder => exact remainder_eq hv hw
  | power => exact power_eq hv hw
  | equal => exact congrArg (fun b => Except.ok (Value.boolean b)) (hh.equal hv hw)
  | notEqual => exact congrArg (fun b => Except.ok (Value.boolean !b)) (hh.equal hv hw)
  | less => exact ordered_eq hv hw _ _
  | lessEqual => exact ordered_eq hv hw _ _
  | greater => exact ordered_eq hv hw _ _
  | greaterEqual => exact ordered_eq hv hw _ _

end

/-! ## Parts of values -/

/-- A place in the second heap. -/
def spot (κ : Relabeling) : Place → Place
  | .item r i => .item (κ.ref r) i
  | .behind r => .behind (κ.ref r)
  | .entry r key => .entry (κ.ref r) key
  | .field r x => .field (κ.ref r) x

theorem indexPosition?_eq (hv : κ.Relates n v v') : indexPosition? v' = indexPosition? v := by
  cases hv <;> rfl

theorem cannotIndex_eq (hv : κ.Relates n v v') (hw : κ.Relates n w w') :
    cannotIndex v' w' = cannotIndex v w := by
  unfold cannotIndex
  rw [hv.typeName, hw.typeName]

theorem positionIn_eq (hv : κ.Relates n v v') (hw : κ.Relates n w w') (length : Nat) :
    positionIn v' w' length = positionIn v w length := by
  unfold positionIn
  rw [indexPosition?_eq hw, cannotIndex_eq hv hw]

theorem memberPlace (hv : κ.Relates n v v') (x : String) :
    Answers (fun spot spot' => spot' = κ.spot spot) (memberPlace v x) (memberPlace v' x) := by
  cases hv with
  | object r => exact .ok rfl
  | inst _ => exact .ok rfl
  | _ => exact .error _

namespace Heaps

variable (hh : κ.Heaps n h h')
include hh

theorem item (r : Ref .array) (i : Nat) :
    κ.Relates n ((h.items r).getD i .undefined) ((h'.items (κ.ref r)).getD i .undefined) := by
  have hitem := forall₂_getElem? (hh.items r) i
  rw [Array.getD_eq_getD_getElem?, Array.getD_eq_getD_getElem?, ← Array.getElem?_toList,
    ← Array.getElem?_toList]
  exact option_rel_getD hitem .undefined

theorem getIndex (hv : κ.Relates n v v') (hw : κ.Relates n w w') :
    Answers (κ.Relates n) (h.getIndex v w) (h'.getIndex v' w') := by
  cases hv with
  | array r =>
    show Answers _ ((positionIn (.array r) w (h.items r).size).bind fun i =>
      .ok ((h.items r).getD i .undefined))
      ((positionIn (.array (κ.ref r)) w' (h'.items (κ.ref r)).size).bind fun i =>
        .ok ((h'.items (κ.ref r)).getD i .undefined))
    rw [hh.size_items, positionIn_eq (.array r) hw]
    cases positionIn (.array r) w (h.items r).size with
    | error c => exact .error c
    | ok i => exact .ok (hh.item r i)
  | string s =>
    show Answers _ ((positionIn (.string s) w s.length).bind fun i =>
      .ok (Value.string (String.ofList ((s.toList.drop i).take 1))))
      ((positionIn (.string s) w' s.length).bind fun i =>
        .ok (Value.string (String.ofList ((s.toList.drop i).take 1))))
    rw [positionIn_eq (.string s) hw]
    cases positionIn (.string s) w s.length with
    | error c => exact .error c
    | ok i => exact .ok (.string _)
  | object r =>
    cases hw with
    | string x =>
      have hentry := (hh.entries r).get? x
      unfold Heap.getIndex
      dsimp only
      generalize (h.entries r).get? x = y at hentry
      generalize (h'.entries (κ.ref r)).get? x = y' at hentry
      cases hentry with
      | none => exact .error _
      | some hy => exact .ok hy
    | _ => exact .error _
  | _ => cases hw <;> exact .error _

theorem indexPlace (hv : κ.Relates n v v') (hw : κ.Relates n w w') :
    Answers (fun spot spot' => spot' = κ.spot spot) (h.indexPlace v w) (h'.indexPlace v' w') := by
  cases hv with
  | array r =>
    have herror : cannotIndex (.array (κ.ref r)) w' = cannotIndex (.array r) w :=
      cannotIndex_eq (.array r) hw
    unfold Heap.indexPlace
    dsimp only
    rw [hh.size_items, indexPosition?_eq hw, herror]
    cases indexPosition? w with
    | none => exact .error _
    | some i => exact .ite (.ok rfl) (.ite (.ok rfl) (.error _))
  | object r =>
    cases hw with
    | string x => exact .ok rfl
    | _ => exact .error _
  | _ => cases hw <;> exact .error _

theorem member? (hn : n ≤ h.instances.size) (hv : κ.Relates n v v') (x : String) :
    Option.Rel (κ.Relates n) (h.member? v x) (h'.member? v' x) := by
  have length (i : Nat) : Option.Rel (κ.Relates n)
      (if x = "length" then some (Value.integer (Int64.ofNat i)) else none)
      (if x = "length" then some (Value.integer (Int64.ofNat i)) else none) := by
    split
    · exact .some (.integer _)
    · exact .none
  cases hv with
  | @inst r hr =>
    have hfield := (hh.fields r).get? x
    have hmethod := hh.method? (h.inst r).klass x (.inst hr) (κ.bindable_inst r)
    show Option.Rel _
      (((h.inst r).fields.get? x).or
        (((h.klass (h.inst r).klass).method? x (.inst r)).map Value.function))
      (((h'.inst (κ.ref r)).fields.get? x).or
        (((h'.klass (h'.inst (κ.ref r)).klass).method? x (.inst (κ.ref r))).map Value.function))
    rw [hh.ownClass hn hr]
    generalize (h.inst r).fields.get? x = y at hfield
    generalize (h'.inst (κ.ref r)).fields.get? x = y' at hfield
    cases hfield with
    | some hy => exact .some hy
    | none => exact option_rel_map hmethod fun _ _ hf => hf
  | object r => exact (hh.entries r).get? x
  | array r =>
    show Option.Rel _ (if x = "length" then some (Value.integer (Int64.ofNat (h.items r).size)) else none)
      (if x = "length" then some (Value.integer (Int64.ofNat (h'.items (κ.ref r)).size)) else none)
    rw [hh.size_items]
    exact length _
  | string s => exact length s.length
  | _ => exact .none

theorem getMember (hn : n ≤ h.instances.size) (hv : κ.Relates n v v') (x : String) :
    Answers (κ.Relates n) (h.getMember v x) (h'.getMember v' x) := by
  have hmember := hh.member? hn hv x
  rw [Heap.getMember_eq, Heap.getMember_eq, hh.ownerName hn hv]
  generalize h.member? v x = y at hmember
  generalize h'.member? v' x = y' at hmember
  cases hmember with
  | none => exact .error _
  | some hy => exact .ok hy

theorem loopItems (hv : κ.Relates n v v') :
    Answers (List.Forall₂ (κ.Relates n)) (h.loopItems v) (h'.loopItems v') := by
  have texts (ss : List String) :
      List.Forall₂ (κ.Relates n) (ss.map Value.string) (ss.map Value.string) := by
    induction ss with
    | nil => exact .nil
    | cons s ss ih => exact .cons (.string s) ih
  cases hv with
  | array r => exact .ok (hh.items r)
  | string s =>
    refine .ok ?_
    have hchars := texts (s.toList.map fun c => String.ofList [c])
    rwa [List.map_map] at hchars
  | object r =>
    refine .ok ?_
    rw [(hh.entries r).keys]
    exact texts _
  | _ => exact .error _

/-! ### New cells -/

theorem newArray {items items' : List Value} (hitems : List.Forall₂ (κ.Relates n) items items') :
    κ.Relates n (h.newArray items.toArray).1 (h'.newArray items'.toArray).1 ∧
      κ.Heaps n (h.newArray items.toArray).2 (h'.newArray items'.toArray).2 := by
  refine ⟨?_, { hh with arrays := hh.arrays.alloc hitems }⟩
  have hnext : h'.arrays.next = κ.ref h.arrays.next := congrArg Ref.mk hh.arrays.size
  show κ.Relates n (.array h.arrays.next) (.array h'.arrays.next)
  rw [hnext]
  exact .array _

theorem newObject {m m' : OrderedMap Value} (hm : m.Matches (κ.Relates n) m') :
    κ.Relates n (h.newObject m).1 (h'.newObject m').1 ∧
      κ.Heaps n (h.newObject m).2 (h'.newObject m').2 := by
  refine ⟨?_, { hh with objects := hh.objects.alloc hm }⟩
  have hnext : h'.objects.next = κ.ref h.objects.next := congrArg Ref.mk hh.objects.size
  show κ.Relates n (.object h.objects.next) (.object h'.objects.next)
  rw [hnext]
  exact .object _

theorem newClass {c c' : Class} (hc : κ.Classes c c') :
    κ.Relates n (h.newClass c).1 (h'.newClass c').1 ∧
      κ.Heaps n (h.newClass c).2 (h'.newClass c').2 := by
  refine ⟨?_, { hh with classes := hh.classes.alloc hc }⟩
  have hnext : h'.classes.next = κ.ref h.classes.next := congrArg Ref.mk hh.classes.size
  show κ.Relates n (.klass h.classes.next) (.klass h'.classes.next)
  rw [hnext]
  exact .klass _

theorem newInstance (r : Ref .klass) :
    (h'.newInstance (κ.ref r)).1 = κ.ref (h.newInstance r).1 ∧
      κ.Heaps n (h.newInstance r).2 (h'.newInstance (κ.ref r)).2 :=
  ⟨congrArg Ref.mk hh.instances.size,
    { hh with instances := hh.instances.alloc ⟨rfl, .empty⟩ }⟩

/-! ### Writes -/

theorem write (hv : κ.Relates n v v') (spot : Place) :
    κ.Heaps n (h.write spot v) (h'.write (κ.spot spot) v') := by
  cases spot with
  | item r i =>
    refine { hh with arrays := hh.arrays.modify r fun items items' hitems => ?_ }
    rw [Array.toList_setIfInBounds, Array.toList_setIfInBounds]
    exact forall₂_set hitems i hv
  | behind r =>
    refine { hh with arrays := hh.arrays.modify r fun items items' hitems => ?_ }
    rw [Array.toList_push, Array.toList_push]
    exact forall₂_concat hitems hv
  | entry r key =>
    exact { hh with objects := hh.objects.modify r fun _ _ hm => hm.insert key hv }
  | field r x =>
    exact { hh with
      instances := hh.instances.modify r fun _ _ hi => ⟨hi.klass, hi.fields.insert x hv⟩ }

end Heaps

theorem size_instances_write (h : Heap) (spot : Place) (v : Value) :
    (h.write spot v).instances.size = h.instances.size := by
  cases spot with
  | field r x => exact Store.size_modify ..
  | _ => rfl

/-! ## Environments -/

/-- A binding in the second run. -/
structure Bindings (κ : Relabeling) (n : Nat) (b b' : Binding) : Prop where
  value : κ.Relates n b.value b'.value
  mode : b'.mode = b.mode

/-- A scope in the second run. -/
structure Scopes (κ : Relabeling) (n : Nat) (s s' : Scope) : Prop where
  bindings : s.bindings.Matches (κ.Bindings n) s'.bindings
  parent : s'.parent = s.parent.map κ.ref

/-- The environments bind the same, but for older scopes. -/
structure Environments (κ : Relabeling) (n : Nat) (e e' : Environment) : Prop where
  scopes : e.scopes.Matches (κ.older .scope) (κ.Scopes n) e'.scopes
  globals : e'.globals = κ.ref e.globals
  current : e'.current = κ.ref e.current
  callDepth : e'.callDepth = e.callDepth
  limit : e.callLimit = κ.limit
  limit' : e'.callLimit = κ.limit
  numbered : κ.numbered e.numbered e'.numbered

namespace Environments

variable {e e' : Environment}

theorem mono (he : κ.Environments n e e') (hn : n ≤ n') : κ.Environments n' e e' :=
  { he with
    scopes := he.scopes.mono fun _ _ hs =>
      ⟨hs.bindings.mono fun _ _ hb => ⟨hb.value.mono hn, hb.mode⟩, hs.parent⟩ }

variable (he : κ.Environments n e e')
include he

theorem bindings (r : Ref .scope) :
    (e.bindings r).Matches (κ.Bindings n) (e'.bindings (κ.ref r)) :=
  option_rel_getD (option_rel_map (he.scopes.cell r.index) fun _ _ hs => hs.bindings) .empty

theorem parent? (r : Ref .scope) : e'.parent? (κ.ref r) = (e.parent? r).map κ.ref := by
  have hscope : Option.Rel (κ.Scopes n) (e.scopes.get? r) (e'.scopes.get? (κ.ref r)) :=
    he.scopes.cell r.index
  unfold Environment.parent?
  generalize e.scopes.get? r = s at hscope
  generalize e'.scopes.get? (κ.ref r) = s' at hscope
  cases hscope with
  | none => rfl
  | some hs => exact hs.parent

theorem findWithin (x : String) (fuel : Nat) (r : Ref .scope) :
    Option.Rel (fun found found' => found'.1 = κ.ref found.1 ∧ κ.Bindings n found.2 found'.2)
      (e.findWithin x fuel r) (e'.findWithin x fuel (κ.ref r)) := by
  induction fuel generalizing r with
  | zero => exact .none
  | succ fuel ih =>
    have hfound := (he.bindings r).get? x
    unfold Environment.findWithin
    rw [he.parent? r]
    generalize (e.bindings r).get? x = b at hfound
    generalize (e'.bindings (κ.ref r)).get? x = b' at hfound
    cases hfound with
    | some hb => exact .some ⟨rfl, hb⟩
    | none =>
      cases e.parent? r with
      | none => exact .none
      | some p => exact ih p

theorem find? (r : Ref .scope) (x : String) :
    Option.Rel (fun found found' => found'.1 = κ.ref found.1 ∧ κ.Bindings n found.2 found'.2)
      (e.find? r x) (e'.find? (κ.ref r) x) := by
  have hsize : e.scopes.size ≤ e'.scopes.size := by
    rw [he.scopes.size]
    exact Nat.le_add_left _ _
  rw [← Environment.findWithin_of_le hsize]
  exact he.findWithin x e'.scopes.size r

theorem lookup? (x : String) : Option.Rel (κ.Relates n) (e.lookup? x) (e'.lookup? x) := by
  unfold Environment.lookup? Environment.lookupFrom?
  rw [he.current]
  exact option_rel_map (he.find? e.current x) fun _ _ hfound => hfound.2.value

theorem assignable (x : String) :
    Answers (fun r r' => r' = κ.ref r) (e.assignable e.current x)
      (e'.assignable e'.current x) := by
  have hfound := he.find? e.current x
  unfold Environment.assignable
  rw [he.current]
  generalize e.find? e.current x = found at hfound
  generalize e'.find? (κ.ref e.current) x = found' at hfound
  cases hfound with
  | none => exact .error _
  | @some found found' hb =>
    obtain ⟨owner, value, mode⟩ := found
    obtain ⟨owner', value', mode'⟩ := found'
    obtain ⟨rfl, -, hmode⟩ := hb
    cases (show mode' = mode from hmode)
    cases mode with
    | constant => exact .error _
    | mutable => exact .ok rfl

theorem defineIn (r : Ref .scope) (x : String) (hv : κ.Relates n v v') (mode : Mode) :
    κ.Environments n (e.defineIn r x v mode) (e'.defineIn (κ.ref r) x v' mode) :=
  { he with scopes := he.scopes.modify r fun _ _ hs => ⟨hs.bindings.insert x ⟨hv, rfl⟩, hs.parent⟩ }

theorem define (x : String) (hv : κ.Relates n v v') (mode : Mode) :
    κ.Environments n (e.define x v mode) (e'.define x v' mode) := by
  unfold Environment.define
  rw [he.current]
  exact he.defineIn e.current x hv mode

theorem defineGlobal (x : String) (hv : κ.Relates n v v') :
    κ.Environments n (e.defineGlobal x v) (e'.defineGlobal x v') := by
  unfold Environment.defineGlobal
  rw [he.globals]
  exact he.defineIn e.globals x hv .mutable

theorem enter (r : Ref .scope) : κ.Environments n (e.enter r) (e'.enter (κ.ref r)) :=
  { he with current := rfl }

theorem newScope (parent : Ref .scope) :
    (e'.newScope (some (κ.ref parent))).1 = κ.ref (e.newScope (some parent)).1 ∧
      κ.Environments n (e.newScope (some parent)).2 (e'.newScope (some (κ.ref parent))).2 :=
  ⟨congrArg Ref.mk he.scopes.size, { he with scopes := he.scopes.alloc ⟨.empty, rfl⟩ }⟩

theorem enterCall : Answers (κ.Environments n) e.enterCall e'.enterCall := by
  unfold Environment.enterCall
  rw [he.callDepth, he.limit, he.limit']
  exact .ite (.error _) (.ok { he with callDepth := rfl, limit := rfl, limit' := rfl })

theorem exitCall : κ.Environments n e.exitCall e'.exitCall :=
  { he with callDepth := congrArg (· - 1) he.callDepth }

theorem globalNames : e'.globalNames = e.globalNames := by
  unfold Environment.globalNames Environment.names
  rw [he.globals]
  exact (he.bindings e.globals).keys

end Environments

/-! ## Machines -/

/-- The machines differ only in how things are labelled. -/
structure Machines (κ : Relabeling) (m m' : Machine) : Prop where
  env : κ.Environments m.heap.instances.size m.env m'.env
  heap : κ.Heaps m.heap.instances.size m.heap m'.heap
  host : m'.host = m.host
  interrupted : m'.interrupted = m.interrupted
  settings : m.settings = κ.settings
  settings' : m'.settings = κ.settings
  events : κ.logs m.events m'.events

end Relabeling

end Scriptlet
