import Scriptlet.Machine
import Scriptlet.Proofs.Eval.Results
import Scriptlet.Proofs.Layout.Values

/-!
# Moving a machine

Operations on moved values give the moved results, or fail for the same cause, and they
write to the same places. A name is found in the same scope, a new cell has the same
reference, and calls are counted alike, so a moved machine differs from the machine only
in the positions of its routines and of its events.
-/

namespace Scriptlet

instance {ε α : Type} [Movable ε] [Movable α] : Movable (Except ε α) where
  move ρ
    | .ok a => .ok (move ρ a)
    | .error e => .error (move ρ e)

instance : Movable Cause := ⟨fun _ c => c⟩

instance : Movable Place := ⟨fun _ place => place⟩

section

variable (ρ : Position → Position)

/-! ## Operators -/

theorem Value.move_of_plain {v : Value} (hv : v.Plain) : move ρ v = v := by
  cases v with
  | function f => exact hv.elim
  | _ => rfl

theorem Gives.move_of_plain {r : Except Cause Value} (h : Gives Value.Plain r) : move ρ r = r := by
  cases r with
  | ok v => exact congrArg Except.ok (Value.move_of_plain ρ h)
  | error c => rfl

/-- Moving the operands is not noticed by an operation that does not look into functions. -/
theorem eq_move_of_blind {α : Type} (op : Value → Value → α)
    (hleft : ∀ f f' r, op (.function f) r = op (.function f') r)
    (hright : ∀ l g g', op l (.function g) = op l (.function g')) (l r : Value) :
    op (move ρ l) (move ρ r) = op l r := by
  have left (l r : Value) : op (move ρ l) r = op l r := by
    cases l with
    | function f =>
      rw [Value.move_function]
      exact hleft _ _ r
    | _ => rfl
  rw [left]
  cases r with
  | function g =>
    rw [Value.move_function]
    exact hright l _ _
  | _ => rfl

theorem arithmetic_move (op : BinaryOp) (onInts : Int → Int → Int)
    (onFloats : Float → Float → Float)
    (l r : Value) : arithmetic op onInts onFloats (move ρ l) (move ρ r) =
      arithmetic op onInts onFloats l r :=
  eq_move_of_blind ρ (arithmetic op onInts onFloats) (fun _ _ _ => rfl)
    (fun l _ _ => by cases l <;> rfl) l r

theorem divide_move (l r : Value) : divide (move ρ l) (move ρ r) = divide l r :=
  eq_move_of_blind ρ divide (fun _ _ _ => rfl) (fun l _ _ => by cases l <;> rfl) l r

theorem remainder_move (l r : Value) : remainder (move ρ l) (move ρ r) = remainder l r :=
  eq_move_of_blind ρ remainder (fun _ _ _ => rfl) (fun l _ _ => by cases l <;> rfl) l r

theorem power_move (l r : Value) : power (move ρ l) (move ρ r) = power l r :=
  eq_move_of_blind ρ power (fun _ _ _ => rfl) (fun l _ _ => by cases l <;> rfl) l r

theorem ordered_move (op : BinaryOp) (test : Ordering → Bool) (l r : Value) :
    ordered op test (move ρ l) (move ρ r) = ordered op test l r :=
  eq_move_of_blind ρ (ordered op test) (fun _ _ _ => rfl) (fun l _ _ => by cases l <;> rfl) l r

theorem applyUnary_move (op : UnaryOp) (v : Value) :
    applyUnary op (move ρ v) = move ρ (applyUnary op v) := by
  rw [(Gives.applyUnary op v).move_of_plain ρ]
  cases v with
  | function f =>
    rw [Value.move_function]
    cases op <;> rfl
  | _ => cases op <;> rfl

namespace Heap

variable (h : Heap)

theorem add_move (l r : Value) : (move ρ h).add (move ρ l) (move ρ r) = h.add l r := by
  have joined (a : String) (v : Value) :
      (move ρ h).add (.string a) (move ρ v) = h.add (.string a) v :=
    congrArg (fun text => Except.ok (Value.string (a ++ text))) (display_move ρ h v)
  have joining (b : String) (v : Value) :
      (move ρ h).add (move ρ v) (.string b) = h.add v (.string b) := by
    have htext := congrArg (fun text => (Except.ok (.string (text ++ b)) : Except Cause Value))
      (display_move ρ h v)
    cases v with
    | string a => rfl
    | function f =>
      rw [Value.move_function] at htext ⊢
      exact htext
    | _ => exact htext
  cases l with
  | string a => exact joined a r
  | function f =>
    cases r with
    | string b => exact joining b _
    | function g =>
      rw [Value.move_function, Value.move_function]
      rfl
    | _ =>
      rw [Value.move_function]
      rfl
  | _ =>
    cases r with
    | string b => exact joining b _
    | function g =>
      rw [Value.move_function]
      rfl
    | _ => rfl

theorem applyBinary_move {ρ : Position → Position} (hρ : Function.Injective ρ) (op : BinaryOp)
    (l r : Value) :
    (move ρ h).applyBinary op (move ρ l) (move ρ r) = move ρ (h.applyBinary op l r) := by
  rw [(Gives.applyBinary h op l r).move_of_plain ρ]
  cases op with
  | add => exact add_move ρ h l r
  | subtract => exact arithmetic_move ρ _ _ _ l r
  | multiply => exact arithmetic_move ρ _ _ _ l r
  | divide => exact divide_move ρ l r
  | remainder => exact remainder_move ρ l r
  | power => exact power_move ρ l r
  | equal => exact congrArg (fun b => Except.ok (Value.boolean b)) (equal_move h hρ l r)
  | notEqual => exact congrArg (fun b => Except.ok (Value.boolean !b)) (equal_move h hρ l r)
  | less => exact ordered_move ρ _ _ l r
  | lessEqual => exact ordered_move ρ _ _ l r
  | greater => exact ordered_move ρ _ _ l r
  | greaterEqual => exact ordered_move ρ _ _ l r

end Heap

/-! ## Parts of values -/

theorem indexPosition?_move (key : Value) : indexPosition? (move ρ key) = indexPosition? key := by
  cases key with
  | function f =>
    rw [Value.move_function]
    rfl
  | _ => rfl

theorem cannotIndex_move (v key : Value) :
    cannotIndex (move ρ v) (move ρ key) = cannotIndex v key := by
  unfold cannotIndex
  rw [Value.typeName_move, Value.typeName_move]

theorem positionIn_move (v key : Value) (length : Nat) :
    positionIn (move ρ v) (move ρ key) length = positionIn v key length := by
  unfold positionIn
  rw [indexPosition?_move, cannotIndex_move]

theorem memberPlace_move (v : Value) (x : String) :
    memberPlace (move ρ v) x = move ρ (memberPlace v x) := by
  cases v with
  | function f =>
    rw [Value.move_function]
    rfl
  | _ => rfl

namespace Class

theorem method?_move (c : Class) (x : String) (v : Value) :
    (move ρ c).method? x (move ρ v) = move ρ (c.method? x v) := by
  have hfound : (move ρ c).methods.get? x = move ρ (c.methods.get? x) := c.methods.get?_move ρ x
  unfold method?
  rw [hfound]
  cases c.methods.get? x <;> rfl

end Class

namespace Heap

variable (h : Heap)

theorem getIndex_move (v key : Value) :
    (move ρ h).getIndex (move ρ v) (move ρ key) = move ρ (h.getIndex v key) := by
  cases v with
  | array r =>
    have hread (i : Nat) : ((move ρ h).items r).getD i .undefined =
        move ρ ((h.items r).getD i .undefined) := by
      rw [items_move, Array.getD_eq_getD_getElem?, Array.getD_eq_getD_getElem?]
      show ((h.items r).map (move ρ))[i]?.getD .undefined = _
      rw [Array.getElem?_map]
      cases (h.items r)[i]? <;> rfl
    show (positionIn (move ρ (.array r)) (move ρ key) ((move ρ h).items r).size).bind (fun i =>
      .ok (((move ρ h).items r).getD i .undefined)) =
        move ρ ((positionIn (.array r) key (h.items r).size).bind fun i =>
          .ok ((h.items r).getD i .undefined))
    rw [size_items_move, positionIn_move]
    cases positionIn (.array r) key (h.items r).size with
    | error c => rfl
    | ok i => exact congrArg Except.ok (hread i)
  | string s =>
    show (positionIn (move ρ (.string s)) (move ρ key) s.length).bind (fun i =>
      .ok (Value.string (String.ofList ((s.toList.drop i).take 1)))) =
        move ρ ((positionIn (.string s) key s.length).bind fun i =>
          .ok (Value.string (String.ofList ((s.toList.drop i).take 1))))
    rw [positionIn_move]
    cases positionIn (.string s) key s.length <;> rfl
  | object r =>
    cases key with
    | string x =>
      show (move ρ h).getIndex (.object r) (.string x) = _
      unfold getIndex
      dsimp only
      rw [entries_move, OrderedMap.get?_move]
      cases (h.entries r).get? x <;> rfl
    | function f =>
      rw [Value.move_function]
      rfl
    | _ => rfl
  | function f =>
    have herror := cannotIndex_move ρ (.function f) key
    rw [Value.move_function] at herror ⊢
    exact congrArg Except.error herror
  | _ => exact congrArg Except.error (cannotIndex_move ρ _ key)

theorem indexPlace_move (v key : Value) :
    (move ρ h).indexPlace (move ρ v) (move ρ key) = move ρ (h.indexPlace v key) := by
  have refused (type : String) : Cause.wrongType (.cannotAssignIndexed type (move ρ key).typeName) =
      .wrongType (.cannotAssignIndexed type key.typeName) := by
    rw [Value.typeName_move]
  cases v with
  | array r =>
    have herror : cannotIndex (.array r) (move ρ key) = cannotIndex (.array r) key :=
      cannotIndex_move ρ (.array r) key
    show (move ρ h).indexPlace (.array r) (move ρ key) = _
    unfold indexPlace
    dsimp only
    rw [size_items_move, indexPosition?_move, herror]
    cases indexPosition? key with
    | none => rfl
    | some i =>
      dsimp only
      split
      · rfl
      · split <;> rfl
  | object r =>
    cases key with
    | function f =>
      rw [Value.move_function]
      rfl
    | _ => rfl
  | function f =>
    rw [Value.move_function]
    exact congrArg Except.error (refused _)
  | _ => exact congrArg Except.error (refused _)

/-- The member of a value, if it has one of that name. -/
def member? (h : Heap) (v : Value) (x : String) : Option Value :=
  match v with
  | .inst r => ((h.inst r).fields.get? x).or (((h.classOf r).method? x v).map Value.function)
  | .object r => (h.entries r).get? x
  | .array r => if x = "length" then some (.integer (Int64.ofNat (h.items r).size)) else none
  | .string s => if x = "length" then some (.integer (Int64.ofNat s.length)) else none
  | _ => none

theorem getMember_eq (v : Value) (x : String) :
    h.getMember v x = match h.member? v x with
      | some w => .ok w
      | none => .error (.undefinedField (h.ownerName v) x) := rfl

theorem member?_move (v : Value) (x : String) :
    (move ρ h).member? (move ρ v) x = move ρ (h.member? v x) := by
  cases v with
  | inst r =>
    show (((move ρ h).inst r).fields.get? x).or
      ((((move ρ h).classOf r).method? x (move ρ (.inst r))).map Value.function) =
        move ρ (h.member? (.inst r) x)
    rw [inst_move, classOf_move, Class.method?_move]
    unfold member?
    dsimp only
    rw [show (move ρ (h.inst r)).fields.get? x = _ from OrderedMap.get?_move ρ _ x]
    cases (h.inst r).fields.get? x with
    | some v => rfl
    | none =>
      cases (h.classOf r).method? x (.inst r) with
      | none => rfl
      | some f => exact congrArg some (Value.move_function ρ f).symm
  | object r =>
    show ((move ρ h).entries r).get? x = move ρ ((h.entries r).get? x)
    rw [entries_move, OrderedMap.get?_move]
  | array r =>
    show (if x = "length" then some (Value.integer (Int64.ofNat ((move ρ h).items r).size)) else none) =
      move ρ (h.member? (.array r) x)
    rw [size_items_move]
    unfold member?
    dsimp only
    split <;> rfl
  | string s =>
    show h.member? (.string s) x = move ρ (h.member? (.string s) x)
    unfold member?
    dsimp only
    split <;> rfl
  | function f =>
    rw [Value.move_function]
    rfl
  | _ => rfl

theorem getMember_move (v : Value) (x : String) :
    (move ρ h).getMember (move ρ v) x = move ρ (h.getMember v x) := by
  rw [getMember_eq, getMember_eq, member?_move, ownerName_move]
  cases h.member? v x <;> rfl

theorem loopItems_move (v : Value) : (move ρ h).loopItems (move ρ v) = move ρ (h.loopItems v) := by
  have texts {α : Type} (text : α → String) (as : List α) :
      as.map (fun a => Value.string (text a)) = move ρ (as.map fun a => Value.string (text a)) := by
    induction as with
    | nil => rfl
    | cons a as ih => exact congrArg (Value.string (text a) :: ·) ih
  cases v with
  | array r =>
    refine congrArg Except.ok ?_
    rw [items_move]
    exact Array.toList_map
  | string s => exact congrArg Except.ok (texts (fun c => String.ofList [c]) s.toList)
  | object r =>
    refine congrArg Except.ok ?_
    rw [entries_move, OrderedMap.keys_move]
    exact texts id _
  | function f =>
    rw [Value.move_function]
    rfl
  | _ => rfl

/-! ### New cells -/

theorem newArray_move (items : Array Value) :
    (move ρ h).newArray (move ρ items) = move ρ (h.newArray items) :=
  Prod.ext (congrArg Value.array (h.arrays.next_move ρ))
    (congrArg (fun arrays => { move ρ h with arrays := arrays }) (h.arrays.alloc_move ρ items))

theorem newObject_move (entries : OrderedMap Value) :
    (move ρ h).newObject (move ρ entries) = move ρ (h.newObject entries) :=
  Prod.ext (congrArg Value.object (h.objects.next_move ρ))
    (congrArg (fun objects => { move ρ h with objects := objects })
      (h.objects.alloc_move ρ entries))

theorem newInstance_move (c : Ref .klass) :
    (move ρ h).newInstance c = move ρ (h.newInstance c) :=
  Prod.ext (h.instances.next_move ρ)
    (congrArg (fun instances => { move ρ h with instances := instances })
      (h.instances.alloc_move ρ ⟨c, .empty⟩))

theorem newClass_move (c : Class) : (move ρ h).newClass (move ρ c) = move ρ (h.newClass c) :=
  Prod.ext (congrArg Value.klass (h.classes.next_move ρ))
    (congrArg (fun classes => { move ρ h with classes := classes }) (h.classes.alloc_move ρ c))

/-! ### Writes -/

theorem write_move (place : Place) (x : Value) :
    (move ρ h).write place (move ρ x) = move ρ (h.write place x) := by
  cases place with
  | item r i =>
    refine congrArg (fun arrays => { move ρ h with arrays := arrays }) ?_
    exact Store.modify_move ρ _ _ fun items => Array.map_setIfInBounds.symm
  | behind r =>
    refine congrArg (fun arrays => { move ρ h with arrays := arrays }) ?_
    exact Store.modify_move ρ _ _ fun items => Array.map_push.symm
  | entry r key =>
    refine congrArg (fun objects => { move ρ h with objects := objects }) ?_
    exact Store.modify_move ρ _ _ fun m => m.insert_move ρ key x
  | field r name =>
    refine congrArg (fun instances => { move ρ h with instances := instances }) ?_
    exact Store.modify_move ρ _ _ fun i =>
      congrArg (Instance.mk i.klass) (i.fields.insert_move ρ name x)

end Heap

end

/-! ## Environments -/

instance : Movable Binding := ⟨fun ρ b => ⟨move ρ b.value, b.mode⟩⟩

instance : Movable Scope := ⟨fun ρ s => ⟨move ρ s.bindings, s.parent⟩⟩

instance : Movable Environment := ⟨fun ρ e => { e with scopes := move ρ e.scopes }⟩

namespace Environment

variable (ρ : Position → Position) (e : Environment)

theorem bindings_move (r : Ref .scope) : (move ρ e).bindings r = move ρ (e.bindings r) := by
  have hscope : (move ρ e).scopes.get? r = move ρ (e.scopes.get? r) := e.scopes.get?_move ρ r
  unfold bindings
  rw [hscope]
  cases e.scopes.get? r <;> rfl

theorem parent?_move (r : Ref .scope) : (move ρ e).parent? r = e.parent? r := by
  have hscope : (move ρ e).scopes.get? r = move ρ (e.scopes.get? r) := e.scopes.get?_move ρ r
  unfold parent?
  rw [hscope]
  cases e.scopes.get? r <;> rfl

theorem findWithin_move (x : String) (fuel : Nat) (r : Ref .scope) :
    (move ρ e).findWithin x fuel r = move ρ (e.findWithin x fuel r) := by
  induction fuel generalizing r with
  | zero => rfl
  | succ fuel ih =>
    unfold findWithin
    rw [bindings_move, OrderedMap.get?_move, parent?_move]
    cases (e.bindings r).get? x with
    | some b => rfl
    | none =>
      cases e.parent? r with
      | none => rfl
      | some p => exact ih p

theorem find?_move (r : Ref .scope) (x : String) :
    (move ρ e).find? r x = move ρ (e.find? r x) := by
  have hsize : (move ρ e).scopes.size = e.scopes.size := e.scopes.size_move ρ
  unfold find?
  rw [hsize]
  exact findWithin_move ρ e x _ r

theorem lookup?_move (x : String) : (move ρ e).lookup? x = move ρ (e.lookup? x) := by
  show ((move ρ e).find? e.current x).map _ = _
  rw [find?_move]
  unfold lookup? lookupFrom?
  cases e.find? e.current x <;> rfl

theorem assignable_move (r : Ref .scope) (x : String) :
    (move ρ e).assignable r x = e.assignable r x := by
  unfold assignable
  rw [find?_move]
  cases e.find? r x with
  | none => rfl
  | some found =>
    obtain ⟨owner, value, mode⟩ := found
    cases mode <;> rfl

theorem defineIn_move (r : Ref .scope) (x : String) (v : Value) (mode : Mode) :
    (move ρ e).defineIn r x (move ρ v) mode = move ρ (e.defineIn r x v mode) := by
  refine congrArg (fun scopes => { e with scopes := scopes }) ?_
  exact Store.modify_move ρ _ _ fun s =>
    congrArg (Scope.mk · s.parent) (s.bindings.insert_move ρ x ⟨v, mode⟩)

theorem newScope_move (parent : Option (Ref .scope)) :
    (move ρ e).newScope parent = move ρ (e.newScope parent) := by
  refine Prod.ext (e.scopes.next_move ρ) ?_
  exact congrArg (fun scopes => { e with scopes := scopes })
    (Store.alloc_move ρ e.scopes ⟨.empty, parent⟩)

theorem enterCall_move : (move ρ e).enterCall = move ρ e.enterCall := by
  unfold enterCall
  show (if e.callLimit ≤ e.callDepth
    then Except.error (Cause.stackOverflow (e.callDepth + 1) e.callLimit)
    else .ok { move ρ e with callDepth := e.callDepth + 1 }) = _
  split <;> rfl

theorem new_move (limit : Nat) : move ρ (new limit) = new limit := by
  refine congrArg (fun scopes => { new limit with scopes := scopes }) ?_
  exact (Store.alloc_move ρ _ _).symm.trans (congrArg (Store.alloc · _) (Store.move_empty ρ))

theorem withPrelude_move (limit : Nat) : move ρ (withPrelude limit) = withPrelude limit := by
  have installed (e : Environment) (ps : List Primitive) :
      move ρ (ps.foldl install e) = ps.foldl install (move ρ e) := by
    induction ps generalizing e with
    | nil => rfl
    | cons p ps ih =>
      rw [List.foldl_cons, ih]
      exact congrArg (List.foldl install · ps)
        (defineIn_move ρ e.takeNumber.2 e.globals p.name (.builtin ⟨p, e.numbered⟩) .mutable).symm
  exact (installed _ _).trans (congrArg loadPrelude (new_move ρ limit))

end Environment

/-! ## Machines and stops -/

instance : Movable Event where
  move ρ
    | .statement kind p => .statement kind (ρ p)
    | event => event

instance : Movable Failure := ⟨fun ρ f => ⟨f.cause, move ρ f.position⟩⟩

instance : Movable Signal where
  move ρ
    | .returned v => .returned (move ρ v)
    | .broke p => .broke (ρ p)
    | .continued p => .continued (ρ p)

instance : Movable Stop where
  move ρ
    | .failure f => .failure (move ρ f)
    | .signal s => .signal (move ρ s)
    | .unfinished why => .unfinished why

instance : Movable Machine :=
  ⟨fun ρ m => { m with env := move ρ m.env, heap := move ρ m.heap, events := move ρ m.events }⟩

section

variable (ρ : Position → Position)

theorem Failure.located_move (f : Failure) (p : Position) :
    (move ρ f).located (ρ p) = move ρ (f.located p) := by
  obtain ⟨cause, position⟩ := f
  cases position <;> rfl

theorem Signal.settle_move (s : Signal) : (move ρ s).settle = move ρ s.settle := by
  cases s <;> rfl

theorem callResult_move (r : Except Stop Value) :
    callResult (move ρ r) = move ρ (callResult r) := by
  match r with
  | .ok v => rfl
  | .error (.failure f) => rfl
  | .error (.signal s) => exact s.settle_move ρ
  | .error (.unfinished why) => rfl

theorem programResult_move (r : Except Stop Value) :
    programResult (move ρ r) = move ρ (programResult r) := by
  match r with
  | .ok v => rfl
  | .error (.failure f) => rfl
  | .error (.signal s) => exact s.settle_move ρ
  | .error (.unfinished why) => rfl

theorem Heap.move_empty : move ρ Heap.empty = Heap.empty := by
  unfold Heap.empty
  show Heap.mk (move ρ .empty) (move ρ .empty) (move ρ .empty) (move ρ .empty) = _
  rw [Store.move_empty, Store.move_empty, Store.move_empty, Store.move_empty]

theorem Machine.new_move (host : Host) (settings : Settings) :
    move ρ (Machine.new host settings) = Machine.new host settings := by
  show Machine.mk (move ρ (Environment.withPrelude defaultCallLimit)) (move ρ Heap.empty) host false
    settings (Array.map (move ρ) #[]) = _
  rw [Environment.withPrelude_move, Heap.move_empty, Array.map_empty]
  rfl

end

end Scriptlet
