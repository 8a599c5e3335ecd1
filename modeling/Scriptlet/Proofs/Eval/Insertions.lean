import Scriptlet.Proofs.Eval.Outcomes
import Scriptlet.Proofs.Eval.Rooted
import Scriptlet.Proofs.Timeline.Quiet
import Scriptlet.Proofs.Value.Insertions

/-!
# What an evaluation inserts into scopes, objects, instances and classes

Scopes, objects, instances and classes keep what they hold in maps; a `Table` is one of
them. `Eval.Inserts act m ws r n` says that `act`, begun on `m`, makes the insertions `ws`
into tables, in this order, and ends with `r` on `n`. There is a rule for each step that
inserts something, one for all that inserts nothing (`Eval.Idle`), and one for each way to
compose evaluations.

The tables of the last machine are those of the first one with the insertions added
(`Eval.Inserts.contents_eq`), and no table is lost (`Eval.Inserts.size_le`), so nothing else is
ever done to a map: no name is removed, and none is moved. That the rules cover everything that
is evaluated is `Eval.Accounted`, which has the rules of a calculus (`insertionCalculus`).
-/

namespace Scriptlet

/-! ## Tables -/

/-- A cell that keeps a map from names. -/
inductive Table where
  | scope (r : Ref .scope)
  | object (r : Ref .object)
  | inst (r : Ref .inst)
  | klass (r : Ref .klass)
  deriving DecidableEq

/-- What the table has under a name. -/
def Table.Item : Table → Type
  | .scope _ => Binding
  | .object _ | .inst _ => Value
  | .klass _ => Routine

namespace Machine

/-- The map that the table keeps: the bindings of a scope, the entries of an object, the fields of
an instance, the methods of a class. -/
def contents (m : Machine) : (t : Table) → OrderedMap t.Item
  | .scope r => m.env.bindings r
  | .object r => m.heap.entries r
  | .inst r => (m.heap.inst r).fields
  | .klass r => (m.heap.klass r).methods

/-- Whether there is such a table. -/
def has (m : Machine) : Table → Bool
  | .scope r => r.index < m.size .scope
  | .object r => r.index < m.size .object
  | .inst r => r.index < m.size .inst
  | .klass r => r.index < m.size .klass

/-- No table is lost where cells are only added. -/
theorem has_mono {m n : Machine} (hsize : m.size ≤ n.size) {t : Table} (ht : m.has t = true) :
    n.has t = true := by
  cases t with
  | scope r | object r | inst r | klass r =>
    exact decide_eq_true (Nat.lt_of_lt_of_le (of_decide_eq_true ht) (hsize _))

theorem contents_congr {m n : Machine} (hscopes : n.env.scopes = m.env.scopes)
    (hheap : n.heap = m.heap) (t : Table) : n.contents t = m.contents t := by
  cases t with
  | scope r =>
    show n.env.bindings r = m.env.bindings r
    unfold Environment.bindings
    rw [hscopes]
  | object r => exact congrArg (fun h : Heap => h.entries r) hheap
  | inst r => exact congrArg (fun h : Heap => (h.inst r).fields) hheap
  | klass r => exact congrArg (fun h : Heap => (h.klass r).methods) hheap

theorem size_congr {m n : Machine} (hscopes : n.env.scopes = m.env.scopes)
    (hheap : n.heap = m.heap) : n.size = m.size := by
  funext s
  unfold size
  rw [hscopes, hheap]

end Machine

/-! ## Lists of insertions -/

/-- An insertion: what a table gets under which name. -/
structure Insertion where
  table : Table
  key : String
  item : table.Item

/-- The insertions of pairs of a name and an item into the table. -/
def Table.insertions (t : Table) (pairs : List (String × t.Item)) : List Insertion :=
  pairs.map fun p => ⟨t, p.1, p.2⟩

/-- What the insertion puts into the table `t`, if it is one into `t`. -/
def Insertion.into? (t : Table) (w : Insertion) : Option (String × t.Item) :=
  if h : w.table = t then some (w.key, h ▸ w.item) else none

/-- What the insertions put into the table, in their order. -/
def insertedInto (t : Table) (ws : List Insertion) : List (String × t.Item) :=
  ws.filterMap (Insertion.into? t)

theorem insertedInto_append (t : Table) (ws ws' : List Insertion) :
    insertedInto t (ws ++ ws') = insertedInto t ws ++ insertedInto t ws' :=
  List.filterMap_append

theorem insertedInto_insertions (t : Table) (pairs : List (String × t.Item)) :
    insertedInto t (t.insertions pairs) = pairs := by
  have hself (p : String × t.Item) : Insertion.into? t ⟨t, p.1, p.2⟩ = some p := dif_pos rfl
  unfold insertedInto Table.insertions
  rw [List.filterMap_map, funext (f := Insertion.into? t ∘ _) hself, List.filterMap_some]

theorem insertedInto_insertions_of_ne {t t' : Table} (h : t' ≠ t) (pairs : List (String × t'.Item)) :
    insertedInto t (t'.insertions pairs) = [] := by
  refine List.filterMap_eq_nil_iff.mpr fun w hw => ?_
  obtain ⟨p, -, rfl⟩ := List.mem_map.mp hw
  exact dif_neg h

namespace Machine

variable {m n : Machine}

/-- What binding the key in the table inserts: nothing is written to a table that there is not. -/
def insertion (m : Machine) (t : Table) (key : String) (item : t.Item) : List Insertion :=
  t.insertions (if m.has t then [(key, item)] else [])

/-- What a write to the place inserts. Arrays are no tables. -/
def insertions (m : Machine) (place : Place) (v : Value) : List Insertion :=
  match place with
  | .entry r key => m.insertion (.object r) key v
  | .field r name => m.insertion (.inst r) name v
  | .item .. | .behind _ => []

/-- The machines differ in one table, into which the pairs have been inserted. -/
structure Gains (m : Machine) (t : Table) (pairs : List (String × t.Item)) (n : Machine) :
    Prop where
  here : n.contents t = (m.contents t).insertAll pairs
  elsewhere {t' : Table} : t' ≠ t → n.contents t' = m.contents t'
  size : m.size ≤ n.size

theorem Gains.contents_eq {t : Table} {pairs : List (String × t.Item)} (h : m.Gains t pairs n)
    (t' : Table) :
    n.contents t' = (m.contents t').insertAll (insertedInto t' (t.insertions pairs)) := by
  by_cases heq : t' = t
  · subst heq
    rw [insertedInto_insertions, h.here]
  · rw [insertedInto_insertions_of_ne (Ne.symm heq), h.elsewhere heq]
    rfl

end Machine

/-! ## Steps that insert -/

section

variable {s : CellSort} {α β : Type} (st : Store s α) (look : Option α → OrderedMap β)

/-- A cell is changed so that what is seen of it gets one more pair; a cell that there is not gets
none. -/
theorem Store.look_modify (key : String) (item : β) {f : α → α}
    (hf : ∀ a, look (some (f a)) = (look (some a)).insert key item) (r r' : Ref s) :
    look ((st.modify r f).get? r') = if r' = r then
        (look (st.get? r)).insertAll (if decide (r.index < st.size) then [(key, item)] else [])
      else look (st.get? r') := by
  rw [Store.get?_modify]
  split
  · next h =>
    subst h
    by_cases hr : r'.index < st.size
    · have hcell : st.get? r' = some st.cells[r'.index] := Array.getElem?_eq_getElem hr
      rw [if_pos (decide_eq_true hr), hcell]
      exact hf _
    · have hcell : st.get? r' = none := Array.getElem?_eq_none (Nat.not_lt.mp hr)
      rw [if_neg (ne_true_of_eq_false (decide_eq_false hr)), hcell]
      rfl
  · rfl

/-- A new cell with the pairs is seen where nothing was seen before. -/
theorem Store.look_alloc (hnone : look none = .empty) {a : α} (pairs : List (String × β))
    (ha : look (some a) = .ofList pairs) (r : Ref s) :
    look ((st.alloc a).get? r) =
      if r = st.next then (look (st.get? r)).insertAll pairs else look (st.get? r) := by
  rw [Store.get?_alloc]
  split
  · next h =>
    have hnext : st.get? r = none := h ▸ Array.getElem?_eq_none (Nat.le_refl _)
    rw [hnext, hnone]
    exact ha
  · rfl

end

namespace Machine

variable (m : Machine)

theorem gains_defineIn (r : Ref .scope) (x : String) (v : Value) (mode : Mode) :
    m.Gains (.scope r) (if m.has (.scope r) then [(x, ⟨v, mode⟩)] else [])
      { m with env := m.env.defineIn r x v mode } := by
  have hscopes := m.env.scopes.look_modify (fun s => (s.map Scope.bindings).getD .empty) x
    ⟨v, mode⟩ (f := fun s => s.define x v mode) (fun _ => rfl) r
  refine ⟨(hscopes r).trans (if_pos rfl), fun {t} ht => ?_, (m.size_defineIn r x v mode).ge⟩
  cases t with
  | scope r' => exact (hscopes r').trans (if_neg fun h => ht (congrArg Table.scope h))
  | _ => rfl

theorem gains_setEntry (r : Ref .object) (key : String) (v : Value) :
    m.Gains (.object r) (if m.has (.object r) then [(key, v)] else [])
      { m with heap := m.heap.setEntry r key v } := by
  have hobjects := m.heap.objects.look_modify (fun o => o.getD .empty) key v
    (f := fun o => o.insert key v) (fun _ => rfl) r
  refine ⟨(hobjects r).trans (if_pos rfl), fun {t} ht => ?_,
    Region.Holds.size_setHeap m (m.heap.size_write (.entry r key) v).ge⟩
  cases t with
  | object r' => exact (hobjects r').trans (if_neg fun h => ht (congrArg Table.object h))
  | _ => rfl

theorem gains_setField (r : Ref .inst) (name : String) (v : Value) :
    m.Gains (.inst r) (if m.has (.inst r) then [(name, v)] else [])
      { m with heap := m.heap.setField r name v } := by
  have hinstances := m.heap.instances.look_modify (fun i => (i.getD default).fields) name v
    (f := fun i => { i with fields := i.fields.insert name v }) (fun _ => rfl) r
  refine ⟨(hinstances r).trans (if_pos rfl), fun {t} ht => ?_,
    Region.Holds.size_setHeap m (m.heap.size_write (.field r name) v).ge⟩
  cases t with
  | inst r' => exact (hinstances r').trans (if_neg fun h => ht (congrArg Table.inst h))
  | _ => rfl

theorem gains_newObject (pairs : List (String × Value)) :
    m.Gains (.object m.heap.objects.next) pairs
      { m with heap := (m.heap.newObject (.ofList pairs)).2 } := by
  have hobjects := m.heap.objects.look_alloc (fun o => o.getD .empty) rfl
    (a := .ofList pairs) pairs rfl
  refine ⟨(hobjects _).trans (if_pos rfl), fun {t} ht => ?_, fun s => ?_⟩
  · cases t with
    | object r => exact (hobjects r).trans (if_neg fun h => ht (congrArg Table.object h))
    | _ => rfl
  · cases s with
    | object => exact Nat.le_of_lt (m.heap.objects.size_lt_alloc _)
    | _ => exact Nat.le_refl _

theorem gains_newClass {c : Class} {pairs : List (String × Routine)}
    (hc : c.methods = .ofList pairs) :
    m.Gains (.klass m.heap.classes.next) pairs { m with heap := (m.heap.newClass c).2 } := by
  have hclasses := m.heap.classes.look_alloc (fun c => (c.getD default).methods) rfl pairs hc
  refine ⟨(hclasses _).trans (if_pos rfl), fun {t} ht => ?_, fun s => ?_⟩
  · cases t with
    | klass r => exact (hclasses r).trans (if_neg fun h => ht (congrArg Table.klass h))
    | _ => rfl
  · cases s with
    | klass => exact Nat.le_of_lt (m.heap.classes.size_lt_alloc _)
    | _ => exact Nat.le_refl _

/-- A new instance has no fields. -/
theorem contents_newInstance (c : Ref .klass) (t : Table) :
    { m with heap := (m.heap.newInstance c).2 }.contents t = m.contents t := by
  cases t with
  | inst r =>
    have hinstances := m.heap.instances.look_alloc (fun i => (i.getD default).fields) rfl
      (a := ⟨c, .empty⟩) [] rfl r
    exact hinstances.trans (ite_self _)
  | _ => rfl

end Machine

/-! ## Evaluations and what they insert -/

namespace Eval

/-- On no machine does the evaluation change a table. The tables that it makes are empty. -/
def Idle {α : Type} (act : Eval α) : Prop :=
  ∀ m r n, act m = ending r n → (∀ t, n.contents t = m.contents t) ∧ m.size ≤ n.size

/-- Begun on `m`, the evaluation makes the insertions, in this order, and ends with `r` on `n`. -/
inductive Inserts : {α : Type} → (act : Eval α) → (m : Machine) → List Insertion →
    (r : Except Stop α) → (n : Machine) → Prop
  /-- Looking things up, stopping, printing, and making arrays, empty scopes and instances without
  fields. -/
  | idle {α : Type} {act : Eval α} {m n : Machine} {r : Except Stop α} : act.Idle →
    act m = ending r n → Inserts act m [] r n
  /-- Binding a name, also in a scope that the environment determines. -/
  | bound (scope : Environment → Ref .scope) (x : String) (v : Value) (mode : Mode) (m : Machine) :
    Inserts (modifyEnv fun e => e.defineIn (scope e) x v mode) m
      (m.insertion (.scope (scope m.env)) x ⟨v, mode⟩) (.ok ())
      { m with env := m.env.defineIn (scope m.env) x v mode }
  /-- Giving a key of an object, or a field of an instance, a value. -/
  | written (place : Place) (v : Value) (m : Machine) :
    Inserts (write place v) m (m.insertions place v) (.ok ())
      { m with heap := m.heap.write place v }
  /-- A new object gets the pairs that its entries are made of, one after another. -/
  | object (pairs : List (String × Value)) (m : Machine) :
    Inserts (newObject (.ofList pairs)) m
      ((Table.object m.heap.objects.next).insertions pairs) (.ok (.object m.heap.objects.next))
      { m with heap := (m.heap.newObject (.ofList pairs)).2 }
  /-- A new class gets its methods in the same way. -/
  | klass {c : Class} {pairs : List (String × Routine)} (m : Machine) :
    c.methods = .ofList pairs → Inserts (modifyGet fun m =>
      ((m.heap.newClass c).1, { m with heap := (m.heap.newClass c).2 })) m
      ((Table.klass m.heap.classes.next).insertions pairs) (.ok (.klass m.heap.classes.next))
      { m with heap := (m.heap.newClass c).2 }
  | next {α β : Type} {act : Eval α} {f : α → Eval β} {m m' n : Machine} {ws ws' : List Insertion}
    {a : α} {r : Except Stop β} : Inserts act m ws (.ok a) m' → Inserts (f a) m' ws' r n →
    Inserts (act >>= f) m (ws ++ ws') r n
  | stopped {α β : Type} {act : Eval α} {f : α → Eval β} {m n : Machine} {ws : List Insertion}
    {e : Stop} : Inserts act m ws (.error e) n → Inserts (act >>= f) m ws (.error e) n
  | located {α : Type} {act : Eval α} {m n : Machine} {ws : List Insertion} {r : Except Stop α}
    (p : Position) : Inserts act m ws r n → Inserts (located p act) m ws (locatedResult p r) n
  | settling {act : Eval Value} {m n : Machine} {ws : List Insertion} {r : Except Stop Value}
    (settle : Except Stop Value → Except Stop Value) : Inserts act m ws r n →
    Inserts (settling settle act) m ws (settle r) n
  | inScope {α : Type} {act : Eval α} {m n : Machine} {ws : List Insertion} {r : Except Stop α}
    {scope : Ref .scope} : Inserts act { m with env := m.env.enter scope } ws r n →
    Inserts (inScope scope act) m ws r { n with env := n.env.enter m.env.current }
  | inCall {α : Type} {act : Eval α} {m n : Machine} {ws : List Insertion} {r : Except Stop α} :
    m.env.callDepth < m.env.callLimit →
    Inserts act { m with env := { m.env with callDepth := m.env.callDepth + 1 } } ws r n →
    Inserts (inCall act) m ws r { n with env := n.env.exitCall }
  /-- A call that may not begin. -/
  | refused {α : Type} (act : Eval α) {m : Machine} : m.env.callLimit ≤ m.env.callDepth →
    Inserts (inCall act) m []
      (.error (.failure ⟨.stackOverflow (m.env.callDepth + 1) m.env.callLimit, none⟩)) m
  | loopBody {body : Eval Value} {m n : Machine} {ws : List Insertion} {r : Except Stop Value} :
    Inserts (inNewScope body) m ws r n → Inserts (loopBody body) m ws (loopResult r) n

namespace Inserts

variable {α : Type} {act : Eval α} {m n : Machine} {ws : List Insertion} {r : Except Stop α}

/-- The evaluation does end with the result on the last machine. -/
theorem run (h : act.Inserts m ws r n) : act m = ending r n := by
  induction h with
  | idle _ hrun => exact hrun
  | bound | written | object | klass => rfl
  | next _ _ hact hrest => exact (bind_ok hact).trans hrest
  | stopped _ hact => exact bind_error hact
  | located p _ hact => exact located_of_ending p hact
  | settling _ _ hact => exact settling_of_ending hact
  | inScope _ hact => exact inScope_of_ending hact
  | inCall hroom _ hact => exact inCall_of_ending hroom hact
  | refused act hfull => exact inCall_of_full act hfull
  | loopBody _ hbody => exact loopBody_of_ending hbody

/-- Nothing but the insertions is done to the map of a table. -/
theorem contents_eq (h : act.Inserts m ws r n) (t : Table) :
    n.contents t = (m.contents t).insertAll (insertedInto t ws) := by
  induction h with
  | idle hidle hrun => exact (hidle _ _ _ hrun).1 t
  | bound scope x v mode m => exact (m.gains_defineIn (scope m.env) x v mode).contents_eq t
  | written place v m =>
    cases place with
    | item r i | behind r => cases t <;> rfl
    | entry r key => exact (m.gains_setEntry r key v).contents_eq t
    | field r name => exact (m.gains_setField r name v).contents_eq t
  | object pairs m => exact (m.gains_newObject pairs).contents_eq t
  | klass m hc => exact (m.gains_newClass hc).contents_eq t
  | next _ _ hact hrest =>
    rw [hrest, hact, insertedInto_append, OrderedMap.insertAll_append]
  | stopped _ hact | located _ _ hact | settling _ _ hact => exact hact
  -- Which scope is the current one, and how many calls are in progress, is not in a table.
  | inScope _ hact => cases t <;> exact hact
  | inCall _ _ hact => cases t <;> exact hact
  | refused => rfl
  | loopBody _ hbody => exact hbody

/-- No cell is lost. -/
theorem size_le (h : act.Inserts m ws r n) : m.size ≤ n.size := by
  induction h with
  | idle hidle hrun => exact (hidle _ _ _ hrun).2
  | bound scope x v mode m => exact (m.gains_defineIn (scope m.env) x v mode).size
  | written place v m => exact Region.Holds.size_setHeap m (m.heap.size_write place v).ge
  | object pairs m => exact (m.gains_newObject pairs).size
  | klass m hc => exact (m.gains_newClass hc).size
  | next _ _ hact hrest => exact le_trans hact hrest
  | stopped _ hact | located _ _ hact | settling _ _ hact => exact hact
  | inScope _ hact | inCall _ _ hact =>
    refine le_trans (fun s => ?_) (le_trans hact fun s => ?_) <;> cases s <;> exact Nat.le_refl _
  | refused => exact le_refl _
  | loopBody _ hbody => exact hbody

/-- In every table, each name has the place of its first insertion and the item of its last one. -/
theorem receives (h : act.Inserts m ws r n) (t : Table) :
    (m.contents t).Receives (insertedInto t ws) (n.contents t) := by
  rw [h.contents_eq t]
  exact OrderedMap.receives_insertAll _ _

end Inserts

/-! ## What inserts nothing -/

namespace Idle

variable {α : Type}

theorem of_apply {act : Eval α} {r : Machine → Except Stop α} {f : Machine → Machine}
    (hact : ∀ m, act m = ending (r m) (f m)) (hf : ∀ m t, (f m).contents t = m.contents t)
    (hsize : ∀ m : Machine, m.size ≤ (f m).size) : act.Idle := by
  intro m r' n hrun
  obtain ⟨-, rfl⟩ := ending_inj ((hact m).symm.trans hrun)
  exact ⟨hf m, hsize m⟩

/-- An evaluation that leaves the machine as it is. -/
theorem of_same {act : Eval α} {r : Machine → Except Stop α} (hact : ∀ m, act m = ending (r m) m) :
    act.Idle :=
  of_apply (f := id) hact (fun _ _ => rfl) fun _ => le_refl _

theorem pure (a : α) : Idle (Pure.pure a) := of_same (r := fun _ => .ok a) fun _ => rfl

theorem throw (e : Stop) : Idle (MonadExcept.throw e : Eval α) :=
  of_same (r := fun _ => .error e) fun _ => rfl

theorem get : Idle MonadState.get := of_same (r := fun m => .ok m) fun _ => rfl

theorem checkInterrupt : Idle Eval.checkInterrupt := by
  refine of_same (r := fun m => if m.interrupted then
    .error (.failure ⟨.interrupted, none⟩) else .ok ()) fun m => ?_
  rw [checkInterrupt_apply]
  split <;> rfl

theorem modifyGet {f : Machine → α × Machine} (hf : ∀ m t, (f m).2.contents t = m.contents t)
    (hsize : ∀ m, m.size ≤ (f m).2.size) : Idle (MonadState.modifyGet f) :=
  of_apply (r := fun m => .ok (f m).1) (fun _ => rfl) hf hsize

/-- A step that changes neither a scope nor the heap. -/
theorem aside {f : Machine → α × Machine} (hscopes : ∀ m, (f m).2.env.scopes = m.env.scopes)
    (hheap : ∀ m, (f m).2.heap = m.heap) : Idle (MonadState.modifyGet f) :=
  modifyGet (fun m => Machine.contents_congr (hscopes m) (hheap m))
    fun m => (Machine.size_congr (hscopes m) (hheap m)).ge

theorem begun (s : Stmt) : Idle (modify s.begun) := by
  refine aside (fun m => ?_) fun m => ?_ <;> (dsimp only; rw [s.begun_eq])

theorem newScope (parent : Ref .scope) : Idle (Eval.newScope parent) := by
  refine modifyGet (fun m t => ?_) fun m => Region.Holds.size_newScope m (some parent)
  cases t with
  | scope r => exact m.env.bindings_newScope (some parent) r
  | _ => rfl

theorem newArray (items : List Value) : Idle (Eval.newArray items) := by
  refine modifyGet (fun m t => ?_) fun m s => ?_
  · cases t <;> rfl
  · cases s with
    | array => exact Nat.le_of_lt (m.heap.arrays.size_lt_alloc _)
    | _ => exact Nat.le_refl _

theorem newInstance (c : Ref .klass) : Idle (MonadState.modifyGet fun m =>
    ((m.heap.newInstance c).1, { m with heap := (m.heap.newInstance c).2 })) := by
  refine modifyGet (fun m => m.contents_newInstance c) fun m s => ?_
  cases s with
  | inst => exact Nat.le_of_lt (m.heap.instances.size_lt_alloc _)
  | _ => exact Nat.le_refl _

theorem ask (request : Host → Reply α × Host) : Idle (Eval.ask request) := by
  intro m r n hrun
  have hsame : n.env.scopes = m.env.scopes ∧ n.heap = m.heap := by
    unfold Eval.ask at hrun
    dsimp only at hrun
    split at hrun
    · obtain ⟨-, rfl⟩ := ending_inj (r := .ok _) hrun
      exact ⟨rfl, rfl⟩
    · obtain ⟨-, rfl⟩ := ending_inj (r := .ok _) hrun
      exact ⟨rfl, rfl⟩
    · obtain ⟨-, rfl⟩ := ending_inj (r := .error _) hrun
      exact ⟨rfl, rfl⟩
  exact ⟨Machine.contents_congr hsame.1 hsame.2, (Machine.size_congr hsame.1 hsame.2).ge⟩

end Idle

namespace Inserts

variable {α β : Type}

theorem pure (a : α) (m : Machine) : (Pure.pure a : Eval α).Inserts m [] (.ok a) m :=
  .idle (.pure a) rfl

theorem get {f : Machine → Eval β} {m n : Machine} {ws : List Insertion} {r : Except Stop β}
    (h : (f m).Inserts m ws r n) : (MonadState.get >>= f).Inserts m ws r n :=
  .next (.idle .get rfl) h

end Inserts

/-! ## All that is evaluated -/

/-- On every machine it can be said what the evaluation inserts, and its result satisfies `Q`. -/
def Accounted {α : Type} (act : Eval α) (Q : α → Prop) : Prop :=
  ∀ m, ∃ ws r n, act.Inserts m ws r n ∧ ∀ a, r = .ok a → Q a

namespace Accounted

variable {α β : Type} {act : Eval α} {Q Q' : α → Prop} {R : β → Prop}

theorem exists_inserts (h : act.Accounted Q) (m : Machine) : ∃ ws r n, act.Inserts m ws r n := by
  obtain ⟨ws, r, n, hact, -⟩ := h m
  exact ⟨ws, r, n, hact⟩

theorem idle (h : act.Idle) : act.Accounted fun _ => True := by
  intro m
  obtain ⟨r, n, hrun⟩ := exists_ending act m
  exact ⟨[], r, n, .idle h hrun, fun _ _ => trivial⟩

theorem pure {a : α} (h : Q a) : Accounted (Pure.pure a) Q := by
  refine fun m => ⟨[], .ok a, m, .pure a m, fun b hb => ?_⟩
  cases hb
  exact h

theorem throw (e : Stop) : Accounted (MonadExcept.throw e) Q :=
  fun m => ⟨[], .error e, m, .idle (.throw e) rfl, nofun⟩

theorem mono (h : act.Accounted Q) (hQ : ∀ a, Q a → Q' a) : act.Accounted Q' := by
  intro m
  obtain ⟨ws, r, n, hact, ha⟩ := h m
  exact ⟨ws, r, n, hact, fun a hok => hQ a (ha a hok)⟩

theorem bind {f : α → Eval β} (h : act.Accounted Q) (hf : ∀ a, Q a → (f a).Accounted R) :
    (act >>= f).Accounted R := by
  intro m
  obtain ⟨ws, r, m', hact, ha⟩ := h m
  cases r with
  | error e => exact ⟨ws, .error e, m', hact.stopped, nofun⟩
  | ok a =>
    obtain ⟨ws', r, n, hrest, hb⟩ := hf a (ha a rfl) m'
    exact ⟨ws ++ ws', r, n, hact.next hrest, hb⟩

theorem get {f : Machine → Eval β} (h : ∀ m, (f m).Accounted R) :
    (MonadState.get >>= f).Accounted R := by
  intro m
  obtain ⟨ws, r, n, hrest, hb⟩ := h m m
  exact ⟨ws, r, n, .get hrest, hb⟩

theorem defineIn (scope : Environment → Ref .scope) (x : String) (v : Value) (mode : Mode) :
    (modifyEnv fun e => e.defineIn (scope e) x v mode).Accounted fun _ => True :=
  fun m => ⟨_, _, _, .bound scope x v mode m, fun _ _ => trivial⟩

theorem lookup (x : String) : (Eval.lookup x).Accounted fun _ => True := by
  rw [Eval.lookup_eq]
  refine get fun m => ?_
  cases m.env.lookup? x with
  | some v => exact pure trivial
  | none => exact throw _

theorem assign (x : String) (v : Value) : (Eval.assign x v).Accounted fun _ => True := by
  rw [Eval.assign_eq]
  refine get fun m => ?_
  unfold Eval.store
  split
  · exact defineIn (fun _ => _) x v .mutable
  · exact defineIn (fun e => e.globals) x v .mutable
  · exact throw _

theorem newObject (entries : OrderedMap Value) :
    (Eval.newObject entries).Accounted fun _ => True := by
  rw [← entries.ofList_entries]
  exact fun m => ⟨_, _, _, .object entries.entries m, fun _ _ => trivial⟩

theorem located (p : Position) (h : act.Accounted Q) : (Eval.located p act).Accounted Q := by
  intro m
  obtain ⟨ws, r, n, hact, ha⟩ := h m
  refine ⟨ws, _, n, .located p hact, fun a hok => ha a ?_⟩
  match r with
  | .ok _ => exact hok
  | .error (.failure _) => cases hok

theorem settling {act : Eval Value} {Q : Value → Prop}
    (settle : Except Stop Value → Except Stop Value) (h : act.Accounted Q) :
    (Eval.settling settle act).Accounted fun _ => True := by
  intro m
  obtain ⟨ws, r, n, hact, -⟩ := h m
  exact ⟨ws, _, n, .settling settle hact, fun _ _ => trivial⟩

theorem loopBody {body : Eval Value} {Q : Value → Prop} (h : (inNewScope body).Accounted Q) :
    (Eval.loopBody body).Accounted fun _ => True := by
  intro m
  obtain ⟨ws, r, n, hbody, -⟩ := h m
  exact ⟨ws, _, n, .loopBody hbody, fun _ _ => trivial⟩

theorem inScope (scope : Ref .scope) (h : act.Accounted Q) :
    (Eval.inScope scope act).Accounted Q := by
  intro m
  obtain ⟨ws, r, n, hact, ha⟩ := h { m with env := m.env.enter scope }
  exact ⟨ws, r, _, .inScope hact, ha⟩

theorem inCall (h : act.Accounted Q) : (Eval.inCall act).Accounted Q := by
  intro m
  by_cases hfull : m.env.callLimit ≤ m.env.callDepth
  · exact ⟨[], _, m, .refused act hfull, nofun⟩
  · obtain ⟨ws, r, n, hact, ha⟩ :=
      h { m with env := { m.env with callDepth := m.env.callDepth + 1 } }
    exact ⟨ws, r, _, .inCall (Nat.not_le.mp hfull) hact, ha⟩

end Accounted

end Eval

open Eval in
/-- That it can be said what is inserted, as a calculus: nothing is asked of values, of names and of
signals. -/
def insertionCalculus : Calculus where
  World := Unit
  order := PUnit.instLinearOrder.toPartialOrder.toPreorder
  routine _ := True
  node _ := True
  jump _ := True
  value _ _ := True
  scope _ _ := True
  heap _ _ := True
  Meets _ _ _ _ act Q := act.Accounted (Q ())
  made _ _ _ := trivial
  body _ _ _ := trivial
  bodyJump _ _ _ := trivial
  value_mono _ _ := trivial
  scope_mono _ _ := trivial
  plain _ := trivial
  closed {_ h} _ := h.closed_any
  closure _ _ _ := trivial
  calledRoutine _ := trivial
  calledScope _ := trivial
  calledReceiver _ _ := trivial
  pure h := .pure (h () le_rfl)
  bind h hf := h.bind fun a ha => hf () le_rfl a ha
  mono h _ _ hQ := h.mono (hQ ())
  signal _ := .throw _
  fail _ := .throw _
  look h := .get fun m => h () le_rfl m.view trivial trivial
  log _ := .idle (.aside (fun _ => rfl) fun _ => rfl)
  begun s := .idle (.begun s)
  lookup := .lookup
  assign x v _ := .assign x v
  define mode _ _ := .defineIn (fun e => e.current) _ _ mode
  write place v _ := fun m => ⟨_, _, _, .written place v m, fun _ _ => trivial⟩
  newArray _ := .idle (.newArray _)
  newObject _ := .newObject _
  newClass {_ _ _ _ c} _ _ := fun m =>
    ⟨_, _, _, .klass m c.methods.ofList_entries.symm, fun _ _ => trivial⟩
  newInstance _ := .idle (.newInstance _)
  print _ := .idle (.ask _)
  fetch _ := .idle (.ask _)
  save _ _ := .idle (.ask _)
  interrupt := .idle (.aside (fun _ => rfl) fun _ => rfl)
  numbered := .idle (.aside (fun _ => rfl) fun _ => rfl)
  located _ h := h.located _
  newReceiverScope _ _ := (Accounted.idle (.newScope _)).bind fun scope _ =>
    (Accounted.defineIn (fun _ => scope) "this" _ .constant).bind fun _ _ => .pure trivial
  within _ _ h := (Accounted.idle (.newScope _)).bind fun r _ => (h () le_rfl).inScope r
  inCall h := h.inCall
  settling _ _ h := h.settling _
  loopBody _ h := h.loopBody
  uncalled := .throw _
  repeated _ _ := .throw _

/-! ## Expressions, statements, calls and programs -/

section

variable (fuel number : Nat)

theorem accounted_callValue (callee : Value) (args : List Value) :
    (callValue fuel callee args).Accounted fun _ => True :=
  insertionCalculus.calls fuel () [] (fun _ _ => True) trivial fun _ _ => trivial

theorem accounted_expr (e : Expr) : (evalExpr (.of fuel number) e).Accounted fun _ => True :=
  have meets : insertionCalculus.Meets () fuel [] (fun _ _ => True) (evalExpr (.of fuel number) e)
      insertionCalculus.value :=
    Calculus.expr (insertionCalculus.calls fuel) e fun _ _ => trivial
  meets

theorem accounted_stmt (s : Stmt) : (evalStmt (.of fuel number) s).Accounted fun _ => True :=
  Calculus.stmt (C := insertionCalculus) (insertionCalculus.calls fuel) s (fun _ _ => trivial)
    (w := ())

theorem accounted_stmts (last : Value) (ss : List Stmt) :
    (evalStmts (.of fuel number) last ss).Accounted fun _ => True :=
  Calculus.stmts (C := insertionCalculus) (insertionCalculus.calls fuel) ss (fun _ _ => trivial)
    (w := ()) trivial

theorem accounted_program (p : Program) : (runProgram fuel p).Accounted fun _ => True := by
  have hlimit : Eval.Accounted (modify fun m : Machine =>
      { m with env := m.env.setLimit m.settings.callLimit }) fun _ => True :=
    .idle (.aside (fun _ => rfl) fun _ => rfl)
  exact hlimit.bind fun _ _ =>
    insertionCalculus.settled (w := ()) (S := fun _ _ => True) fuel (fun _ _ => trivial)
      fun _ _ => trivial

end

end Scriptlet
