import Mathlib.Data.Nat.Basic
import Mathlib.Order.Basic
import Scriptlet.Proofs.Eval.Bindings
import Scriptlet.Proofs.Eval.Results

/-!
# Rooted machines

A machine reaches the current scope and the global one, and, if its host holds values, what
these refer to; and from each cell that it reaches the cells that this one refers to: a
scope leads to the scope in which it lies and to the
values bound in it, an array, an object and an instance to the values in them, an instance
to its class, a class to the scope that it was declared in, and a function to the scope
that it was made in and to what the value that it is bound to refers to. A machine is *rooted* if every cell that it reaches exists, and every
scope that it reaches lies, in the end, in the global scope (`Machine.Rooted`).

That a step keeps a machine rooted is shown with a set of cells that is fixed beforehand
(`Region`): the cells that may be reached at all. `Region.Holds` says of a machine that the
cells of the region refer to cells of the region only, and that its scopes lie in the
global one.
-/

namespace Scriptlet

/-- The cells that a value refers to. -/
inductive Value.Mentions : Value → {s : CellSort} → Ref s → Prop
  | array (r : Ref .array) : (Value.array r).Mentions r
  | object (r : Ref .object) : (Value.object r).Mentions r
  | inst (r : Ref .inst) : (Value.inst r).Mentions r
  | klass (r : Ref .klass) : (Value.klass r).Mentions r
  | scope (f : Function) : (Value.function f).Mentions f.scope
  | receiver {f : Function} {v : Value} {s : CellSort} {r : Ref s} : f.receiver = some v →
    v.Mentions r → (Value.function f).Mentions r

theorem Value.Plain.not_mentions {v : Value} (hv : v.Plain) {s : CellSort} {r : Ref s} :
    ¬ v.Mentions r := by
  intro h
  cases h <;> exact hv

/-- How many cells of each sort there are. -/
abbrev Sizes := CellSort → Nat

/-- The number of cells of each sort but scopes. -/
def Heap.size (h : Heap) : Sizes
  | .scope => 0
  | .array => h.arrays.size
  | .object => h.objects.size
  | .inst => h.instances.size
  | .klass => h.classes.size

theorem Store.size_lt_alloc {s : CellSort} {α : Type} (st : Store s α) (a : α) :
    st.size < (st.alloc a).size :=
  Nat.lt_of_lt_of_eq (Nat.lt_succ_self _) (st.size_alloc a).symm

theorem Heap.size_write (h : Heap) (place : Place) (v : Value) :
    (h.write place v).size = h.size := by
  funext s
  cases place with
  | item r i => cases s <;> first | exact Store.size_modify _ _ _ | rfl
  | behind r => cases s <;> first | exact Store.size_modify _ _ _ | rfl
  | entry r key => cases s <;> first | exact Store.size_modify _ _ _ | rfl
  | field r x => cases s <;> first | exact Store.size_modify _ _ _ | rfl

/-- The number of cells of each sort. -/
def Machine.size (m : Machine) : Sizes
  | .scope => m.env.scopes.size
  | s => m.heap.size s

theorem Machine.size_defineIn (m : Machine) (r : Ref .scope) (x : String) (v : Value)
    (mode : Mode) :
    { m with env := m.env.defineIn r x v mode }.size = m.size := by
  funext s
  cases s with
  | scope => exact m.env.size_defineIn r x v mode
  | _ => rfl

/-- The cells that the machine reaches, if the host holds the values of `held`. -/
inductive Machine.Reaches (m : Machine) (held : List Value) : {s : CellSort} → Ref s → Prop
  | globals : m.Reaches held m.env.globals
  | current : m.Reaches held m.env.current
  | held {v : Value} {s : CellSort} {c : Ref s} : v ∈ held → v.Mentions c → m.Reaches held c
  | parent {r p : Ref .scope} : m.Reaches held r → m.env.parent? r = some p → m.Reaches held p
  | bound {r : Ref .scope} {x : String} {b : Binding} {s : CellSort} {c : Ref s} :
    m.Reaches held r → (m.env.bindings r).get? x = some b → b.value.Mentions c → m.Reaches held c
  | item {r : Ref .array} {v : Value} {s : CellSort} {c : Ref s} : m.Reaches held r →
    v ∈ m.heap.items r → v.Mentions c → m.Reaches held c
  | entry {r : Ref .object} {x : String} {v : Value} {s : CellSort} {c : Ref s} :
    m.Reaches held r → (m.heap.entries r).get? x = some v → v.Mentions c → m.Reaches held c
  | field {r : Ref .inst} {x : String} {v : Value} {s : CellSort} {c : Ref s} :
    m.Reaches held r → (m.heap.inst r).fields.get? x = some v → v.Mentions c → m.Reaches held c
  | ownClass {r : Ref .inst} {i : Instance} : m.Reaches held r →
    m.heap.instances.get? r = some i → m.Reaches held i.klass
  | declared {r : Ref .klass} {c : Class} : m.Reaches held r →
    m.heap.classes.get? r = some c → m.Reaches held c.scope

/-- Every cell that the machine reaches exists, and every scope leads to the global one, which lies
in no other. -/
structure Machine.Rooted (m : Machine) (held : List Value) : Prop where
  stored {s : CellSort} {r : Ref s} : m.Reaches held r → r.index < m.size s
  leads {r : Ref .scope} : m.Reaches held r → m.env.LeadsTo m.env.globals r
  top : m.env.parent? m.env.globals = none

/-- On a rooted machine, the scopes from a scope outward end in the global one. -/
theorem Machine.Rooted.chain {m : Machine} {held : List Value} (hm : m.Rooted held)
    {r : Ref .scope} (hr : m.Reaches held r) :
    (m.env.chain r).getLast? = some m.env.globals :=
  (hm.leads hr).chainWithin hm.top (hm.stored hr)

/-! ## Regions -/

/-- The contents of all cells with `C` satisfy `P`. -/
def Store.AllIn {s : CellSort} {α : Type} (C : Ref s → Prop) (P : α → Prop) (st : Store s α) :
    Prop :=
  ∀ r a, C r → st.get? r = some a → P a

namespace Store.AllIn

variable {s : CellSort} {α : Type} {C : Ref s → Prop} {P P' : α → Prop} {st : Store s α}

theorem mono (h : st.AllIn C P) (hP : ∀ a, P a → P' a) : st.AllIn C P' :=
  fun r a hr ha => hP a (h r a hr ha)

theorem alloc (h : st.AllIn C P) {a : α} (ha : P a) : (st.alloc a).AllIn C P := by
  intro r b hr hb
  rw [Store.get?_alloc] at hb
  split at hb
  · cases hb
    exact ha
  · exact h r b hr hb

theorem modify (h : st.AllIn C P) {r : Ref s} {f : α → α} (hf : ∀ a, P a → P (f a)) :
    (st.modify r f).AllIn C P := by
  intro r' b hr hb
  rw [Store.get?_modify] at hb
  split at hb
  · obtain ⟨a, ha, rfl⟩ := Option.map_eq_some_iff.mp hb
    exact hf a (h r' a hr ha)
  · exact h r' b hr hb

/-- What is read from a cell, or instead of one that does not exist. -/
theorem getD (h : st.AllIn C P) {r : Ref s} (hr : C r) {d : α} (hd : P d) :
    P ((st.get? r).getD d) := by
  cases ha : st.get? r with
  | none => exact hd
  | some a => exact h r a hr ha

end Store.AllIn

/-- Cells that may be reached, with the global scope among them. -/
structure Region where
  globals : Ref .scope
  cells : {s : CellSort} → Ref s → Prop

namespace Region

variable (X : Region)

/-- A cell of the region that exists. -/
def Known (w : Sizes) {s : CellSort} (r : Ref s) : Prop := X.cells r ∧ r.index < w s

/-- A value that refers to cells of the region that exist. -/
def Admits (w : Sizes) (v : Value) : Prop :=
  ∀ ⦃s : CellSort⦄ ⦃r : Ref s⦄, v.Mentions r → X.Known w r

/-- The cells of the region in the heap refer to cells of the region that exist. -/
structure HoldsHeap (w : Sizes) (h : Heap) : Prop where
  arrays : h.arrays.AllIn X.cells fun items => ∀ v ∈ items, X.Admits w v
  objects : h.objects.AllIn X.cells fun entries => entries.All (X.Admits w)
  instances : h.instances.AllIn X.cells fun i => X.Known w i.klass ∧ i.fields.All (X.Admits w)
  classes : h.classes.AllIn X.cells fun c => X.Known w c.scope

/-- The scopes of the region refer to cells of the region that exist, and lie in the global one. -/
structure HoldsEnv (w : Sizes) (e : Environment) : Prop where
  size : w .scope = e.scopes.size
  globals : e.globals = X.globals
  known : X.Known w X.globals
  top : e.parent? X.globals = none
  current : X.Known w e.current
  leads {r : Ref .scope} : X.Known w r → e.LeadsTo X.globals r
  scopes : e.scopes.AllIn X.cells fun s =>
    (∀ p, s.parent = some p → X.Known w p) ∧ s.bindings.All fun b => X.Admits w b.value

/-- The machine keeps to the region, which every new cell belongs to. -/
structure Holds (m : Machine) : Prop where
  env : X.HoldsEnv m.size m.env
  heap : X.HoldsHeap m.size m.heap
  fresh {s : CellSort} {r : Ref s} : m.size s ≤ r.index → X.cells r

variable {X} {w w' : Sizes}

theorem Known.mono (hw : w ≤ w') {s : CellSort} {r : Ref s} (h : X.Known w r) : X.Known w' r :=
  ⟨h.1, Nat.lt_of_lt_of_le h.2 (hw s)⟩

theorem Admits.mono (hw : w ≤ w') {v : Value} (h : X.Admits w v) : X.Admits w' v :=
  fun _ _ hr => (h hr).mono hw

theorem admits_of_plain {v : Value} (hv : v.Plain) : X.Admits w v :=
  fun _ _ hr => absurd hr hv.not_mentions

theorem admits_builtin (b : Builtin) : X.Admits w (.builtin b) := nofun

theorem admits_array {r : Ref .array} (h : X.Known w r) : X.Admits w (.array r)
  | _, _, .array _ => h

theorem admits_object {r : Ref .object} (h : X.Known w r) : X.Admits w (.object r)
  | _, _, .object _ => h

theorem admits_inst {r : Ref .inst} (h : X.Known w r) : X.Admits w (.inst r)
  | _, _, .inst _ => h

theorem admits_klass {r : Ref .klass} (h : X.Known w r) : X.Admits w (.klass r)
  | _, _, .klass _ => h

theorem admits_function {f : Function} (hf : X.Known w f.scope)
    (hv : ∀ v, f.receiver = some v → X.Admits w v) : X.Admits w (.function f)
  | _, _, .scope _ => hf
  | _, _, .receiver h hr => hv _ h hr

/-! ## Environments -/

namespace HoldsEnv

variable {e : Environment}

theorem mono (he : X.HoldsEnv w e) (hw : w ≤ w') (hsize : w' .scope = w .scope) :
    X.HoldsEnv w' e where
  size := hsize.trans he.size
  globals := he.globals
  known := he.known.mono hw
  top := he.top
  current := he.current.mono hw
  leads hr := he.leads ⟨hr.1, hsize ▸ hr.2⟩
  scopes := he.scopes.mono fun _ ⟨hparent, hbindings⟩ =>
    ⟨fun p hp => (hparent p hp).mono hw, fun x b hb => (hbindings x b hb).mono hw⟩

/-- What an environment keeps besides its scopes does not matter. -/
theorem congr (he : X.HoldsEnv w e) {e' : Environment} (hscopes : e'.scopes = e.scopes)
    (hglobals : e'.globals = e.globals) (hcurrent : X.Known w e'.current) : X.HoldsEnv w e' := by
  have hparent : e'.parent? = e.parent? := by
    unfold Environment.parent?
    rw [hscopes]
  exact {
    size := hscopes ▸ he.size
    globals := hglobals.trans he.globals
    known := he.known
    top := hparent ▸ he.top
    current := hcurrent
    leads := fun hr => (he.leads hr).of_parents fun r p hp => hparent ▸ hp
    scopes := hscopes ▸ he.scopes }

theorem parent (he : X.HoldsEnv w e) {r p : Ref .scope} (hr : X.cells r)
    (hp : e.parent? r = some p) : X.Known w p := by
  obtain ⟨s, hs, hsp⟩ := Option.bind_eq_some_iff.mp hp
  exact (he.scopes r s hr hs).1 p hsp

theorem bindings (he : X.HoldsEnv w e) {r : Ref .scope} (hr : X.cells r) :
    (e.bindings r).All fun b => X.Admits w b.value := by
  unfold Environment.bindings
  cases hs : e.scopes.get? r with
  | none => exact OrderedMap.All.empty
  | some s => exact (he.scopes r s hr hs).2

theorem defineIn (he : X.HoldsEnv w e) (r : Ref .scope) (x : String) {v : Value}
    (hv : X.Admits w v) (mode : Mode) : X.HoldsEnv w (e.defineIn r x v mode) where
  size := he.size.trans (e.size_defineIn r x v mode).symm
  globals := he.globals
  known := he.known
  top := (e.parent?_defineIn r x v mode _).trans he.top
  current := he.current
  leads hr := (he.leads hr).of_parents fun r' _ hp => (e.parent?_defineIn r x v mode r').trans hp
  scopes := he.scopes.modify fun _ ⟨hparent, hbindings⟩ => ⟨hparent, hbindings.insert x hv⟩

theorem newScope (he : X.HoldsEnv w e) (hw : w ≤ w') (hsize : w' .scope = w .scope + 1)
    {p : Ref .scope} (hp : X.Known w p) : X.HoldsEnv w' (e.newScope (some p)).2 := by
  have hnext : e.scopes.next.index = w .scope := he.size.symm
  have hleads {r : Ref .scope} (hr : X.Known w r) :
      (e.newScope (some p)).2.LeadsTo X.globals r := by
    refine (he.leads hr).of_parents fun r q hq => ?_
    rw [e.parent?_newScope, if_neg]
    · exact hq
    · rintro rfl
      rw [Environment.parent?, e.get?_next] at hq
      cases hq
  exact {
    size := by rw [hsize, he.size, e.size_newScope]
    globals := he.globals
    known := he.known.mono hw
    top := by
      rw [e.parent?_newScope, if_neg]
      · exact he.top
      · exact fun h => Nat.lt_irrefl _ (hnext ▸ h ▸ he.known.2)
    current := he.current.mono hw
    leads := fun {r} hr => by
      by_cases hold : r.index < w .scope
      · exact hleads ⟨hr.1, hold⟩
      · have hr' : r = e.scopes.next := by
          have hlt : r.index < w .scope + 1 := hsize ▸ hr.2
          have hindex : r.index = e.scopes.next.index := by omega
          exact congrArg Ref.mk hindex
        rw [hr']
        refine .outward ((e.parent?_newScope (some p) _).trans (if_pos rfl)) ?_ (hleads hp)
        rw [hnext]
        exact hp.2
    scopes := (he.scopes.mono fun _ ⟨hparent, hbindings⟩ =>
        ⟨fun q hq => (hparent q hq).mono hw, fun x b hb => (hbindings x b hb).mono hw⟩).alloc
      ⟨fun q hq => Option.some.inj hq ▸ hp.mono hw, OrderedMap.All.empty⟩ }

/-- What a name stands for in a scope of the region refers to the region, and is bound there. -/
theorem findWithin (he : X.HoldsEnv w e) {x : String} {fuel : Nat} {r owner : Ref .scope}
    {b : Binding} (hr : X.Known w r) (h : e.findWithin x fuel r = some (owner, b)) :
    X.Known w owner ∧ X.Admits w b.value := by
  induction fuel generalizing r with
  | zero => cases h
  | succ fuel ih =>
    unfold Environment.findWithin at h
    split at h
    · rename_i b' hb
      cases h
      exact ⟨hr, he.bindings hr.1 x b hb⟩
    · split at h
      · exact ih (he.parent hr.1 ‹_›) h
      · cases h

end HoldsEnv

/-! ## Heaps -/

namespace HoldsHeap

variable {h : Heap}

theorem mono (hh : X.HoldsHeap w h) (hw : w ≤ w') : X.HoldsHeap w' h where
  arrays := hh.arrays.mono fun _ hi v hv => (hi v hv).mono hw
  objects := hh.objects.mono fun _ he x v hv => (he x v hv).mono hw
  instances := hh.instances.mono fun _ ⟨hc, hf⟩ => ⟨hc.mono hw, fun x v hv => (hf x v hv).mono hw⟩
  classes := hh.classes.mono fun _ hc => hc.mono hw

/-- What is read off values that refer to the region refers to it too. -/
theorem closed (hh : X.HoldsHeap w h) (hinst : w .inst = h.instances.size)
    (hklass : w .klass = h.classes.size) : h.Closed (X.Admits w) where
  items hr := hh.arrays.getD (hr (.array _)).1 fun _ hv => absurd hv (Array.not_mem_empty _)
  entries hr := hh.objects.getD (hr (.object _)).1 OrderedMap.All.empty
  fields {r} hr := by
    unfold Heap.inst
    cases hi : h.instances.get? r with
    | none => exact OrderedMap.All.empty
    | some i => exact (hh.instances r i (hr (.inst _)).1 hi).2
  ownClass {r} hr := by
    obtain ⟨hmem, hlt⟩ := hr (.inst _)
    have hlt : r.index < h.instances.cells.size := Nat.lt_of_lt_of_eq hlt hinst
    have hi : h.instances.get? r = some h.instances.cells[r.index] := Array.getElem?_eq_getElem hlt
    unfold Heap.inst
    rw [hi]
    exact admits_klass (hh.instances r _ hmem hi).1
  method {c v x f} hc hv hf := by
    obtain ⟨hmem, hlt⟩ := hc (.klass _)
    have hlt : c.index < h.classes.cells.size := Nat.lt_of_lt_of_eq hlt hklass
    have hi : h.classes.get? c = some h.classes.cells[c.index] := Array.getElem?_eq_getElem hlt
    unfold Heap.klass at hf
    rw [hi] at hf
    obtain ⟨routine, -, rfl⟩ := Option.map_eq_some_iff.mp hf
    refine admits_function (hh.classes c _ hmem hi) fun w h => ?_
    cases h
    exact hv

theorem newArray (hh : X.HoldsHeap w h) {items : Array Value} (hi : ∀ v ∈ items, X.Admits w v) :
    X.HoldsHeap w (h.newArray items).2 :=
  { hh with arrays := hh.arrays.alloc hi }

theorem newObject (hh : X.HoldsHeap w h) {entries : OrderedMap Value}
    (he : entries.All (X.Admits w)) : X.HoldsHeap w (h.newObject entries).2 :=
  { hh with objects := hh.objects.alloc he }

theorem newInstance (hh : X.HoldsHeap w h) {c : Ref .klass} (hc : X.Known w c) :
    X.HoldsHeap w (h.newInstance c).2 :=
  { hh with instances := hh.instances.alloc ⟨hc, OrderedMap.All.empty⟩ }

theorem newClass (hh : X.HoldsHeap w h) {c : Class} (hc : X.Known w c.scope) :
    X.HoldsHeap w (h.newClass c).2 :=
  { hh with classes := hh.classes.alloc hc }

theorem write (hh : X.HoldsHeap w h) (place : Place) {v : Value} (hv : X.Admits w v) :
    X.HoldsHeap w (h.write place v) := by
  cases place with
  | item r i =>
    refine { hh with arrays := hh.arrays.modify fun items hi u hu => ?_ }
    rcases Array.mem_or_eq_of_mem_setIfInBounds hu with hu | rfl
    · exact hi u hu
    · exact hv
  | behind r =>
    refine { hh with arrays := hh.arrays.modify fun items hi u hu => ?_ }
    rcases Array.mem_push.mp hu with hu | rfl
    · exact hi u hu
    · exact hv
  | entry r key => exact { hh with objects := hh.objects.modify fun _ he => he.insert key hv }
  | field r x =>
    exact { hh with instances := hh.instances.modify fun _ ⟨hc, hf⟩ => ⟨hc, hf.insert x hv⟩ }

end HoldsHeap

/-! ## Machines -/

namespace Holds

variable {m : Machine}

/-- A machine that keeps to a region reaches nothing else. -/
theorem known (hm : X.Holds m) {held : List Value} (hheld : ∀ v ∈ held, X.Admits m.size v)
    {s : CellSort} {r : Ref s} (hr : m.Reaches held r) : X.Known m.size r := by
  have closed := hm.heap.closed rfl rfl
  induction hr with
  | globals => exact hm.env.globals ▸ hm.env.known
  | current => exact hm.env.current
  | held hv hc => exact hheld _ hv hc
  | parent _ hp ih => exact hm.env.parent ih.1 hp
  | bound _ hb hc ih => exact hm.env.bindings ih.1 _ _ hb hc
  | item _ hv hc ih => exact closed.items (admits_array ih) _ hv hc
  | entry _ hv hc ih => exact closed.entries (admits_object ih) _ _ hv hc
  | field _ hv hc ih => exact closed.fields (admits_inst ih) _ _ hv hc
  | ownClass _ hi ih => exact (hm.heap.instances _ _ ih.1 hi).1
  | declared _ hc ih => exact hm.heap.classes _ _ ih.1 hc

theorem rooted (hm : X.Holds m) {held : List Value} (hheld : ∀ v ∈ held, X.Admits m.size v) :
    m.Rooted held where
  stored hr := (hm.known hheld hr).2
  leads hr := hm.env.globals ▸ hm.env.leads (hm.known hheld hr)
  top := hm.env.globals ▸ hm.env.top

theorem globals_stored (hm : X.Holds m) : m.env.globals.index < m.size .scope :=
  hm.env.globals ▸ hm.env.known.2

/-- Every search for a name ends in the global scope. -/
theorem current_leads (hm : X.Holds m) : m.env.LeadsTo m.env.globals m.env.current :=
  hm.env.globals ▸ hm.env.leads hm.env.current

/-- What a machine keeps besides its cells does not matter. -/
theorem congr (hm : X.Holds m) {m' : Machine} (hheap : m'.heap = m.heap)
    (hscopes : m'.env.scopes = m.env.scopes) (hglobals : m'.env.globals = m.env.globals)
    (hcurrent : X.Known m.size m'.env.current) : X.Holds m' := by
  have hsize : m'.size = m.size := by
    funext s
    cases s <;> simp only [Machine.size, hheap, hscopes]
  exact {
    env := hsize ▸ hm.env.congr hscopes hglobals hcurrent
    heap := hsize ▸ hheap ▸ hm.heap
    fresh := hsize ▸ hm.fresh }

theorem size_setHeap (m : Machine) {h : Heap} (hsize : m.heap.size ≤ h.size) :
    m.size ≤ { m with heap := h }.size := by
  intro s
  cases s with
  | scope => exact Nat.le_refl _
  | array => exact hsize .array
  | object => exact hsize .object
  | inst => exact hsize .inst
  | klass => exact hsize .klass

theorem setHeap (hm : X.Holds m) {h : Heap} (hsize : m.heap.size ≤ h.size)
    (hh : X.HoldsHeap m.size h) : X.Holds { m with heap := h } where
  env := hm.env.mono (size_setHeap m hsize) rfl
  heap := hh.mono (size_setHeap m hsize)
  fresh hr := hm.fresh (Nat.le_trans (size_setHeap m hsize _) hr)

theorem defineIn (hm : X.Holds m) (r : Ref .scope) (x : String) {v : Value}
    (hv : X.Admits m.size v) (mode : Mode) :
    X.Holds { m with env := m.env.defineIn r x v mode } := by
  have hsize := m.size_defineIn r x v mode
  exact {
    env := hsize ▸ hm.env.defineIn r x hv mode
    heap := hsize ▸ hm.heap
    fresh := hsize ▸ hm.fresh }

theorem size_newScope (m : Machine) (p : Option (Ref .scope)) :
    m.size ≤ { m with env := (m.env.newScope p).2 }.size := by
  intro s
  cases s with
  | scope =>
    show m.env.scopes.size ≤ (m.env.newScope p).2.scopes.size
    rw [m.env.size_newScope]
    exact Nat.le_succ _
  | _ => exact Nat.le_refl _

/-- A new scope is one of the region. -/
theorem newScope (hm : X.Holds m) {p : Ref .scope} (hp : X.Known m.size p) :
    X.Holds { m with env := (m.env.newScope (some p)).2 } ∧
      X.Known { m with env := (m.env.newScope (some p)).2 }.size m.env.scopes.next := by
  have hle := size_newScope m (some p)
  refine ⟨?_, hm.fresh (Nat.le_refl _), ?_⟩
  · exact {
      env := hm.env.newScope hle (m.env.size_newScope (some p)) hp
      heap := hm.heap.mono hle
      fresh := fun hr => hm.fresh (Nat.le_trans (hle _) hr) }
  · show m.env.scopes.size < (m.env.newScope (some p)).2.scopes.size
    rw [m.env.size_newScope]
    exact Nat.lt_succ_self _

end Holds

end Region

/-- The cells that a machine reaches, and those that it does not have yet. -/
def Machine.region (m : Machine) (held : List Value) : Region where
  globals := m.env.globals
  cells {s} r := m.Reaches held r ∨ m.size s ≤ r.index

namespace Machine.Rooted

variable {m : Machine} {held : List Value}

theorem known (hm : m.Rooted held) {s : CellSort} {r : Ref s} (hr : m.Reaches held r) :
    (m.region held).Known m.size r :=
  ⟨.inl hr, hm.stored hr⟩

theorem admits (hm : m.Rooted held) : ∀ v ∈ held, (m.region held).Admits m.size v :=
  fun _ hv _ _ hc => hm.known (.held hv hc)

theorem holds (hm : m.Rooted held) : (m.region held).Holds m := by
  -- A cell of the region that exists is reached.
  have reached {s : CellSort} {r : Ref s} (hr : (m.region held).cells r)
      (hlt : r.index < m.size s) : m.Reaches held r := hr.resolve_right (Nat.not_le.mpr hlt)
  have stored {s : CellSort} {α : Type} {st : Store s α} {r : Ref s} {a : α}
      (ha : st.get? r = some a) : r.index < st.size := (Array.getElem?_eq_some_iff.mp ha).1
  refine { env := ?_, heap := ?_, fresh := .inr }
  · exact {
      size := rfl
      globals := rfl
      known := hm.known .globals
      top := hm.top
      current := hm.known .current
      leads := fun hr => hm.leads (reached hr.1 hr.2)
      scopes := fun r s hr hs => by
        have hr := reached hr (stored hs)
        refine ⟨fun p hp => hm.known (.parent hr ?_), fun x b hb _ _ hc =>
          hm.known (.bound hr (x := x) ?_ hc)⟩
        · exact Option.bind_eq_some_iff.mpr ⟨s, hs, hp⟩
        · show (((m.env.scopes.get? r).map Scope.bindings).getD .empty).get? x = some b
          rw [hs]
          exact hb }
  · exact {
      arrays := fun r items hr hitems v hv _ _ hc => by
        refine hm.known (.item (reached hr (stored hitems)) (v := v) ?_ hc)
        rw [Heap.items, hitems]
        exact hv
      objects := fun r entries hr hentries x v hv _ _ hc => by
        refine hm.known (.entry (reached hr (stored hentries)) (x := x) (v := v) ?_ hc)
        rw [Heap.entries, hentries]
        exact hv
      instances := fun r i hr hi => by
        have hr := reached hr (stored hi)
        refine ⟨hm.known (.ownClass hr hi), fun x v hv _ _ hc => hm.known (.field hr (x := x) ?_ hc)⟩
        rw [Heap.inst, hi]
        exact hv
      classes := fun r c hr hc => hm.known (.declared (reached hr (stored hc)) hc) }

end Machine.Rooted

end Scriptlet
