import Scriptlet.Proofs.Relabel.Programs

/-!
# The code that a machine holds

A machine holds the routines of the functions and classes in its cells, and those within them
(`Machine.Code`). If a relabeling calls these what they are called already and has no older cells,
every machine that holds them is related to itself (`Fixes.machines`); and the first of two machines
that are related holds code of the relabeling only (`Machines.code`). So what is said with a
relabeling of two runs can be said of the code of one: a relabeling that knows the programs with
numbers below some bound shows that a run makes functions of such programs only.
-/

namespace Scriptlet

/-! ## What a machine holds -/

/-- The value is the function, or a function that is bound to a value that involves it. -/
inductive Value.Involves : Value → Function → Prop
  | self (f : Function) : Involves (.function f) f
  | receiver {f g : Function} {v : Value} : f.receiver = some v → Involves v g →
    Involves (.function f) g

/-- The value is in a cell of the machine, or such a value is bound to it. -/
inductive Machine.Stores (m : Machine) : Value → Prop
  | item {r : Ref .array} {items : Array Value} {v : Value} :
    m.heap.arrays.get? r = some items → v ∈ items.toList → m.Stores v
  | entry {r : Ref .object} {o : OrderedMap Value} {e : String × Value} :
    m.heap.objects.get? r = some o → e ∈ o.entries → m.Stores e.2
  | field {r : Ref .inst} {i : Instance} {e : String × Value} :
    m.heap.instances.get? r = some i → e ∈ i.fields.entries → m.Stores e.2
  | bound {r : Ref .scope} {s : Scope} {e : String × Binding} :
    m.env.scopes.get? r = some s → e ∈ s.bindings.entries → m.Stores e.2.value
  | receiver {f : Function} {v : Value} : m.Stores (.function f) → f.receiver = some v → m.Stores v

/-- The routine is part of the program with the number, and the machine holds it: a function made
of it, a class with it, or a routine that it is in. -/
inductive Machine.Code (m : Machine) : Nat → Routine → Prop
  | function {f : Function} : m.Stores (.function f) → m.Code f.program f.routine
  | method {r : Ref .klass} {c : Class} {e : String × Routine} :
    m.heap.classes.get? r = some c → e ∈ c.methods.entries → m.Code c.program e.2
  | inside {a : Nat} {r r' : Routine} {x : Node} : m.Code a r → x ∈ stmtsNodes r.body →
    r' ∈ x.routines → m.Code a r'

namespace Machine

variable {m m' : Machine}

theorem Stores.congr (hheap : m'.heap = m.heap) (hscopes : m'.env.scopes = m.env.scopes) {v : Value}
    (h : m.Stores v) : m'.Stores v := by
  induction h with
  | item hr hv => exact .item (hheap ▸ hr) hv
  | entry hr he => exact .entry (hheap ▸ hr) he
  | field hr he => exact .field (hheap ▸ hr) he
  | bound hr he => exact .bound (hscopes ▸ hr) he
  | receiver _ hv ih => exact .receiver ih hv

theorem Stores.involved {v : Value} {f : Function} (h : m.Stores v) (hf : v.Involves f) :
    m.Stores (.function f) := by
  induction hf with
  | self => exact h
  | receiver hv _ ih => exact ih (.receiver h hv)

theorem Code.congr (hheap : m'.heap = m.heap) (hscopes : m'.env.scopes = m.env.scopes) {a : Nat}
    {r : Routine} (h : m.Code a r) : m'.Code a r := by
  induction h with
  | function hf => exact .function (hf.congr hheap hscopes)
  | method hc he => exact .method (hheap ▸ hc) he
  | inside _ hx hr ih => exact .inside ih hx hr

end Machine

/-! ## Machines that are related to themselves -/

theorem OrderedMap.Matches.refl {α : Type} {R : α → α → Prop} {m : OrderedMap α}
    (h : ∀ e ∈ m.entries, R e.2 e.2) : OrderedMap.Matches R m m :=
  List.forall₂_same.mpr fun e he => ⟨rfl, h e he⟩

theorem Store.Matches.refl {s : CellSort} {α : Type} {R : α → α → Prop} {st : Store s α}
    {older : Nat} (holder : older = 0) (h : ∀ r a, st.get? r = some a → R a a) :
    Store.Matches older R st st where
  size := by rw [holder, Nat.zero_add]
  cell i := by
    rw [holder, Nat.zero_add]
    cases hcell : st.get? ⟨i⟩ with
    | none => exact .none
    | some a => exact .some (h _ a hcell)

namespace Relabeling

variable {κ : Relabeling} {m m' : Machine} {n : Nat}

/-- The relabeling knows the routine, and its program is called as it is. -/
structure Keeps (κ : Relabeling) (a : Nat) (r : Routine) : Prop where
  routine : κ.routine a r
  number : κ.number a = a
  place : κ.place a = id

/-- The relabeling knows the code that the machine holds, and calls nothing else than before. -/
structure Fixes (κ : Relabeling) (m : Machine) : Prop where
  older (s : CellSort) : κ.older s = 0
  ident (i : Nat) : κ.ident i = i
  code {a : Nat} {r : Routine} : m.Code a r → κ.Keeps a r
  bindable {f : Function} {v : Value} : m.Stores (.function f) → f.receiver = some v → κ.bindable v

namespace Fixes

variable (h : κ.Fixes m)
include h

theorem ref_eq {s : CellSort} (r : Ref s) : κ.ref r = r := by
  obtain ⟨i⟩ := r
  rw [ref, h.older, Nat.zero_add]

theorem map_ref {s : CellSort} (o : Option (Ref s)) : o.map κ.ref = o := by
  cases o with
  | none => rfl
  | some r => exact congrArg some (h.ref_eq r)

/-- A function whose code is kept stands for itself, but for the value that it is bound to. -/
theorem code_self {f : Function} (hf : κ.Keeps f.program f.routine)
    (hbindable : ∀ v, f.receiver = some v → κ.bindable v) : κ.Code f f where
  allowed := hf.routine
  bindable := hbindable
  program := hf.number.symm
  routine := by
    rw [hf.place]
    exact f.routine.moved_id.symm
  scope := (h.ref_eq f.scope).symm
  mark := rfl

/-- A value whose code is kept stands for itself. -/
theorem relates {v : Value} (hv : ∀ f, v.Involves f → κ.Keeps f.program f.routine)
    (hbindable : ∀ f u, v.Involves f → f.receiver = some u → κ.bindable u) : κ.Relates n v v := by
  induction v using Value.inductionOnReceiver with
  | function f ih =>
    have hcode := h.code_self (hv f (.self f)) fun u => hbindable f u (.self f)
    cases hreceiver : f.receiver with
    | none => exact .unbound hcode hreceiver hreceiver
    | some v =>
      exact .bound hcode hreceiver hreceiver
        (ih v hreceiver (fun g hg => hv g (.receiver hreceiver hg))
          fun g u hg => hbindable g u (.receiver hreceiver hg))
  | other v hother =>
    cases v with
    | undefined | null | boolean | integer | float | string => exact .of_plain trivial
    | array r => simpa only [h.ref_eq] using Relates.array (κ := κ) (n := n) r
    | object r => simpa only [h.ref_eq] using Relates.object (κ := κ) (n := n) r
    | inst r =>
      have hr : κ.Exists n r := .inl (h.older .klass)
      simpa only [h.ref_eq] using Relates.inst hr
    | function f => exact absurd rfl (hother f)
    | builtin b =>
      obtain ⟨p, i⟩ := b
      simpa only [h.ident] using Relates.builtin (κ := κ) (n := n) p i
    | klass r => simpa only [h.ref_eq] using Relates.klass (κ := κ) (n := n) r

theorem relates_stored {v : Value} (hv : m.Stores v) : κ.Relates n v v :=
  h.relates (fun _ hf => h.code (.function (hv.involved hf)))
    fun _ _ hf => h.bindable (hv.involved hf)

theorem heaps : κ.Heaps n m.heap m.heap where
  arrays := .refl (h.older _) fun _ _ hr =>
    List.forall₂_same.mpr fun _ hv => h.relates_stored (.item hr hv)
  objects := .refl (h.older _) fun _ _ hr => .refl fun _ he => h.relates_stored (.entry hr he)
  instances := .refl (h.older _) fun _ i hr =>
    ⟨(h.ref_eq i.klass).symm, .refl fun _ he => h.relates_stored (.field hr he)⟩
  classes := .refl (h.older _) fun _ c hr =>
    { name := rfl
      methods := .refl fun e he => by
        obtain ⟨hroutine, hnumber, hplace⟩ := h.code (.method hr he)
        refine ⟨hroutine, ?_, hnumber.symm⟩
        rw [hplace]
        exact e.2.moved_id.symm
      scope := (h.ref_eq c.scope).symm }

theorem environments (hlimit : m.env.callLimit = κ.limit)
    (hnumbered : κ.numbered m.env.numbered m.env.numbered) : κ.Environments n m.env m.env where
  scopes := .refl (h.older _) fun _ s hr =>
    ⟨.refl fun _ he => ⟨h.relates_stored (.bound hr he), rfl⟩, (h.map_ref s.parent).symm⟩
  globals := (h.ref_eq m.env.globals).symm
  current := (h.ref_eq m.env.current).symm
  callDepth := rfl
  limit := hlimit
  limit' := hlimit
  numbered := hnumbered

/-- The machine is related to itself, whatever was logged. -/
theorem machines (hsettings : m.settings = κ.settings) (hlimit : m.env.callLimit = κ.limit)
    (hnumbered : κ.numbered m.env.numbered m.env.numbered) (hlogs : ∀ es es', κ.logs es es')
    (events : Array Event) : κ.Machines m { m with events := events } where
  env := h.environments hlimit hnumbered
  heap := h.heaps
  host := rfl
  interrupted := rfl
  settings := hsettings
  settings' := hsettings
  events := hlogs _ _

end Fixes

/-! ## The code of related machines -/

theorem exists_of_forall₂ {α β : Type} {R : α → β → Prop} {as : List α} {bs : List β}
    (h : List.Forall₂ R as bs) {a : α} (ha : a ∈ as) : ∃ b, R a b := by
  induction h with
  | nil => cases ha
  | cons hab _ ih =>
    rcases List.mem_cons.mp ha with rfl | ha
    · exact ⟨_, hab⟩
    · exact ih ha

theorem exists_of_matches {s : CellSort} {α β : Type} {R : α → β → Prop} {older : Nat}
    {st : Store s α} {st' : Store s β} (h : st.Matches older R st') {r : Ref s} {a : α}
    (hr : st.get? r = some a) : ∃ b, R a b := by
  have hcell : Option.Rel R (st.get? r) (st'.get? ⟨older + r.index⟩) := h.cell r.index
  rw [hr] at hcell
  generalize st'.get? ⟨older + r.index⟩ = o at hcell
  cases hcell with
  | some hab => exact ⟨_, hab⟩

namespace Machines

variable (hm : κ.Machines m m')
include hm

theorem exists_relates {v : Value} (hv : m.Stores v) :
    ∃ v', κ.Relates m.heap.instances.size v v' := by
  induction hv with
  | item hr hv =>
    obtain ⟨items', hitems⟩ := exists_of_matches hm.heap.arrays hr
    exact exists_of_forall₂ hitems hv
  | entry hr he =>
    obtain ⟨o', ho⟩ := exists_of_matches hm.heap.objects hr
    obtain ⟨e', -, he⟩ := exists_of_forall₂ ho he
    exact ⟨_, he⟩
  | field hr he =>
    obtain ⟨i', hi⟩ := exists_of_matches hm.heap.instances hr
    obtain ⟨e', -, he⟩ := exists_of_forall₂ hi.fields he
    exact ⟨_, he⟩
  | bound hr he =>
    obtain ⟨s', hs⟩ := exists_of_matches hm.env.scopes hr
    obtain ⟨e', -, he⟩ := exists_of_forall₂ hs.bindings he
    exact ⟨_, he.value⟩
  | receiver _ hv ih =>
    obtain ⟨w, hw⟩ := ih
    obtain ⟨f', rfl, -, hreceiver⟩ := hw.of_function
    rw [hv] at hreceiver
    generalize f'.receiver = o at hreceiver
    cases hreceiver with
    | some hv => exact ⟨_, hv⟩

/-- All functions that the machine holds are bound to values that they may be bound to. -/
theorem bindable {f : Function} {v : Value} (hf : m.Stores (.function f))
    (hv : f.receiver = some v) : κ.bindable v := by
  obtain ⟨_, hrelates⟩ := hm.exists_relates hf
  obtain ⟨f', -, hcode, -⟩ := hrelates.of_function
  exact hcode.bindable v hv

/-- All code that the machine holds is code of the relabeling. -/
theorem code {a : Nat} {r : Routine} (h : m.Code a r) : κ.routine a r := by
  induction h with
  | function hf =>
    obtain ⟨v', hv⟩ := hm.exists_relates hf
    obtain ⟨f', -, hcode, -⟩ := hv.of_function
    exact hcode.allowed
  | method hc he =>
    obtain ⟨c', hc⟩ := exists_of_matches hm.heap.classes hc
    obtain ⟨e', -, hroutine, -⟩ := exists_of_forall₂ hc.methods he
    exact hroutine
  | inside _ hx hr ih => exact κ.made (κ.body ih _ hx) _ hr

end Machines

/-! ## The same evaluation twice -/

/-- An evaluation that ends like itself ends on a machine that is related to itself. -/
theorem Ends.same {α : Type} {Q : Nat → α → α → Prop} {r : EStateM.Result Stop Machine α}
    (h : κ.Ends n Q r r) :
    (∃ a m, r = .ok a m ∧ κ.Machines m m ∧ Q m.heap.instances.size a a) ∨
      ∃ e m, r = .error e m ∧ κ.Machines m m := by
  generalize hr : r = r' at h
  cases h with
  | ok hm _ hq =>
    cases hr
    exact .inl ⟨_, _, rfl, hm, hq⟩
  | error hm _ _ =>
    cases hr
    exact .inr ⟨_, _, rfl, hm⟩

end Relabeling

end Scriptlet
