import Scriptlet.Proofs.Relabel.Code

/-!
# Sessions that were used

`Session.Used` is about a session as a program around it may have left it, with the values that this
program holds: it executed texts, called functions, bound methods to values, read and wrote what is
in the session, came by values elsewhere, and so on. Whatever it did, the numbers of the programs
whose code is there were all given out by the session (`UsedWith.numbered`), so the next program gets
a number that no other code has.
-/

namespace Scriptlet

/-! ## Numbers that were given out -/

/-- The value is an instance, or one of those with `B`. -/
def Value.Bindable (B : Value → Prop) (v : Value) : Prop := B v ∨ ∃ r, v = .inst r

/-- The machine has given out the number of the function, and the function is bound to an instance or
a value with `B`, if it is bound. -/
structure Machine.Knows (m : Machine) (B : Value → Prop) (f : Function) : Prop where
  program : f.program < m.env.numbered
  receiver (v : Value) : f.receiver = some v → v.Bindable B

/-- The numbers of all code in the machine and in the values were given out by the machine, and the
functions there are bound to instances and values with `B` only. -/
structure Machine.Numbered (m : Machine) (B : Value → Prop) (held : List Value) : Prop where
  code {a : Nat} {r : Routine} : m.Code a r → a < m.env.numbered
  bound {f : Function} {v : Value} : m.Stores (.function f) → f.receiver = some v → v.Bindable B
  held {v : Value} {f : Function} : v ∈ held → v.Involves f → m.Knows B f

/-- The relabeling that changes nothing, and knows all programs that the machine has numbered. -/
def Machine.census (m : Machine) (B : Value → Prop) : Relabeling where
  settings := m.settings
  limit := m.env.callLimit
  older _ := 0
  number a := a
  place _ := id
  ident i := i
  node a _ := a < m.env.numbered
  routine a _ := a < m.env.numbered
  bindable v := v.Bindable B
  logs _ _ := True
  numbered k _ := k = m.env.numbered
  made h _ _ := h
  body h _ _ := h
  bindable_inst r := .inr ⟨r, rfl⟩
  ident_injective _ _ h := h
  apart _ _ ha hp := ⟨ha, hp⟩
  logged _ _ := trivial

namespace Machine.Numbered

variable {B : Value → Prop} {m m' m₀ : Machine} {held held' : List Value} {v : Value} {n : Nat}

theorem fixes (h : m.Numbered B held) : (m.census B).Fixes m where
  older _ := rfl
  ident _ := rfl
  code ha := ⟨h.code ha, rfl, rfl⟩
  bindable hf hv := h.bound hf hv

/-- The census of a machine relates it to itself. -/
theorem machines (h : m.Numbered B held) : (m.census B).Machines m m :=
  h.fixes.machines rfl rfl rfl (fun _ _ => trivial) m.events

/-- The census relates a value to itself if the machine knows all functions in it. -/
theorem relates_known (h : m.Numbered B held) (hv : ∀ f, v.Involves f → m.Knows B f) :
    (m.census B).Relates n v v :=
  h.fixes.relates (fun f hf => ⟨(hv f hf).program, rfl, rfl⟩) fun f u hf => (hv f hf).receiver u

theorem relates (h : m.Numbered B held) (hv : v ∈ held) : (m.census B).Relates n v v :=
  h.relates_known fun _ hf => h.held hv hf

theorem related (h : m.Numbered B held) {vs : List Value} (hvs : vs ⊆ held) :
    List.Forall₂ ((m.census B).Relates n) vs vs :=
  List.forall₂_same.mpr fun _ hv => h.relates (hvs hv)

/-- And the machine knows all functions in a value that the census relates to another. -/
theorem known {w : Value} {f : Function} (h : (m.census B).Relates n v w) (hf : v.Involves f) :
    m.Knows B f := by
  induction hf generalizing w with
  | self f =>
    obtain ⟨f', -, hcode, -⟩ := h.of_function
    exact ⟨hcode.allowed, hcode.bindable⟩
  | receiver hv _ ih =>
    obtain ⟨f', -, -, hreceiver⟩ := h.of_function
    rw [hv] at hreceiver
    generalize f'.receiver = o at hreceiver
    cases hreceiver with
    | some hv => exact ih hv

/-- A machine that the census of one relates to another has given out the numbers of its code. -/
theorem of_machines (h : (m₀.census B).Machines m m')
    (hheld : ∀ v ∈ held, ∀ f, v.Involves f → m₀.Knows B f) : m.Numbered B held := by
  have hbound : m.env.numbered = m₀.env.numbered := h.env.numbered
  exact
    { code := fun ha => hbound ▸ h.code ha
      bound := fun hf hv => h.bindable hf hv
      held := fun hv hf =>
        have hknows := hheld _ hv _ hf
        ⟨hbound ▸ hknows.program, hknows.receiver⟩ }

/-- The numbers stay given out. -/
theorem mono (h : m.Numbered B held) (hheap : m'.heap = m.heap)
    (hscopes : m'.env.scopes = m.env.scopes) (hnumbered : m.env.numbered ≤ m'.env.numbered)
    (hheld : held' ⊆ held) : m'.Numbered B held' where
  code ha := Nat.lt_of_lt_of_le (h.code (ha.congr hheap.symm hscopes.symm)) hnumbered
  bound hf := h.bound (hf.congr hheap.symm hscopes.symm)
  held hv hf :=
    have hknows := h.held (hheld hv) hf
    ⟨Nat.lt_of_lt_of_le hknows.program hnumbered, hknows.receiver⟩

/-- One more value, whose code the machine has numbered. -/
theorem cons (h : m.Numbered B held) (hv : ∀ f, v.Involves f → m.Knows B f) :
    m.Numbered B (v :: held) where
  code := h.code
  bound := h.bound
  held hw := by
    rcases List.mem_cons.mp hw with rfl | hw
    · exact hv _
    · exact h.held hw

theorem stored (h : m.Numbered B held) (hv : m.Stores v) : m.Numbered B (v :: held) :=
  h.cons fun _ hf =>
    have hstored := hv.involved hf
    ⟨h.code (.function hstored), fun _ => h.bound hstored⟩

/-- The value that a function is bound to. -/
theorem receiver (h : m.Numbered B held) {f : Function} (hf : .function f ∈ held)
    (hv : f.receiver = some v) : m.Numbered B (v :: held) :=
  h.cons fun _ hg => h.held hf (.receiver hv hg)

/-- A method of a class, bound to a value. -/
theorem method (h : m.Numbered B held) {r : Ref .klass} {x : String} (hv : v ∈ held)
    (hbindable : v.Bindable B) {f : Function} (hf : (m.heap.klass r).method? x v = some f)
    (mark : Nat) : m.Numbered B (.function { f with mark := mark } :: held) := by
  have hmethod := h.machines.heap.method? r x (h.relates hv) hbindable
  rw [h.fixes.ref_eq, hf] at hmethod
  cases hmethod with
  | some hrelates =>
    have hknows : m.Knows B f := known hrelates (.self f)
    refine h.cons fun g hg => ?_
    cases hg with
    | self => exact ⟨hknows.program, hknows.receiver⟩
    | receiver hu hg => exact known hrelates (.receiver hu hg)

/-! ### Changes without an evaluation -/

/-- Another environment that the census relates to itself. -/
theorem withEnv (h : m.Numbered B held) {e : Environment}
    (he : (m.census B).Environments m.heap.instances.size e e) :
    Machine.Numbered { m with env := e } B held := by
  have hm := h.machines
  have hrelated : (m.census B).Machines { m with env := e } { m with env := e } :=
    { hm with env := he }
  exact of_machines hrelated fun _ hv _ hf => h.held hv hf

/-- Another heap with as many instances that the census relates to itself. -/
theorem withHeap (h : m.Numbered B held) {heap : Heap}
    (hsize : heap.instances.size = m.heap.instances.size)
    (hheap : (m.census B).Heaps m.heap.instances.size heap heap) :
    Machine.Numbered { m with heap := heap } B held := by
  have hm := h.machines
  have hrelated : (m.census B).Machines { m with heap := heap } { m with heap := heap } := by
    refine { hm with env := ?_, heap := ?_ }
    · show Relabeling.Environments _ heap.instances.size m.env m.env
      rw [hsize]
      exact hm.env
    · show Relabeling.Heaps _ heap.instances.size heap heap
      rw [hsize]
      exact hheap
  exact of_machines hrelated fun _ hv _ hf => h.held hv hf

theorem defineIn (h : m.Numbered B held) (hv : v ∈ held) (r : Ref .scope) (x : String) (mode : Mode) :
    Machine.Numbered { m with env := m.env.defineIn r x v mode } B held := by
  have henv := h.machines.env.defineIn r x (h.relates hv) mode
  rw [h.fixes.ref_eq] at henv
  exact h.withEnv henv

theorem install (h : m.Numbered B held) (p : Primitive) :
    Machine.Numbered { m with env := m.env.install p } B held := by
  have htaken : Machine.Numbered { m with env := m.env.takeNumber.2 } B held :=
    h.mono rfl rfl (Nat.le_succ _) (List.Subset.refl _)
  have hbuiltin : Machine.Numbered { m with env := m.env.takeNumber.2 } B
      (.builtin ⟨p, m.env.numbered⟩ :: held) := htaken.cons nofun
  exact (hbuiltin.defineIn List.mem_cons_self m.env.globals p.name .mutable).mono rfl rfl
    (Nat.le_refl _) (List.subset_cons_self _ _)

theorem loadPrelude (h : m.Numbered B held) :
    Machine.Numbered { m with env := m.env.loadPrelude } B held := by
  unfold Environment.loadPrelude
  generalize Environment.standardPrimitives = ps
  induction ps generalizing m with
  | nil => exact h
  | cons p ps ih => exact ih (h.install p)

theorem clear (h : m.Numbered B held) : Machine.Numbered { m with env := m.env.clear } B held := by
  have hm := h.machines
  have hnext : (⟨m.env.scopes.size⟩ : Ref .scope) = (m.census B).ref ⟨m.env.scopes.size⟩ :=
    (h.fixes.ref_eq _).symm
  exact h.withEnv
    { scopes := hm.env.scopes.alloc ⟨.empty, rfl⟩
      globals := hnext
      current := hnext
      callDepth := rfl
      limit := rfl
      limit' := rfl
      numbered := rfl }

theorem write (h : m.Numbered B held) (hv : v ∈ held) (spot : Place) :
    Machine.Numbered { m with heap := m.heap.write spot v } B held := by
  have hheap := h.machines.heap.write (h.relates hv) spot
  have hspot : (m.census B).spot spot = spot := by
    cases spot <;> simp only [Relabeling.spot, h.fixes.ref_eq]
  rw [hspot] at hheap
  exact h.withHeap (Relabeling.size_instances_write m.heap spot v) hheap

theorem newArray (h : m.Numbered B held) {items : List Value} (hitems : items ⊆ held) :
    Machine.Numbered { m with heap := (m.heap.newArray items.toArray).2 } B
      ((m.heap.newArray items.toArray).1 :: held) := by
  have hheap := (h.machines.heap.newArray (h.related hitems)).2
  have hn : Machine.Numbered { m with heap := (m.heap.newArray items.toArray).2 } B held :=
    h.withHeap (by rfl) hheap
  exact hn.cons fun f (hf : (Value.array m.heap.arrays.next).Involves f) => nomatch hf

theorem newObject (h : m.Numbered B held) {o : OrderedMap Value}
    (ho : ∀ e ∈ o.entries, e.2 ∈ held) :
    Machine.Numbered { m with heap := (m.heap.newObject o).2 } B
      ((m.heap.newObject o).1 :: held) := by
  have hheap := (h.machines.heap.newObject (.refl fun _ he => h.relates (ho _ he))).2
  have hn : Machine.Numbered { m with heap := (m.heap.newObject o).2 } B held :=
    h.withHeap (by rfl) hheap
  exact hn.cons fun f (hf : (Value.object m.heap.objects.next).Involves f) => nomatch hf

/-! ### Evaluations -/

/-- An evaluation that is a twin of itself gives a value with code that the machine has numbered,
and gives no number out. -/
theorem run (h : m.Numbered B held) {act : Eval Value}
    (hact : (m.census B).Twins 0 act act (m.census B).Relates) {r : Except Stop Value}
    (hrun : act m = Eval.ending r m') :
    m'.Numbered B (r.toOption.toList ++ held) ∧ m'.env.numbered = m.env.numbered := by
  have hends := hact m m h.machines (Nat.zero_le _)
  have hheld (v : Value) (hv : v ∈ held) (f : Function) (hf : v.Involves f) : m.Knows B f :=
    h.held hv hf
  rcases hends.same with ⟨v, n, hok, hn, hv⟩ | ⟨e, n, herror, hn⟩
  · obtain ⟨rfl, rfl⟩ := Eval.ending_inj (r := .ok v) (hok.symm.trans hrun)
    have hnumbered : n.env.numbered = m.env.numbered := hn.env.numbered
    refine ⟨(of_machines hn hheld).cons fun f hf => ?_, hnumbered⟩
    have hknows := known hv hf
    exact ⟨hnumbered ▸ hknows.program, hknows.receiver⟩
  · obtain ⟨rfl, rfl⟩ := Eval.ending_inj (r := .error e) (herror.symm.trans hrun)
    exact ⟨of_machines hn hheld, hn.env.numbered⟩

theorem call (h : m.Numbered B held) {fuel : Nat} {p : Position} {callee : Value}
    {args : List Value} (hcallee : callee ∈ held) (hargs : args ⊆ held) {r : Except Stop Value}
    (hcall : Session.call fuel m callee args p = Eval.ending r m') :
    m'.Numbered B (r.toOption.toList ++ held) := by
  obtain ⟨r', n, hrun⟩ := Eval.exists_ending (callValue fuel callee args) m
  have hlocated := Eval.located_of_ending p hrun
  obtain ⟨rfl, rfl⟩ := Eval.ending_inj (hlocated.symm.trans hcall)
  have hr : (locatedResult p r').toOption = r'.toOption := by
    cases r' with
    | ok v => rfl
    | error e => cases e <;> rfl
  rw [hr]
  exact (h.run ((m.census B).callValue fuel 0 _ _ _ _ (h.relates hcallee) (h.related hargs)) hrun).1

/-- Statements of a program with a number that was given out are twins of themselves. -/
theorem twins {fuel a : Nat} (ha : a < m.env.numbered) (ss : List Stmt) :
    (m.census B).Twins 0 (evalStmts (.of fuel a) .undefined ss) (evalStmts (.of fuel a) .undefined ss)
      (m.census B).Relates := by
  have hcode : (m.census B).Has a (stmtsNodes ss) := fun _ _ => ha
  have htwins := (m.census B).program fuel (n := 0) hcode .undefined
  have hstays : move ((m.census B).place a) ss = ss := stmts_move_id ss
  rwa [hstays] at htwins

theorem statements (h : m.Numbered B held) {fuel a : Nat} (ha : a < m.env.numbered)
    {ss : List Stmt} {r : Except Stop Value}
    (hrun : evalStmts (.of fuel a) .undefined ss m = Eval.ending r m') :
    m'.Numbered B (r.toOption.toList ++ held) ∧ m'.env.numbered = m.env.numbered :=
  h.run (twins ha ss) hrun

/-- The statements of a program are evaluated with a new number. -/
theorem program (h : m.Numbered B held) {fuel : Nat} {p : Program} {r : Except Stop Value}
    (hrun : runProgram fuel p m = Eval.ending r m') :
    m'.Numbered B (r.toOption.toList ++ held) ∧ m'.env.numbered = m.env.numbered + 1 := by
  have hstarted : m.started.Numbered B held :=
    h.mono rfl rfl (Nat.le_succ _) (List.Subset.refl _)
  have hnumber : m.env.numbered < m.started.env.numbered := Nat.lt_succ_self _
  rw [runProgram_eq] at hrun
  exact hstarted.run (twins hnumber p.statements).settlingProgram hrun

theorem executeSource (h : m.Numbered B held) (fuel : Nat) (source : String) :
    (m.executeSource fuel source).2.Numbered B
      ((m.executeSource fuel source).1.value?.toList ++ held) := by
  have logged {n : Machine} {held' : List Value} (hn : n.Numbered B held') (events : List Event) :
      (n.log events).Numbered B held' := hn.mono rfl rfl (Nat.le_refl _) (List.Subset.refl _)
  obtain ⟨events, hafter, hnone⟩ | ⟨p, r, n, after, hp, hrun, hafter, hvalue⟩ :=
    m.executeSource_cases fuel source
  · rw [hafter]
    have hno : (m.executeSource fuel source).1.value? = none :=
      Option.eq_none_iff_forall_ne_some.mpr fun v hv => hnone v (Outcome.value?_eq hv)
    rw [hno]
    exact logged h events
  · rw [hafter]
    have hn := ((logged h (startEvents source p)).program hrun).1
    refine (logged hn after).mono rfl rfl (Nat.le_refl _) fun v hv => ?_
    rcases List.mem_append.mp hv with hv | hv
    · rw [hvalue v (Outcome.value?_eq (Option.mem_toList.mp hv))]
      exact List.mem_append_left _ (by simp [Except.toOption])
    · exact List.mem_append_right _ hv

theorem execute (h : m.Numbered B held) (fuel : Nat) (source : String) :
    (Session.execute fuel m source).2.Numbered B
      ((Session.execute fuel m source).1.value?.toList ++ held) := by
  have hready : Machine.Numbered { m with interrupted := false } B held :=
    h.mono rfl rfl (Nat.le_refl _) (List.Subset.refl _)
  exact hready.executeSource fuel source

theorem reset (h : m.Numbered B held) : (Session.reset m).Numbered B held := h.clear.loadPrelude

theorem executeApart (h : m.Numbered B held) (fuel : Nat) (source : String) :
    (Session.executeApart fuel m source).2.Numbered B
      ((Session.executeApart fuel m source).1.value?.toList ++ held) := by
  have hclear : Machine.Numbered
      { m with
        env := m.env.clear.setLimit defaultCallLimit, host := .inMemory .empty
        interrupted := false, settings := {} } B held :=
    h.clear.mono rfl rfl (Nat.le_refl _) (List.Subset.refl _)
  have hafter := hclear.loadPrelude.executeSource fuel source
  -- how the text is executed does not matter any more
  unfold Session.executeApart
  dsimp only at hafter ⊢
  generalize Machine.executeSource .. = run at hafter ⊢
  exact hafter.mono rfl rfl (Nat.le_refl _) (List.Subset.refl _)

end Machine.Numbered

/-! ## Sessions -/

/-- A session that a program around it has used, with values that this program holds. It has bound
methods to values with `B`. -/
inductive Session.UsedWith (B : Value → Prop) : Session → List Value → Prop
  | new (host : Host) (settings : Settings) : UsedWith B (Machine.new host settings) []
  | execute {s : Session} {held : List Value} (fuel : Nat) (source : String) : UsedWith B s held →
    UsedWith B (s.execute fuel source).2 ((s.execute fuel source).1.value?.toList ++ held)
  /-- A value is made by a text in an environment of its own. -/
  | executeApart {s : Session} {held : List Value} (fuel : Nat) (source : String) :
    UsedWith B s held →
    UsedWith B (s.executeApart fuel source).2 ((s.executeApart fuel source).1.value?.toList ++ held)
  | call {s s' : Session} {held : List Value} (fuel : Nat) (p : Position) {callee : Value}
    {args : List Value} {r : Except Stop Value} : UsedWith B s held → callee ∈ held →
    args ⊆ held → s.call fuel callee args p = Eval.ending r s' →
    UsedWith B s' (r.toOption.toList ++ held)
  /-- A value is read out of the session, be it bound to a name or in a cell. -/
  | get {s : Session} {held : List Value} {v : Value} : UsedWith B s held → Machine.Stores s v →
    UsedWith B s (v :: held)
  /-- The value that a function is bound to is read. -/
  | receiver {s : Session} {held : List Value} {f : Function} {v : Value} : UsedWith B s held →
    .function f ∈ held → f.receiver = some v → UsedWith B s (v :: held)
  /-- A method of a class is bound to a value. -/
  | method {s : Session} {held : List Value} {r : Ref .klass} {x : String} {v : Value}
    {f : Function} (mark : Nat) : UsedWith B s held → v ∈ held → B v →
    (s.heap.klass r).method? x v = some f →
    UsedWith B s (.function { f with mark := mark } :: held)
  /-- A value that is no cell and no function is made by the program. -/
  | plain {s : Session} {held : List Value} {v : Value} : UsedWith B s held → v.Plain →
    UsedWith B s (v :: held)
  | array {s : Session} {held items : List Value} : UsedWith B s held → items ⊆ held →
    UsedWith B { s with heap := (s.heap.newArray items.toArray).2 }
      ((s.heap.newArray items.toArray).1 :: held)
  | object {s : Session} {held : List Value} {o : OrderedMap Value} : UsedWith B s held →
    (∀ e ∈ o.entries, e.2 ∈ held) →
    UsedWith B { s with heap := (s.heap.newObject o).2 } ((s.heap.newObject o).1 :: held)
  | write {s : Session} {held : List Value} (place : Place) {v : Value} : UsedWith B s held →
    v ∈ held → UsedWith B { s with heap := s.heap.write place v } held
  | define {s : Session} {held : List Value} (x : String) (mode : Mode) {v : Value} :
    UsedWith B s held → v ∈ held → UsedWith B { s with env := s.env.define x v mode } held
  | install {s : Session} {held : List Value} (p : Primitive) : UsedWith B s held →
    UsedWith B { s with env := s.env.install p } held
  | reset {s : Session} {held : List Value} : UsedWith B s held → UsedWith B s.reset held
  /-- What the program around the session lends it may change at any time: the host, the settings
  and the log; and the session may be asked to stop. -/
  | lend {s : Session} {held : List Value} (host : Host) (settings : Settings) (interrupted : Bool)
    (events : Array Event) : UsedWith B s held →
    UsedWith B { s with
      host := host, settings := settings, interrupted := interrupted, events := events } held

/-- A session that a program around it has used in any of these ways, with values that this program
holds. -/
def Session.Used : Session → List Value → Prop := UsedWith fun _ => True

section

variable {B : Value → Prop}

/-- Without cells there is no code. -/
theorem Machine.numbered_of_empty {m : Machine} (hheap : m.heap = .empty)
    (hscopes : m.env.scopes = .empty) : m.Numbered B [] := by
  have hstores (v : Value) : ¬ m.Stores v := by
    intro hv
    induction hv with
    | item hr _ | entry hr _ | field hr _ =>
      rw [hheap] at hr
      cases hr
    | bound hr _ =>
      rw [hscopes] at hr
      cases hr
    | receiver _ _ ih => exact ih
  refine ⟨fun {a r} h => ?_, fun hf => absurd hf (hstores _), nofun⟩
  induction h with
  | function hf => exact absurd hf (hstores _)
  | method hc _ =>
    rw [hheap] at hc
    cases hc
  | inside _ _ _ ih => exact ih

theorem Machine.Numbered.new (host : Host) (settings : Settings) :
    (Machine.new host settings).Numbered B [] := by
  have hempty : Machine.Numbered
      { Machine.new host settings with
        env := { Environment.new defaultCallLimit with scopes := .empty } } B [] :=
    Machine.numbered_of_empty rfl rfl
  exact hempty.clear.loadPrelude

/-- The numbers of all code in a session that was used were given out by the session. -/
theorem Session.UsedWith.numbered {s : Session} {held : List Value} (h : s.UsedWith B held) :
    Machine.Numbered s B held := by
  induction h with
  | new host settings => exact .new host settings
  | execute fuel source _ ih => exact ih.execute fuel source
  | executeApart fuel source _ ih => exact ih.executeApart fuel source
  | call fuel p _ hcallee hargs hcall ih => exact ih.call hcallee hargs hcall
  | get _ hv ih => exact ih.stored hv
  | receiver _ hf hv ih => exact ih.receiver hf hv
  | method mark _ hv hB hf ih => exact ih.method hv (.inl hB) hf mark
  | plain _ hv ih =>
    refine ih.cons fun f hf => ?_
    cases hf <;> exact hv.elim
  | array _ hitems ih => exact ih.newArray hitems
  | object _ ho ih => exact ih.newObject ho
  | write place _ hv ih => exact ih.write hv place
  | define x mode _ hv ih => exact ih.defineIn hv _ x mode
  | install p _ ih => exact ih.install p
  | reset _ ih => exact ih.reset
  | lend host settings interrupted events _ ih =>
    exact ih.mono rfl rfl (Nat.le_refl _) (List.Subset.refl _)

end

end Scriptlet
