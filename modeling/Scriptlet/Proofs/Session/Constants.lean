import Mathlib.Data.Set.Insert
import Mathlib.Logic.Relation
import Scriptlet.Proofs.Eval.Declarations
import Scriptlet.Proofs.Session.Scopes

/-!
# Global constants

A program around a session can do more with it than execute texts: it reads values out of
it, calls functions with them, defines names, and may come by values elsewhere. `Hosted` is
a session with the values that such a program holds, and `Hosted.Step` is what it can do.

A step binds the names that its text declares in the global scope, or that it defines
itself. A global constant stays until a step binds its name (`constants_kept`). This needs
that the scopes of all functions lie in the global scope of the session, which is so as
long as those of the values from elsewhere do; an assignment in a function from another
environment replaces a global constant (`constant_replaced`).
-/

namespace Scriptlet

/-! ## Programs and texts -/

/-- The execution of the text in the session declares the name in the current scope. -/
def Session.Declares (s : Session) (fuel : Nat) (source : String) : Set String :=
  {x | ∃ p, parseSource source = .ok p ∧ AnyDeclares (.of fuel s.env.numbered) x p.statements
    (({ s with interrupted := false }.log (startEvents source p)).started)}

theorem Eval.of_settling_ending {settle : Except Stop Value → Except Stop Value} {act : Eval Value}
    {r : Except Stop Value} {m m' : Machine} (h : Eval.settling settle act m = ending r m') :
    ∃ r', act m = ending r' m' := by
  obtain ⟨r', n, hr'⟩ := Eval.exists_ending act m
  obtain ⟨-, rfl⟩ := Eval.ending_inj ((Eval.settling_of_ending hr').symm.trans h)
  exact ⟨r', hr'⟩

namespace Region.Holds

variable {X : Region} {fuel : Nat} {m m' : Machine}

theorem spares_program (hm : X.Holds m) {p : Program} {r : Except Stop Value}
    (h : runProgram fuel p m = Eval.ending r m') {x : String}
    (hx : ¬ AnyDeclares (.of fuel m.env.numbered) x p.statements m.started) : m.Spares x m' := by
  rw [runProgram_eq] at h
  obtain ⟨r', h⟩ := Eval.of_settling_ending h
  have hstarted : X.Holds m.started := hm.congr rfl rfl rfl hm.env.current
  have hbefore : m.Changes [] m.started := .of_scopes (le_refl _) rfl rfl rfl
  exact (Machine.Spares.of_nil hbefore).trans (hstarted.spares_stmts _ h hx)

theorem spares_execute {s : Session} (hs : X.Holds s) {source x : String}
    (hx : x ∉ s.Declares fuel source) : Machine.Spares x s (s.execute fuel source).2 := by
  let ready : Machine := { s with interrupted := false }
  have hready : X.Holds ready := hs.congr rfl rfl rfl hs.env.current
  have logged (n : Machine) (events : List Event) : n.Spares x (n.log events) :=
    .of_nil (.of_scopes (le_refl _) rfl rfl rfl)
  have hbefore : Machine.Spares x s ready := .of_nil (.of_scopes (le_refl _) rfl rfl rfl)
  refine hbefore.trans ?_
  show ready.Spares x (ready.executeSource fuel source).2
  obtain ⟨events, hafter, -⟩ | ⟨p, r, n, after, hp, hrun, hafter, -⟩ :=
    ready.executeSource_cases fuel source
  · rw [hafter]
    exact logged ready events
  · rw [hafter]
    have hrun := (hready.log (startEvents source p)).spares_program hrun fun hd => hx ⟨p, hp, hd⟩
    exact ((logged ready _).trans hrun).trans (logged n after)

end Region.Holds

/-! ## What a host can do -/

/-- The machine is another one with more cells. -/
structure Machine.AddsTo (m m' : Machine) : Prop where
  globals : m'.env.globals = m.env.globals
  current : m'.env.current = m.env.current
  size : m.size ≤ m'.size
  scopes {r : Ref .scope} : r.index < m.size .scope → m'.env.scopes.get? r = m.env.scopes.get? r
  arrays {r : Ref .array} : r.index < m.size .array → m'.heap.arrays.get? r = m.heap.arrays.get? r
  objects {r : Ref .object} : r.index < m.size .object →
    m'.heap.objects.get? r = m.heap.objects.get? r
  instances {r : Ref .inst} : r.index < m.size .inst →
    m'.heap.instances.get? r = m.heap.instances.get? r
  classes {r : Ref .klass} : r.index < m.size .klass →
    m'.heap.classes.get? r = m.heap.classes.get? r

namespace Machine.AddsTo

variable {m m' : Machine} {held : List Value} {v : Value}

/-- What is reached with one more value was reached before, or is reached with that value alone. -/
theorem reached (h : m.AddsTo m') (hm : m.Rooted held) {s : CellSort} {c : Ref s}
    (hc : m'.Reaches (v :: held) c) : m'.Reaches [v] c ∨ m.Reaches held c := by
  induction hc with
  | globals => exact .inl .globals
  | current => exact .inl .current
  | held hu hc =>
    rcases List.mem_cons.mp hu with rfl | hu
    · exact .inl (.held (List.mem_singleton_self _) hc)
    · exact .inr (.held hu hc)
  | parent _ hp ih =>
    refine ih.imp (fun hr => .parent hr hp) fun hr => .parent hr ?_
    unfold Environment.parent? at hp ⊢
    rwa [h.scopes (hm.stored hr)] at hp
  | @bound _ x _ _ _ _ hb hc ih =>
    refine ih.imp (fun hr => .bound hr hb hc) fun hr => .bound hr (x := x) ?_ hc
    unfold Environment.bindings at hb ⊢
    rwa [h.scopes (hm.stored hr)] at hb
  | item _ hu hc ih =>
    refine ih.imp (fun hr => .item hr hu hc) fun hr => .item hr ?_ hc
    unfold Heap.items at hu ⊢
    rwa [h.arrays (hm.stored hr)] at hu
  | @entry _ x _ _ _ _ hu hc ih =>
    refine ih.imp (fun hr => .entry hr hu hc) fun hr => .entry hr (x := x) ?_ hc
    unfold Heap.entries at hu ⊢
    rwa [h.objects (hm.stored hr)] at hu
  | @field _ x _ _ _ _ hu hc ih =>
    refine ih.imp (fun hr => .field hr hu hc) fun hr => .field hr (x := x) ?_ hc
    unfold Heap.inst at hu ⊢
    rwa [h.instances (hm.stored hr)] at hu
  | ownClass _ hi ih =>
    refine ih.imp (fun hr => .ownClass hr hi) fun hr => .ownClass hr ?_
    rwa [h.instances (hm.stored hr)] at hi
  | declared _ hc ih =>
    refine ih.imp (fun hr => .declared hr hc) fun hr => .declared hr ?_
    rwa [h.classes (hm.stored hr)] at hc

/-- A rooted machine that comes by a value stays rooted if this is so with the value alone. -/
theorem rooted (h : m.AddsTo m') (hm : m.Rooted held) (hv : m'.Rooted [v]) :
    m'.Rooted (v :: held) where
  stored hc := (h.reached hm hc).elim (fun hc => hv.stored hc) fun hc =>
    Nat.lt_of_lt_of_le (hm.stored hc) (h.size _)
  leads hc := (h.reached hm hc).elim (fun hc => hv.leads hc) fun hc => by
    rw [h.globals]
    refine (hm.leads hc).of_parents fun r p hp => ?_
    obtain ⟨scope, hscope, -⟩ := Option.bind_eq_some_iff.mp hp
    unfold Environment.parent? at hp ⊢
    rwa [h.scopes (Array.getElem?_eq_some_iff.mp hscope).1]
  top := hv.top

theorem constant (h : m.AddsTo m') (hm : m.Rooted held) {x : String}
    (hconst : m.env.HasConstant x v) : m'.env.HasConstant x v := by
  unfold Environment.HasConstant Environment.bindings at hconst ⊢
  rwa [h.globals, h.scopes (hm.stored .globals)]

end Machine.AddsTo

/-- A session, and the values that the program around it holds. -/
structure Hosted where
  session : Session
  held : List Value

/-- The value of an outcome. -/
def Outcome.value? : Outcome → Option Value
  | .value v => some v
  | _ => none

/-- What a program around a session can do with it, and which global names it binds in doing so. -/
inductive Hosted.Step : Set String → Hosted → Hosted → Prop
  | execute {s : Session} {held : List Value} (fuel : Nat) (source : String) :
    Step (s.Declares fuel source) ⟨s, held⟩
      ⟨(s.execute fuel source).2, (s.execute fuel source).1.value?.toList ++ held⟩
  | call {s s' : Session} {held : List Value} (fuel : Nat) (p : Position) {callee : Value}
    {args : List Value} {r : Except Stop Value} : callee ∈ held → args ⊆ held →
    s.call fuel callee args p = Eval.ending r s' → Step ∅ ⟨s, held⟩ ⟨s', r.toOption.toList ++ held⟩
  | get {s : Session} {held : List Value} {x : String} {v : Value} : s.env.lookup? x = some v →
    Step ∅ ⟨s, held⟩ ⟨s, v :: held⟩
  /-- The program comes by a value, with cells of its own. All scopes of its functions lie in the
  global scope of the session. -/
  | supply {s s' : Session} {held : List Value} {v : Value} : Machine.AddsTo s s' →
    Machine.Rooted s' [v] → Step ∅ ⟨s, held⟩ ⟨s', v :: held⟩
  | define {s : Session} {held : List Value} (x : String) {v : Value} (mode : Mode) : v ∈ held →
    Step {x} ⟨s, held⟩ ⟨{ s with env := s.env.define x v mode }, held⟩
  | install {s : Session} {held : List Value} (p : Primitive) :
    Step {p.name} ⟨s, held⟩ ⟨{ s with env := s.env.install p }, held⟩
  | interrupt {s : Session} {held : List Value} : Step ∅ ⟨s, held⟩ ⟨s.interrupt, held⟩
  /-- Cells that nothing reaches may be freed, which is not seen. -/
  | collect (h : Hosted) : Step ∅ h h
  /-- The functions that the program holds are then from another environment. -/
  | reset {s : Session} {held : List Value} : Step Set.univ ⟨s, held⟩ ⟨s.reset, []⟩

/-- A session as a program around it may have left it. -/
def Hosted.Reachable (h : Hosted) : Prop :=
  ∃ (host : Host) (settings : Settings),
    Relation.ReflTransGen (fun h h' => ∃ names, Step names h h') ⟨.new host settings, []⟩ h

/-- What a program around a session can do without binding the global name. -/
def Hosted.Leaves (x : String) : Hosted → Hosted → Prop :=
  Relation.ReflTransGen fun h h' => ∃ names, Step names h h' ∧ x ∉ names

/-- The session is rooted, and stands at its global scope. -/
structure Hosted.Sound (h : Hosted) : Prop where
  rooted : Machine.Rooted h.session h.held
  place : h.session.env.current = h.session.env.globals

/-- A machine is rooted with the values that the host holds and with one that it may have got. -/
theorem Region.Holds.rooted_got {X : Region} {n : Machine} (hn : X.Holds n) {held : List Value}
    (hheld : ∀ v ∈ held, X.Admits n.size v) {got : Option Value}
    (hgot : ∀ v, got = some v → X.Admits n.size v) : n.Rooted (got.toList ++ held) := by
  refine hn.rooted fun v hv => ?_
  rcases List.mem_append.mp hv with hv | hv
  · exact hgot v (Option.mem_toList.mp hv)
  · exact hheld v hv

/-- Binding another name. -/
theorem Environment.HasConstant.defineIn {e : Environment} {x : String} {v : Value}
    (h : e.HasConstant x v) {r : Ref .scope} (hr : r.index < e.scopes.size) {y : String}
    (hy : y ≠ x) (u : Value) (mode : Mode) : (e.defineIn r y u mode).HasConstant x v := by
  show ((e.defineIn r y u mode).bindings e.globals).get? x = _
  rw [e.bindings_defineIn hr]
  split
  · rename_i hglobal
    rw [OrderedMap.get?_insert, if_neg hy.symm, ← hglobal]
    exact h
  · exact h

theorem Outcome.value?_eq {o : Outcome} {v : Value} (h : o.value? = some v) : o = .value v := by
  cases o <;> cases h
  rfl

namespace Hosted.Step

variable {s s' : Session} {held : List Value}

/-- A step of the session that changes no scopes but where that is allowed, after which the session
is rooted, is sound. -/
theorem sound_of_changes (hs : (Hosted.mk s held).Sound) {names : List String} {n : Session}
    {held' : List Value} (hn : Machine.Rooted n held') (hchange : Machine.Changes names s n) :
    (Hosted.mk n held').Sound :=
  ⟨hn, hchange.current.trans (hs.place.trans hchange.globals.symm)⟩

theorem execute_keeps (hs : (Hosted.mk s held).Sound) (fuel : Nat) (source : String) :
    (Hosted.mk (s.execute fuel source).2
      ((s.execute fuel source).1.value?.toList ++ held)).Sound := by
  have hready : (Machine.region s held).Holds { s with interrupted := false } :=
    hs.rooted.holds.congr rfl rfl rfl hs.rooted.holds.env.current
  obtain ⟨hn, ⟨names, hchange⟩, hvalue⟩ := hready.executeSource fuel source
  have hstart : Machine.Changes names s { s with interrupted := false } :=
    .of_scopes (le_refl _) rfl rfl rfl
  refine sound_of_changes hs (hn.rooted_got ?_ ?_) (hstart.trans hchange)
  · exact fun v hv => (hs.rooted.admits v hv).mono hchange.size
  · exact fun v hv => hvalue v (Outcome.value?_eq hv)

theorem call_ended (hs : (Hosted.mk s held).Sound) {fuel : Nat} {p : Position} {callee : Value}
    (hcallee : callee ∈ held) {args : List Value} (hargs : args ⊆ held) {r : Except Stop Value}
    (hcall : s.call fuel callee args p = Eval.ending r s') :
    (Machine.region s held).Holds s' ∧ Machine.Changes [] s s' ∧
      Yields (fun _ => True) ((Machine.region s held).Admits s'.size) r := by
  have hframes : (Machine.region s held).Frames (Machine.size s) [] (fun _ _ => True)
      (callValue fuel callee args) (Machine.region s held).Admits :=
    (Machine.region s held).frames_call fuel (hs.rooted.admits _ hcallee) fun a ha =>
      hs.rooted.admits a (hargs ha)
  exact (hframes.located p).ended hs.rooted.holds hcall

/-- A step keeps the session sound. -/
theorem sound {names : Set String} {h h' : Hosted} (hstep : Step names h h') (hs : h.Sound) :
    h'.Sound := by
  have hrooted := hs.rooted
  have hholds := hrooted.holds
  cases hstep with
  | execute fuel source => exact execute_keeps hs fuel source
  | call fuel p hcallee hargs hcall =>
    obtain ⟨hn, hchange, hyields⟩ := call_ended hs hcallee hargs hcall
    refine sound_of_changes hs (hn.rooted_got ?_ fun v hv => ?_) hchange
    · exact fun v hv => (hrooted.admits v hv).mono hchange.size
    · rename_i r
      cases r <;> cases hv
      exact hyields
  | @get s held x v hv =>
    refine ⟨hholds.rooted fun u hu => ?_, hs.place⟩
    rcases List.mem_cons.mp hu with rfl | hu
    · obtain ⟨⟨owner, b⟩, hb, rfl⟩ := Option.map_eq_some_iff.mp hv
      exact (hholds.env.findWithin hholds.env.current hb).2
    · exact hrooted.admits u hu
  | supply hadds hv =>
    exact ⟨hadds.rooted hrooted hv, hadds.current.trans (hs.place.trans hadds.globals.symm)⟩
  | @define s held x v mode hv =>
    have hn := hholds.defineIn s.env.current x (hrooted.admits v hv) mode
    refine ⟨hn.rooted fun u hu => ?_, hs.place⟩
    exact (hrooted.admits u hu).mono (Machine.size_defineIn s s.env.current x v mode).ge
  | @install s held p =>
    refine ⟨(hholds.install p).rooted fun u hu => (hrooted.admits u hu).mono ?_, hs.place⟩
    exact (Machine.size_defineIn { s with env := s.env.takeNumber.2 } s.env.globals p.name _
      .mutable).ge
  | @interrupt s held =>
    have hn : (Machine.region s held).Holds s.interrupt :=
      hholds.congr rfl rfl rfl hholds.env.current
    exact ⟨hn.rooted hrooted.admits, hs.place⟩
  | collect => exact hs
  | reset => exact ⟨.reset _, rfl⟩

/-- A step keeps the global constants whose names it does not bind. -/
theorem constant {names : Set String} {h h' : Hosted} (hstep : Step names h h') (hs : h.Sound)
    {x : String} (hx : x ∉ names) {v : Value} (hconst : h.session.env.HasConstant x v) :
    h'.session.env.HasConstant x v := by
  have hholds := hs.rooted.holds
  have hstored : h.session.env.globals.index < Machine.size h.session .scope :=
    hs.rooted.stored .globals
  cases hstep with
  | execute fuel source => exact (hholds.spares_execute hx).constant hstored hconst
  | call fuel p hcallee hargs hcall =>
    obtain ⟨-, hchange, -⟩ := call_ended hs hcallee hargs hcall
    exact hchange.constant hstored (fun _ => List.not_mem_nil) hconst
  | get => exact hconst
  | supply hadds => exact hadds.constant hs.rooted hconst
  | @define s held y u mode =>
    exact hconst.defineIn (hs.rooted.stored .current) (fun heq => hx heq.symm) u mode
  | @install s held p =>
    have hconst : { s.env with numbered := s.env.numbered + 1 }.HasConstant x v := hconst
    exact hconst.defineIn hstored (fun heq => hx heq.symm) _ .mutable
  | interrupt => exact hconst
  | collect => exact hconst
  | reset => exact absurd (Set.mem_univ x) hx

end Hosted.Step

/-- A session that a program around it has left is rooted. -/
theorem Hosted.Reachable.sound {h : Hosted} (hreach : h.Reachable) : h.Sound := by
  obtain ⟨host, settings, hsteps⟩ := hreach
  induction hsteps with
  | refl => exact ⟨.new host settings, rfl⟩
  | tail _ hstep ih =>
    obtain ⟨names, hstep⟩ := hstep
    exact hstep.sound ih

theorem Hosted.Leaves.constant {x : String} {h h' : Hosted} (hsteps : Hosted.Leaves x h h')
    (hs : h.Sound) {v : Value} (hconst : h.session.env.HasConstant x v) :
    h'.Sound ∧ h'.session.env.HasConstant x v := by
  induction hsteps with
  | refl => exact ⟨hs, hconst⟩
  | tail _ hstep ih =>
    obtain ⟨names, hstep, hx⟩ := hstep
    exact ⟨hstep.sound ih.1, hstep.constant ih.1 hx ih.2⟩

/-! ## Assignments -/

/-- An assignment to the name of a global constant fails, or replaces what the name stands for in
another scope. -/
theorem Region.Holds.assign_elsewhere {X : Region} {m m' : Machine} (hm : X.Holds m) {x : String}
    {u v : Value} (hconst : m.env.HasConstant x v) (h : Eval.assign x u m = .ok () m') :
    ∃ owner, owner ≠ m.env.globals ∧ m' = { m with env := m.env.defineIn owner x u .mutable } := by
  obtain ⟨owner, old, hfound, rfl⟩ | ⟨hnone, -⟩ := Eval.assign_ok h
  · refine ⟨owner, ?_, rfl⟩
    rintro rfl
    have hbound := Environment.get?_of_findWithin hfound
    rw [hconst] at hbound
    cases hbound
  · obtain ⟨hunbound, -⟩ :=
      hm.current_leads.find?_defineIn hm.globals_stored hm.env.current.2 hnone u .mutable
    rw [hconst] at hunbound
    cases hunbound

/-- A global constant stays, whatever functions are called, until its name is bound in the global
scope. On a rooted machine with the constant, a statement keeps it unless it declares the name in
the global scope itself; and an assignment to its name fails, or replaces what the name stands for
in another scope. -/
theorem constants_kept (x : String) (v : Value) :
    (∀ h : Hosted, h.Reachable → h.Sound ∧ (h.session.env.HasConstant x v →
      ∀ h' : Hosted, Hosted.Leaves x h h' → h'.session.env.HasConstant x v)) ∧
    ∀ (m : Machine) (held : List Value), m.Rooted held → m.env.HasConstant x v →
      (∀ (fuel n : Nat) (s : Stmt) (r : Except Stop Value) (m' : Machine),
        evalStmt (.of fuel n) s m = Eval.ending r m' →
        (m.env.current = m.env.globals → ¬ Declares (.of fuel n) x s m) →
        m'.env.HasConstant x v) ∧
      (∀ (fuel n : Nat) (p : Position) (e : Expr) (r : Except Stop Value) (m' : Machine),
        evalExpr (.of fuel n) (.assign p (.name x) e) m = Eval.ending r m' →
        m'.env.HasConstant x v ∧ ∀ u, r = .ok u → ∃ owner m₁, owner ≠ m.env.globals ∧
          evalExpr (.of fuel n) e m = .ok u m₁ ∧
          m' = { m₁ with env := m₁.env.defineIn owner x u .mutable }) := by
  refine ⟨fun h hreach => ⟨hreach.sound, fun hconst h' hsteps => ?_⟩,
    fun m held hm hconst => ⟨fun fuel n s r m' h hs => ?_, fun fuel n p e r m' h => ⟨?_, ?_⟩⟩⟩
  · exact (hsteps.constant hreach.sound hconst).2
  · by_cases hplace : m.env.current = m.env.globals
    · exact (hm.holds.spares_stmt s h (hs hplace)).constant hm.holds.globals_stored hconst
    · obtain ⟨-, hchange, -⟩ := ((m.region held).frames_stmt fuel n s).ended hm.holds h
      exact hchange.constant hm.holds.globals_stored (fun heq => absurd heq.symm hplace) hconst
  · obtain ⟨-, hchange, -⟩ := hm.holds.expr_ended h
    exact hchange.constant hm.holds.globals_stored (fun _ => List.not_mem_nil) hconst
  · rintro u rfl
    obtain ⟨m₁, hvalue, hassign⟩ := Eval.assigned h
    obtain ⟨hm₁, hchange, -⟩ := hm.holds.expr_ended (r := .ok u) hvalue
    have hconst₁ := hchange.constant hm.holds.globals_stored (fun _ => List.not_mem_nil) hconst
    obtain ⟨owner, howner, hm'⟩ := hm₁.assign_elsewhere hconst₁ hassign
    exact ⟨owner, m₁, hchange.globals ▸ howner, hvalue, hm'⟩

/-- The name is bound to the integer in the global scope, in the given way. -/
def bindsInteger (e : Environment) (x : String) (n : Int64) (mode : Mode) : Bool :=
  match (e.bindings e.globals).get? x with
  | some ⟨.integer i, m⟩ => i == n && m == mode
  | _ => false

theorem eq_of_bindsInteger {e : Environment} {x : String} {n : Int64} {mode : Mode}
    (h : bindsInteger e x n mode = true) :
    (e.bindings e.globals).get? x = some ⟨.integer n, mode⟩ := by
  unfold bindsInteger at h
  split at h
  · rename_i i m heq
    obtain ⟨hi, hm⟩ := Bool.and_eq_true_iff.mp h
    rw [heq, eq_of_beq hi, eq_of_beq hm]
  · contradiction

/-- A session with a constant, and a function that assigns to it. -/
def constantSample : Session :=
  (Session.execute 9 (Machine.new .withoutStorage {}) "const k = 1; function f() { k = 2; }").2

/-- Calling the function leaves the constant as it is, and so does an assignment. -/
theorem constants_kept_sample :
    (∃ f, constantSample.env.lookup? "f" = some f ∧
      ∀ r s', Session.call 5 constantSample f [] ⟨9, 4⟩ = Eval.ending r s' →
        s'.env.HasConstant "k" (.integer 1)) ∧
    ∀ r m', evalExpr (.of 5 9) (.assign .start (.name "k") (.integer .start 2)) constantSample =
      Eval.ending r m' → m'.env.HasConstant "k" (.integer 1) := by
  obtain ⟨hsteps, hmachines⟩ := constants_kept "k" (.integer 1)
  have hfound : (constantSample.env.lookup? "f").isSome = true := by decide +kernel
  obtain ⟨f, hf⟩ := Option.isSome_iff_exists.mp hfound
  have hbinds : bindsInteger constantSample.env "k" 1 .constant = true := by decide +kernel
  have hconst : constantSample.env.HasConstant "k" (.integer 1) := eq_of_bindsInteger hbinds
  obtain ⟨held, hreach⟩ : ∃ held, (Hosted.mk constantSample held).Reachable :=
    ⟨_, .withoutStorage, {}, .single ⟨_, .execute 9 "const k = 1; function f() { k = 2; }"⟩⟩
  obtain ⟨⟨hrooted, -⟩, hkept⟩ := hsteps ⟨constantSample, held⟩ hreach
  refine ⟨⟨f, hf, fun r s' hcall => ?_⟩, fun r m' h => ?_⟩
  · have hget : Hosted.Step ∅ ⟨constantSample, held⟩ ⟨constantSample, f :: held⟩ := .get hf
    have hcalled : Hosted.Step ∅ ⟨constantSample, f :: held⟩ ⟨s', r.toOption.toList ++ f :: held⟩ :=
      .call 5 ⟨9, 4⟩ List.mem_cons_self (List.nil_subset _) hcall
    exact hkept hconst _ (.tail (.single ⟨∅, hget, id⟩) ⟨∅, hcalled, id⟩)
  · dsimp only at hrooted
    obtain ⟨-, hassign⟩ := hmachines constantSample held hrooted hconst
    exact (hassign 5 9 .start (.integer .start 2) r m' h).1

/-- The session with a constant, after the host has defined a function from another environment. -/
def suppliedSample : Session :=
  let s := (Session.execute 9 (Machine.new .withoutStorage {}) "const k = 1;").2
  match s.executeApart 9 "() => { k = 2; };" with
  | (.value f, s) => { s with env := s.env.define "f" f .mutable }
  | (_, s) => s

/-- A function from another environment that assigns to a name which is bound nowhere outward
replaces the global constant of that name. -/
theorem constant_replaced : suppliedSample.env.HasConstant "k" (.integer 1) ∧
    ∃ after, (suppliedSample.execute 9 "f();").2 = after ∧
      (after.env.bindings after.env.globals).get? "k" = some ⟨.integer 2, .mutable⟩ := by
  have hbefore : bindsInteger suppliedSample.env "k" 1 .constant = true := by decide +kernel
  have hafter : bindsInteger (suppliedSample.execute 9 "f();").2.env "k" 2 .mutable = true := by
    decide +kernel
  exact ⟨eq_of_bindsInteger hbefore, _, rfl, eq_of_bindsInteger hafter⟩

end Scriptlet
