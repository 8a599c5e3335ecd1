import Scriptlet.Proofs.Eval.Frames
import Scriptlet.Proofs.Syntax.Programs
import Scriptlet.Session

/-!
# The scopes of a session

A session that runs source texts stays rooted, whatever the texts do and however they end
(`Session.RunsSource.rooted`): every scope that it reaches lies in its global scope. And on
a rooted machine, no evaluation declares names in a scope other than the current one, except
that an assignment may add a global name (`scopes_framed`).
-/

namespace Scriptlet

/-- The names of the scope that were bound before are bound with the same modes, and the constants
have the same values. -/
def Environment.KeepsModes (e e' : Environment) (r : Ref .scope) : Prop :=
  ∀ x b, (e.bindings r).get? x = some b →
    ∃ b', (e'.bindings r).get? x = some b' ∧ b'.mode = b.mode ∧ (b.mode = .constant → b' = b)

/-- The scope lies where it lay, binds the same names in the same order with the same modes, and the
constants have the same values. -/
structure Environment.Keeps (e e' : Environment) (r : Ref .scope) : Prop where
  parent : e'.parent? r = e.parent? r
  names : e'.names r = e.names r
  modes : e.KeepsModes e' r

/-- The scope has kept its names, their modes and the values of its constants; new names stand
behind the others and are bound as mutable. -/
structure Environment.Extends (e e' : Environment) (r : Ref .scope) : Prop where
  names : ∃ new, e'.names r = e.names r ++ new ∧
    ∀ x ∈ new, ∃ b, (e'.bindings r).get? x = some b ∧ b.mode = .mutable
  modes : e.KeepsModes e' r

namespace Machine.Changes

variable {names : List String} {m n : Machine}

/-- What may have happened to a scope where nothing may be declared. -/
theorem kept (h : m.Changes names n) {r : Ref .scope} (hr : r.index < m.size .scope)
    (hnames : r = m.env.current → names = []) :
    Kept [] (r = m.env.globals) (m.env.bindings r) (n.env.bindings r) := by
  have hkept := h.bindings hr
  split at hkept
  · rw [hnames ‹_›] at hkept
    exact hkept
  · exact hkept

theorem keeps (h : m.Changes names n) {r : Ref .scope} (hr : r.index < m.size .scope)
    (hnames : r = m.env.current → names = []) (hglobal : r ≠ m.env.globals) :
    m.env.Keeps n.env r := by
  have hkept := h.kept hr hnames
  rw [eq_false hglobal] at hkept
  exact ⟨h.parent hr, hkept.keys_eq, fun x b hb => hkept.binding hb List.not_mem_nil⟩

theorem extends_globals (h : m.Changes names n) (hr : m.env.globals.index < m.size .scope)
    (hnames : m.env.globals = m.env.current → names = []) :
    m.env.Extends n.env m.env.globals := by
  have hkept := h.kept hr hnames
  obtain ⟨new, hnew, hmutable⟩ := hkept.exists_keys
  exact ⟨⟨new, hnew, fun x hx => (hmutable x hx).2⟩,
    fun x b hb => hkept.binding hb List.not_mem_nil⟩

end Machine.Changes

/-! ## Sessions -/

/-- What is logged before a text that is a program is run. -/
def startEvents (source : String) (p : Program) : List Event :=
  [.scanned (scan source).length, .programRead p.statements.length, .parsed p.statements.length]

theorem Machine.execute_eq {fuel : Nat} {p : Program} {m n : Machine} {r : Except Stop Value}
    (h : runProgram fuel p m = Eval.ending r n) : ∃ after,
    (m.execute fuel p).2 = n.log after ∧ ∀ v, (m.execute fuel p).1 = .value v → r = .ok v := by
  have hrun : (runProgram fuel p).run m = Eval.ending r n := h
  unfold Machine.execute
  rw [hrun]
  match r with
  | .ok v =>
    refine ⟨[], rfl, fun u hu => ?_⟩
    cases hu
    rfl
  | .error (.failure f) => exact ⟨[.evaluationFailed f.message], rfl, nofun⟩
  | .error (.signal s) => exact ⟨[], rfl, nofun⟩
  | .error (.unfinished why) => exact ⟨[], rfl, nofun⟩

theorem Machine.log_log (m : Machine) (es fs : List Event) :
    (m.log es).log fs = m.log (es ++ fs) := by
  simp only [Machine.log, List.foldl_append]

/-- A source text that is a program is run, after some events have been logged. -/
theorem Machine.executeSource_eq (m : Machine) (fuel : Nat) {source : String} {p : Program}
    (h : parseSource source = .ok p) :
    m.executeSource fuel source = (m.log (startEvents source p)).execute fuel p := by
  have hresult : (Reading.ofTokens (scan source)).result = .ok p := h
  have hmistakes : (Reading.ofTokens (scan source)).mistakes = [] :=
    (Reading.result_eq_ok_iff.mp hresult).2.1
  unfold Machine.executeSource
  dsimp only
  rw [hresult, hmistakes]
  rfl

/-- A source text is not a program, and then only events are logged, or it is run. -/
theorem Machine.executeSource_cases (fuel : Nat) (m : Machine) (source : String) :
    (∃ events, (m.executeSource fuel source).2 = m.log events ∧
      ∀ v, (m.executeSource fuel source).1 ≠ .value v) ∨
    ∃ p r n after, parseSource source = .ok p ∧
      runProgram fuel p (m.log (startEvents source p)) = Eval.ending r n ∧
      (m.executeSource fuel source).2 = n.log after ∧
      ∀ v, (m.executeSource fuel source).1 = .value v → r = .ok v := by
  cases hparse : parseSource source with
  | error errors =>
    have hresult : (Reading.ofTokens (scan source)).result = .error errors := hparse
    unfold Machine.executeSource
    dsimp only
    rw [hresult]
    exact .inl ⟨_, Machine.log_log _ _ _, nofun⟩
  | ok p =>
    rw [m.executeSource_eq fuel hparse]
    obtain ⟨r, n, hrun⟩ := Eval.exists_ending (runProgram fuel p) (m.log (startEvents source p))
    obtain ⟨after, hafter, hvalue⟩ := Machine.execute_eq hrun
    exact .inr ⟨p, r, n, after, rfl, hrun, hafter, hvalue⟩

namespace Region.Holds

variable {X : Region} {m : Machine}

theorem log (hm : X.Holds m) (events : List Event) : X.Holds (m.log events) :=
  hm.congr rfl rfl rfl hm.env.current

/-- The execution of a source text keeps a machine in the region, and its value refers to the
region. -/
theorem executeSource (hm : X.Holds m) (fuel : Nat) (source : String) :
    X.Holds (m.executeSource fuel source).2 ∧
      (∃ names, m.Changes names (m.executeSource fuel source).2) ∧
      ∀ v, (m.executeSource fuel source).1 = .value v →
        X.Admits (m.executeSource fuel source).2.size v := by
  obtain ⟨events, hafter, hvalue⟩ | ⟨p, r, n, after, -, hrun, hafter, hvalue⟩ :=
    m.executeSource_cases fuel source
  · rw [hafter]
    refine ⟨hm.log events, ⟨[], ?_⟩, fun v hv => absurd hv (hvalue v)⟩
    exact .of_scopes (le_refl _) rfl rfl rfl
  · obtain ⟨hn, hchange, hyields⟩ :=
      (X.frames_program fuel p (S := fun _ _ => True)).ended (hm.log _) hrun
    rw [hafter]
    have hbefore : m.Changes (stmtsDeclared p.statements) (m.log (startEvents source p)) :=
      .of_scopes (le_refl _) rfl rfl rfl
    refine ⟨hn.log after, ⟨_, hbefore.trans (hchange.trans ?_)⟩, fun v hv => ?_⟩
    · exact .of_scopes (le_refl _) rfl rfl rfl
    · rw [hvalue v hv] at hyields
      exact hyields

theorem install (hm : X.Holds m) (p : Primitive) :
    X.Holds { m with env := m.env.install p } := by
  have hnumbered : X.Holds { m with env := (m.env.takeNumber).2 } :=
    hm.congr rfl rfl rfl hm.env.current
  exact hnumbered.defineIn m.env.globals p.name (admits_builtin _) .mutable

theorem installAll (hm : X.Holds m) (ps : List Primitive) :
    X.Holds { m with env := ps.foldl Environment.install m.env } := by
  induction ps generalizing m with
  | nil => exact hm
  | cons p ps ih => exact ih (hm.install p)

end Region.Holds

namespace Machine.Rooted

/-- Starting over makes a new global scope, from which none of the cells are reached that there were
before. -/
theorem reset (s : Session) : (s.reset : Machine).Rooted [] := by
  let X : Region := ⟨s.env.scopes.next, fun {sort} r => s.size sort ≤ r.index⟩
  let cleared : Machine := { s with env := s.env.clear }
  have hsize : cleared.env.scopes.size = s.env.scopes.size + 1 := s.env.size_newScope none
  have hnext : X.Known cleared.size s.env.scopes.next := by
    refine ⟨Nat.le_refl _, ?_⟩
    show s.env.scopes.size < cleared.env.scopes.size
    rw [hsize]
    exact Nat.lt_succ_self _
  -- The only scope of the region is the new one.
  have hscope {r : Ref .scope} (hr : X.Known cleared.size r) : r = s.env.scopes.next := by
    have hlow : s.env.scopes.size ≤ r.index := hr.1
    have hhigh : r.index < cleared.env.scopes.size := hr.2
    have hindex : r.index = s.env.scopes.next.index := by
      have hnext : s.env.scopes.next.index = s.env.scopes.size := rfl
      omega
    exact congrArg Ref.mk hindex
  have unused {sort : CellSort} {α : Type} (st : Store sort α) {C : Ref sort → Prop}
      {P : α → Prop} (hC : ∀ r, C r → st.size ≤ r.index) : st.AllIn C P := by
    intro r a hr ha
    have hlt : r.index < st.size := (Array.getElem?_eq_some_iff.mp ha).1
    exact absurd (hC r hr) (Nat.not_le.mpr hlt)
  have hcleared : X.Holds cleared := {
    env := {
      size := rfl
      globals := rfl
      known := hnext
      top := (s.env.parent?_newScope none _).trans (if_pos rfl)
      current := hnext
      leads := fun hr => hscope hr ▸ .here
      scopes := (unused s.env.scopes fun _ hr => hr).alloc
        ⟨nofun, OrderedMap.All.empty⟩ }
    heap := {
      arrays := unused s.heap.arrays fun _ hr => hr
      objects := unused s.heap.objects fun _ hr => hr
      instances := unused s.heap.instances fun _ hr => hr
      classes := unused s.heap.classes fun _ hr => hr }
    fresh := fun {sort} r hr => by
      cases sort with
      | scope =>
        have hr : cleared.env.scopes.size ≤ r.index := hr
        rw [hsize] at hr
        exact Nat.le_of_succ_le hr
      | _ => exact hr }
  exact (hcleared.installAll Environment.standardPrimitives).rooted nofun

/-- A new machine is one that has just started over. -/
theorem new (host : Host) (settings : Settings) : (Machine.new host settings).Rooted [] :=
  reset ⟨⟨.empty, ⟨0⟩, ⟨0⟩, 0, defaultCallLimit, 0⟩, .empty, host, false, settings, #[]⟩

/-- Code may run in any scope that is reached, and in a new scope within it. -/
theorem enter {m : Machine} {held : List Value} (hm : m.Rooted held) {r : Ref .scope}
    (hr : m.Reaches held r) : { m with env := m.env.enter r }.Rooted held ∧
      { m with env := (m.env.newScope (some r)).2.enter (m.env.newScope (some r)).1 }.Rooted
        held := by
  have known := hm.known hr
  obtain ⟨hmade, hnext⟩ := hm.holds.newScope known
  have hentered : (m.region held).Holds { m with env := m.env.enter r } :=
    hm.holds.congr rfl rfl rfl known
  have hwithin : (m.region held).Holds
      { m with env := (m.env.newScope (some r)).2.enter (m.env.newScope (some r)).1 } :=
    hmade.congr rfl rfl rfl hnext
  have hsize := Region.Holds.size_newScope m (some r)
  exact ⟨hentered.rooted hm.admits, hwithin.rooted fun v hv => (hm.admits v hv).mono hsize⟩

end Machine.Rooted

/-- A session that has only run source texts, with built-in functions that may have been added. -/
inductive Session.RunsSource : Session → Prop
  | new (host : Host) (settings : Settings) : RunsSource (Machine.new host settings)
  | install {s : Session} (p : Primitive) : s.RunsSource →
    RunsSource { s with env := s.env.install p }
  | execute {s : Session} (fuel : Nat) (source : String) : s.RunsSource →
    RunsSource (s.execute fuel source).2
  | reset {s : Session} : s.RunsSource → RunsSource s.reset

theorem Session.RunsSource.rooted {s : Session} (h : s.RunsSource) : Machine.Rooted s [] := by
  induction h with
  | new host settings => exact .new host settings
  | install p _ ih => exact (ih.holds.install p).rooted nofun
  | @execute s fuel source _ ih =>
    have hready : (Machine.region s []).Holds { s with interrupted := false } :=
      ih.holds.congr rfl rfl rfl ih.holds.env.current
    exact (hready.executeSource fuel source).1.rooted nofun
  | reset _ _ => exact .reset _

/-! ## Assignments -/

/-- What an assignment to a name does if it succeeds: it replaces what the name stands for, or makes
a global name of one that is bound nowhere outward. -/
theorem Eval.assign_ok {x : String} {v : Value} {m m' : Machine}
    (h : Eval.assign x v m = .ok () m') :
    (∃ owner u, m.env.find? m.env.current x = some (owner, ⟨u, .mutable⟩) ∧
      m' = { m with env := m.env.defineIn owner x v .mutable }) ∨
    (m.env.find? m.env.current x = none ∧ m' = { m with env := m.env.defineGlobal x v }) := by
  have h : Eval.store x v (m.env.assignable m.env.current x) m = .ok () m' := h
  unfold Environment.assignable at h
  cases hfound : m.env.find? m.env.current x with
  | none =>
    rw [hfound] at h
    cases h
    exact .inr ⟨rfl, rfl⟩
  | some found =>
    obtain ⟨owner, ⟨u, mode⟩⟩ := found
    rw [hfound] at h
    cases mode with
    | constant => cases h
    | mutable =>
      cases h
      exact .inl ⟨owner, u, rfl, rfl⟩

/-- After a successful assignment, the name stands for the value where it was assigned. -/
theorem Region.Holds.lookup_assigned {X : Region} {x : String} {v : Value} {m m' : Machine}
    (hm : X.Holds m) (h : Eval.assign x v m = .ok () m') :
    m'.env.lookupFrom? m.env.current x = some v := by
  unfold Environment.lookupFrom?
  obtain ⟨owner, u, hfound, rfl⟩ | ⟨hnone, rfl⟩ := Eval.assign_ok h
  · have howner := (hm.env.findWithin hm.env.current hfound).1
    dsimp only
    rw [Environment.find?_defineIn howner.2 hfound]
    rfl
  · obtain ⟨-, hfound⟩ :=
      hm.current_leads.find?_defineIn hm.globals_stored hm.env.current.2 hnone v .mutable
    unfold Environment.defineGlobal
    dsimp only
    rw [hfound]
    rfl

/-- A successful assignment expression has assigned the value of its right side. -/
theorem Eval.assigned {g : Engine} {p : Position} {x : String} {e : Expr} {v : Value}
    {m m' : Machine} (h : evalExpr g (.assign p (.name x) e) m = .ok v m') :
    ∃ m₁, evalExpr g e m = .ok v m₁ ∧ Eval.assign x v m₁ = .ok () m' := by
  rw [evalExpr] at h
  obtain ⟨u, m₁, hvalue, h⟩ := Eval.of_bind_ok (Eval.of_step_ok h)
  obtain ⟨_, m₂, hassign, h⟩ := Eval.of_bind_ok h
  cases h
  exact ⟨m₁, hvalue, hassign⟩

/-- Scopes are only changed where they may be. In a session that runs source texts, every scope that
is reached lies, in the end, in the global one; and whatever is evaluated on a machine where this is
so, in whatever scope and however it ends:

* the machine stays rooted, with the value if there is one;
* an expression leaves all scopes that are reached as they are, up to the values of names that are
  bound as mutable, but the global one, which may have new mutable names at its end;
* a statement does the same, except in the scope where it stands;
* a successful assignment to a name is seen from where it was made. -/
theorem scopes_framed :
    (∀ s : Session, s.RunsSource → Machine.Rooted s [] ∧ ∀ r : Ref .scope, Machine.Reaches s [] r →
      (s.env.chain r).getLast? = some s.env.globals) ∧
    ∀ (m : Machine) (held : List Value), m.Rooted held →
      (∀ r : Ref .scope, m.Reaches held r → { m with env := m.env.enter r }.Rooted held ∧
        { m with env := (m.env.newScope (some r)).2.enter (m.env.newScope (some r)).1 }.Rooted
          held) ∧
      (∀ (fuel n : Nat) (e : Expr) (m' : Machine), (evalExpr (.of fuel n) e).after m = m' →
        m'.Rooted held ∧ (∀ v, evalExpr (.of fuel n) e m = .ok v m' → m'.Rooted (v :: held)) ∧
        (∀ r : Ref .scope, m.Reaches held r → r ≠ m.env.globals → m.env.Keeps m'.env r) ∧
        m.env.Extends m'.env m.env.globals) ∧
      (∀ (fuel n : Nat) (s : Stmt) (m' : Machine), (evalStmt (.of fuel n) s).after m = m' →
        m'.Rooted held ∧ (∀ v, evalStmt (.of fuel n) s m = .ok v m' → m'.Rooted (v :: held)) ∧
        (∀ r : Ref .scope, m.Reaches held r → r ≠ m.env.current → r ≠ m.env.globals →
          m.env.Keeps m'.env r) ∧
        (m.env.current ≠ m.env.globals → m.env.Extends m'.env m.env.globals)) ∧
      (∀ (fuel n : Nat) (p : Position) (x : String) (e : Expr) (v : Value) (m' : Machine),
        evalExpr (.of fuel n) (.assign p (.name x) e) m = .ok v m' →
        m'.env.lookupFrom? m.env.current x = some v) := by
  refine ⟨fun s hs => ⟨hs.rooted, fun r hr => hs.rooted.chain hr⟩, fun m held hm => ?_⟩
  have hholds := hm.holds
  have rooted {names : List String} {m' : Machine} (h : (m.region held).Holds m')
      (hchange : m.Changes names m') : m'.Rooted held :=
    h.rooted fun v hv => (hm.admits v hv).mono hchange.size
  refine ⟨fun r hr => hm.enter hr, ?_, ?_, ?_⟩
  · rintro fuel n e m' rfl
    have hframes : (m.region held).Frames m.size [] (fun _ _ => True) (evalExpr (.of fuel n) e)
        (m.region held).Admits := (m.region held).frames_expr fuel n e
    obtain ⟨hafter, hchange⟩ := hframes.after hholds
    refine ⟨rooted hafter hchange, fun v hv => hframes.rooted_cons hm hv, fun r hr hglobal => ?_, ?_⟩
    · exact hchange.keeps (hm.stored hr) (fun _ => rfl) hglobal
    · exact hchange.extends_globals (hm.stored .globals) fun _ => rfl
  · rintro fuel n s m' rfl
    have hframes := (m.region held).frames_stmt fuel n s (w := m.size)
    obtain ⟨hafter, hchange⟩ := hframes.after hholds
    refine ⟨rooted hafter hchange, fun v hv => hframes.rooted_cons hm hv,
      fun r hr hcurrent hglobal => ?_, fun hcurrent => ?_⟩
    · exact hchange.keeps (hm.stored hr) (fun h => absurd h hcurrent) hglobal
    · exact hchange.extends_globals (hm.stored .globals) fun h => absurd h.symm hcurrent
  · intro fuel n p x e v m' h
    obtain ⟨m₁, hvalue, hassign⟩ := Eval.assigned h
    have hframes : (m.region held).Frames m.size [] (fun _ _ => True) (evalExpr (.of fuel n) e)
        (m.region held).Admits := (m.region held).frames_expr fuel n e
    obtain ⟨hm₁, hchange, -⟩ := hframes.ended (r := .ok v) hholds hvalue
    rw [← hchange.current]
    exact hm₁.lookup_assigned hassign

/-- A session that has run a text with a function, a constant in it and a global name. -/
def ranSample : Session :=
  (Session.execute 9 (Machine.new .withoutStorage {})
    "function f() { const a = 1; b = a; return () => a; } let g = f();").2

/-- The session at a new scope within its global one. -/
def ranSampleWithin : Machine :=
  let (r, env) := ranSample.env.newScope (some ranSample.env.globals)
  { ranSample with env := env.enter r }

/-- The evaluation has ended with the integer. -/
def endsWith (n : Int64) : EStateM.Result Stop Machine Value → Bool
  | .ok (.integer i) _ => i == n
  | _ => false

theorem eq_of_endsWith {n : Int64} {r : EStateM.Result Stop Machine Value}
    (h : endsWith n r = true) : ∃ m, r = .ok (.integer n) m := by
  unfold endsWith at h
  split at h
  · rw [eq_of_beq h]
    exact ⟨_, rfl⟩
  · contradiction

/-- The scopes of the session lie in its global one. Calling its function leaves the global
constants as they are, and so does a declaration in a scope within the global one; an assignment
there to a new name is seen. -/
theorem scopes_framed_sample :
    (ranSample.env.chain ranSample.env.current).getLast? = some ranSample.env.globals ∧
    ranSample.env.Extends ((evalExpr (.of 3 9) (.call .start (.identifier .start "f") [])).after
      ranSample).env ranSample.env.globals ∧
    ranSampleWithin.env.Extends ((evalStmt (.of 3 9) (.declare .start .constant "b"
      (some (.call .start (.identifier .start "f") [])))).after ranSampleWithin).env
      ranSampleWithin.env.globals ∧
    ∃ m', evalExpr (.of 3 9) (.assign .start (.name "c") (.integer .start 7)) ranSampleWithin =
        .ok (.integer 7) m' ∧
      m'.env.lookupFrom? ranSampleWithin.env.current "c" = some (.integer 7) := by
  have hruns : ranSample.RunsSource := .execute 9 _ (.new .withoutStorage {})
  obtain ⟨hrooted, hchain⟩ := scopes_framed.1 ranSample hruns
  obtain ⟨henter, hexpr, -, -⟩ := scopes_framed.2 ranSample [] hrooted
  have hwithin : ranSampleWithin.Rooted [] := (henter _ .globals).2
  obtain ⟨-, -, hstmt, hassign⟩ := scopes_framed.2 ranSampleWithin [] hwithin
  have hlocal : ranSampleWithin.env.current ≠ ranSampleWithin.env.globals := by decide +kernel
  have hseven : endsWith 7 (evalExpr (.of 3 9)
      (.assign .start (.name "c") (.integer .start 7)) ranSampleWithin) = true := by decide +kernel
  obtain ⟨m', hm'⟩ := eq_of_endsWith hseven
  exact ⟨hchain _ .current, (hexpr 3 9 _ _ rfl).2.2.2, (hstmt 3 9 _ _ rfl).2.2.2 hlocal, m', hm',
    hassign 3 9 _ _ _ _ _ hm'⟩

end Scriptlet
