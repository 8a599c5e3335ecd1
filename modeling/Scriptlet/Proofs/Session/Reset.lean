import Scriptlet.Proofs.Relabel.Programs

/-!
# Starting over

A session that is reset keeps its old cells, and goes on numbering where it was. Apart from that it
is a new session over the same host: whatever texts it executes from then on, it gives the results
that the new session gives, prints the same and leaves the same files (`Session.reset_renews`). What
the session did before, and how that ended, does not matter.
-/

namespace Scriptlet

namespace Session

/-- A new session over the host of this one, with the same settings. -/
def renewed (s : Session) : Session := Machine.new s.host s.settings

/-- The executions of the texts one after another: how each ends, and the session after it. -/
def results (fuel : Nat) (s : Session) : List String → List (Outcome × Session)
  | [] => []
  | source :: rest => s.execute fuel source :: results fuel (s.execute fuel source).2 rest

/-- What a new session makes is found in a session with a past behind everything that is there, and
programs and built-in functions are numbered on. Code stands where it stands. -/
def relabeling (s : Session) : Relabeling where
  settings := s.settings
  limit := s.settings.callLimit
  older := Machine.size s
  number n := s.env.numbered + n
  place _ := id
  ident i := s.env.numbered + i
  node _ _ := True
  routine _ _ := True
  bindable _ := True
  logs _ _ := True
  numbered k k' := k' = s.env.numbered + k
  made _ _ _ := trivial
  body _ _ _ := trivial
  bindable_inst _ := trivial
  ident_injective _ _ h := Nat.add_left_cancel h
  apart _ _ hnumber hplace := ⟨Nat.add_left_cancel hnumber, hplace⟩
  logged _ _ := trivial

/-- What the host has is the same, and what the sessions hold is built alike: the second session
holds it in the cells that the relabeling says, and binds the same global names to it. -/
structure SameState (κ : Relabeling) (a b : Session) : Prop where
  host : b.host = a.host
  settings : b.settings = a.settings
  globalNames : b.env.globalNames = a.env.globalNames
  heap : κ.Heaps a.heap.instances.size a.heap b.heap
  globals (x : String) : Option.Rel (κ.Bindings a.heap.instances.size)
    ((a.env.bindings a.env.globals).get? x) ((b.env.bindings b.env.globals).get? x)

/-- The executions end with values that are built alike and have the same types and texts, with
the same reports, or unfinished for the same reason, and leave the same state. -/
structure SameResult (κ : Relabeling) (a b : Outcome × Session) : Prop where
  state : SameState κ a.2 b.2
  value (v : Value) : a.1 = .value v → ∃ v', b.1 = .value v' ∧
    κ.Relates a.2.heap.instances.size v v' ∧ v'.typeName = v.typeName ∧
    b.2.heap.display v' = a.2.heap.display v ∧ b.2.heap.inspect v' = a.2.heap.inspect v
  diagnostics (ds : List Diagnostic) : a.1 = .diagnostics ds → b.1 = .diagnostics ds
  unfinished (why : Unfinished) : a.1 = .unfinished why → b.1 = .unfinished why

end Session

/-! ## The session that was reset -/

/-- All cells of a store may be older than those of an empty one. -/
theorem Store.Matches.of_older {s : CellSort} {α β : Type} (R : α → β → Prop) (st : Store s β) :
    Store.Matches st.size R .empty st where
  size := rfl
  cell i := by
    have hmissing : st.get? ⟨st.size + i⟩ = none :=
      Array.getElem?_eq_none (Nat.le_add_right _ _)
    rw [hmissing]
    exact .none

namespace Session

variable {s a b : Session} {n : Nat} {e e' : Environment}

theorem installed (he : s.relabeling.Environments n e e') (p : Primitive) :
    s.relabeling.Environments n (e.install p) (e'.install p) := by
  have hident : e'.numbered = s.relabeling.ident e.numbered := he.numbered
  have htaken : s.relabeling.Environments n e.takeNumber.2 e'.takeNumber.2 :=
    { he with numbered := congrArg (· + 1) he.numbered }
  show s.relabeling.Environments n (e.takeNumber.2.defineGlobal p.name (.builtin ⟨p, e.numbered⟩))
    (e'.takeNumber.2.defineGlobal p.name (.builtin ⟨p, e'.numbered⟩))
  rw [hident]
  exact htaken.defineGlobal p.name (.builtin p e.numbered)

theorem withPrelude (he : s.relabeling.Environments n e e') :
    s.relabeling.Environments n e.loadPrelude e'.loadPrelude := by
  unfold Environment.loadPrelude
  induction Environment.standardPrimitives generalizing e e' with
  | nil => exact he
  | cons p ps ih => exact ih (installed he p)

theorem loadPrelude_setLimit (e : Environment) (limit : Nat) :
    e.loadPrelude.setLimit limit = (e.setLimit limit).loadPrelude := by
  unfold Environment.loadPrelude
  induction Environment.standardPrimitives generalizing e with
  | nil => rfl
  | cons p ps ih => exact ih (e.install p)

theorem environments_reset (s : Session) :
    s.relabeling.Environments 0 s.renewed.ready.env s.reset.ready.env := by
  have hclear : s.relabeling.Environments 0
      ((Environment.new defaultCallLimit).setLimit s.settings.callLimit)
      (s.env.clear.setLimit s.settings.callLimit) :=
    { scopes := (Store.Matches.of_older _ s.env.scopes).alloc ⟨.empty, rfl⟩
      globals := rfl
      current := rfl
      callDepth := rfl
      limit := rfl
      limit' := rfl
      numbered := rfl }
  show s.relabeling.Environments 0
    ((Environment.new defaultCallLimit).loadPrelude.setLimit s.settings.callLimit)
    (s.env.clear.loadPrelude.setLimit s.settings.callLimit)
  rw [loadPrelude_setLimit, loadPrelude_setLimit]
  exact withPrelude hclear

@[simp] theorem ready_heap (s : Session) : s.ready.heap = s.heap := by cases s; rfl

@[simp] theorem ready_host (s : Session) : s.ready.host = s.host := by cases s; rfl

@[simp] theorem ready_settings (s : Session) : s.ready.settings = s.settings := by cases s; rfl

@[simp] theorem ready_interrupted (s : Session) : s.ready.interrupted = false := rfl

@[simp] theorem reset_heap (s : Session) : s.reset.heap = s.heap := by cases s; rfl

@[simp] theorem reset_host (s : Session) : s.reset.host = s.host := by cases s; rfl

@[simp] theorem reset_settings (s : Session) : s.reset.settings = s.settings := by cases s; rfl

@[simp] theorem renewed_heap (s : Session) : s.renewed.heap = .empty := rfl

@[simp] theorem renewed_host (s : Session) : s.renewed.host = s.host := by cases s; rfl

@[simp] theorem renewed_settings (s : Session) : s.renewed.settings = s.settings := by cases s; rfl

theorem heaps_reset (s : Session) :
    s.relabeling.Heaps 0 s.renewed.ready.heap s.reset.ready.heap := by
  rw [ready_heap, ready_heap, renewed_heap, reset_heap]
  exact
    { arrays := .of_older _ s.heap.arrays
      objects := .of_older _ s.heap.objects
      instances := .of_older _ s.heap.instances
      classes := .of_older _ s.heap.classes }

/-- After a reset, the session differs from a new one only in how things are labelled. -/
theorem sessions_reset (s : Session) : s.relabeling.Sessions s.renewed s.reset := by
  have hhost : s.reset.ready.host = s.renewed.ready.host := by simp
  have hinterrupted : s.reset.ready.interrupted = s.renewed.ready.interrupted := by simp
  have hsettings : s.renewed.ready.settings = s.settings := by simp
  have hsettings' : s.reset.ready.settings = s.settings := by simp
  exact ⟨environments_reset s, heaps_reset s, hhost, hinterrupted, hsettings, hsettings', trivial⟩

/-! ## The texts after it -/

/-- A program does the same on machines that differ only in how things are labelled. -/
theorem executes_program {m m' : Machine} (h : s.relabeling.Sessions m m')
    (hm : m.interrupted = false) (hm' : m'.interrupted = false) (fuel : Nat) (p : Program) :
    s.relabeling.Results (m.execute fuel p) (m'.execute fuel p) := by
  refine Relabeling.Ends.results (n := m.heap.instances.size) rfl (fun _ _ => trivial) ?_
  have hstarted : s.relabeling.Machines m.started m'.started :=
    { h with
      env := { h.env with numbered := congrArg (· + 1) h.env.numbered }
      interrupted := hm'.trans hm.symm }
  have hnumber : m'.env.numbered = s.relabeling.number m.env.numbered := h.env.numbered
  have hcode : s.relabeling.Has m.env.numbered (stmtsNodes p.statements) := fun _ _ => trivial
  have hends := (s.relabeling.program fuel (n := 0) hcode .undefined).settlingProgram
    m.started m'.started hstarted (Nat.zero_le _)
  have hstays : move (s.relabeling.place m.env.numbered) p.statements = p.statements :=
    stmts_move_id _
  rw [hstays, ← hnumber] at hends
  rw [runProgram_eq, runProgram_eq]
  exact hends

theorem executes (h : s.relabeling.Sessions a b) (fuel : Nat) (source : String) :
    s.relabeling.Results (a.execute fuel source) (b.execute fuel source) := by
  have hlogs : ∀ es es', s.relabeling.logs es es' := fun _ _ => trivial
  have hready : s.relabeling.Sessions { a with interrupted := false }
      { b with interrupted := false } := h
  unfold Session.execute Machine.executeSource
  dsimp only
  cases (Reading.ofTokens (scan source)).result with
  | error errors => exact ⟨.rejected errors, (hready.log hlogs _ _).log hlogs _ _⟩
  | ok p => exact executes_program ((hready.log hlogs _ _).log hlogs _ _) rfl rfl fuel p

end Session

namespace Relabeling

variable {κ : Relabeling} {s s' : Session} {a b : Outcome × Session}

theorem Sessions.sameState (h : κ.Sessions s s') : Session.SameState κ s s' where
  host := h.host
  settings := h.settings'.trans h.settings.symm
  globalNames := h.env.globalNames
  heap := h.heap
  globals x := by
    have hglobals : s'.env.globals = κ.ref s.env.globals := h.env.globals
    rw [hglobals]
    exact (h.env.bindings s.env.globals).get? x

theorem Results.sameResult (hlabels : ∀ p p', κ.Placed p p' → p' = p) (h : κ.Results a b) :
    Session.SameResult κ a b where
  state := h.session.sameState
  value _ hv := h.of_value hv
  diagnostics ds hds := by
    obtain ⟨ds', hds', hsame⟩ := h.of_diagnostics hds
    have heq : List.Forall₂ (· = ·) ds ds' :=
      hsame.imp fun _ _ hd => (hd.imp fun p p' hp => (hlabels p p' hp).symm).eq
    rw [List.forall₂_eq_eq_eq] at heq
    rw [hds', heq]
  unfinished _ hwhy := h.of_unfinished hwhy

end Relabeling

/-- A session that has been reset is a new one over the same host, whatever happened in it before:
all texts that it executes from then on give the results that they give in the new session, with
the same values or reports, output, files and global names. The old cells are still there, but
nothing shows them. -/
theorem Session.reset_renews (fuel : Nat) (s : Session) (sources : List String) :
    SameState s.relabeling s.renewed s.reset ∧
      List.Forall₂ (SameResult s.relabeling) (results fuel s.renewed sources)
        (results fuel s.reset sources) := by
  have all_same {a b : Session} (h : s.relabeling.Sessions a b) :
      List.Forall₂ (SameResult s.relabeling) (results fuel a sources) (results fuel b sources) := by
    induction sources generalizing a b with
    | nil => exact .nil
    | cons source sources ih =>
      have hresult := executes h fuel source
      refine .cons (hresult.sameResult ?_) (ih hresult.session)
      rintro p p' ⟨a, x, -, -, rfl⟩
      rfl
  exact ⟨(sessions_reset s).sameState, all_same (sessions_reset s)⟩

end Scriptlet
