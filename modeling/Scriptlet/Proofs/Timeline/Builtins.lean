import Mathlib.Logic.Relation
import Scriptlet.Proofs.Timeline.Quiet
import Scriptlet.Session

/-!
# What built-in functions do to the machine

A built-in function is served by the host, and may ask the evaluation to stop; it touches
neither the cells nor the scopes (`Machine.Served`). If its body fails, then with a message of
its own or because the host refuses a request (`Primitive.run_failed`). A body may have printed
and written by then. The standard functions have not, and neither have those that the tests of
the language add (`failsQuietly_standard`, `failsQuietly_extra`).
-/

namespace Scriptlet

/-! ## The host -/

/-- The host after one request. -/
inductive Host.Serves (h : Host) : Host → Prop
  | printed (text : String) : h.Serves (h.print text).2
  | fetched (path : String) : h.Serves (h.fetch path).2
  | saved (path text : String) : h.Serves (h.save path text).2

/-- The second host comes about when the first serves requests. -/
def Host.Leads : Host → Host → Prop := Relation.ReflTransGen Host.Serves

namespace Host.Leads

theorem refl (h : Host) : h.Leads h := Relation.ReflTransGen.refl

theorem trans {h h' h'' : Host} (hs : h.Leads h') (hs' : h'.Leads h'') : h.Leads h'' :=
  Relation.ReflTransGen.trans hs hs'

end Host.Leads

/-- Nothing has been printed, and no file has changed. -/
structure Host.Unchanged (h h' : Host) : Prop where
  output : h'.output = h.output
  files : h'.files = h.files

namespace Host

variable {h : Host} {e : HostError}

theorem Unchanged.refl (h : Host) : h.Unchanged h := ⟨rfl, rfl⟩

/-- A line that is refused is not printed. -/
theorem print_refused {text : String} (hr : (h.print text).1 = .refused e) :
    h.Unchanged (h.print text).2 := by
  obtain ⟨output, storage⟩ := h
  cases storage with
  | external answers lines =>
    match lines with
    | [] | none :: _ => cases hr
    | some _ :: _ => exact ⟨rfl, rfl⟩
  | _ => cases hr

theorem fetch_unchanged (h : Host) (path : String) : h.Unchanged (h.fetch path).2 := by
  obtain ⟨output, storage⟩ := h
  unfold fetch
  cases storage with
  | unavailable => exact .refl _
  | memory files => dsimp only; split <;> exact .refl _
  | directory files => dsimp only; split <;> exact .refl _
  | external answers lines =>
    cases answers with
    | nil => exact .refl _
    | cons answer rest => cases answer <;> exact ⟨rfl, rfl⟩

/-- A file that must not be written stays as it is. -/
theorem save_refused {path text : String} (hr : (h.save path text).1 = .refused e) :
    h.Unchanged (h.save path text).2 := by
  obtain ⟨output, storage⟩ := h
  unfold save at hr ⊢
  cases storage with
  | unavailable => exact .refl _
  | memory files => cases hr
  | directory files =>
    dsimp only at hr ⊢
    cases hname : Directory.resolve files path true with
    | ok name =>
      rw [hname] at hr
      cases hr
    | error reason => exact .refl _
  | external answers lines =>
    cases answers with
    | nil => exact .refl _
    | cons answer rest => cases answer <;> exact ⟨rfl, rfl⟩

end Host

/-! ## Bodies -/

/-- The second machine comes about when a built-in function runs on the first. -/
structure Machine.Served (m n : Machine) : Prop where
  env : n.env = m.env
  heap : n.heap = m.heap
  host : m.host.Leads n.host
  interrupted : m.interrupted = true → n.interrupted = true
  settings : n.settings = m.settings
  events : n.events = m.events

namespace Machine.Served

theorem refl (m : Machine) : m.Served m := ⟨rfl, rfl, .refl _, id, rfl, rfl⟩

theorem trans {m n o : Machine} (h : m.Served n) (h' : n.Served o) : m.Served o where
  env := h'.env.trans h.env
  heap := h'.heap.trans h.heap
  host := h.host.trans h'.host
  interrupted hm := h'.interrupted (h.interrupted hm)
  settings := h'.settings.trans h.settings
  events := h'.events.trans h.events

instance : Std.Refl Machine.Served := ⟨refl⟩

instance : IsTrans Machine Machine.Served := ⟨fun _ _ _ => trans⟩

theorem request (m : Machine) {h : Host} (hs : m.host.Serves h) : m.Served { m with host := h } :=
  ⟨rfl, rfl, .single hs, id, rfl, rfl⟩

end Machine.Served

theorem Eval.moves_ask {α : Type} {request : Host → Reply α × Host}
    (h : ∀ host : Host, host.Serves (request host).2) : (ask request).Moves Machine.Served := by
  intro m
  have hserved : m.Served { m with host := (request m.host).2 } := .request m (h m.host)
  unfold ask
  dsimp only
  cases (request m.host).1 with
  | granted a => exact ⟨.ok (.ok a), _, rfl, hserved, nofun⟩
  | refused e => exact ⟨.ok (.error e), _, rfl, hserved, nofun⟩
  | pending q =>
    refine ⟨.error (.unfinished (.awaiting q)), _, rfl, hserved, fun e' he => ?_⟩
    cases he
    exact trivial

/-- A refusal is no failure; the body may go on after it. -/
theorem Eval.ask_not_failed {α : Type} {request : Host → Reply α × Host} {m n : Machine}
    {f : Failure} : ask request m ≠ .error (.failure f) n := by
  intro h
  unfold ask at h
  dsimp only at h
  split at h <;> cases h

/-- What an answer of the host says about the host after it. -/
theorem Eval.of_ask_ok {α : Type} {request : Host → Reply α × Host} {m n : Machine}
    {reply : Except HostError α} (h : ask request m = .ok reply n) :
    n.host = (request m.host).2 ∧ ∀ e, reply = .error e → (request m.host).1 = .refused e := by
  unfold ask at h
  dsimp only at h
  split at h <;> cases h
  · exact ⟨rfl, nofun⟩
  · rename_i e he
    refine ⟨rfl, fun e' heq => ?_⟩
    cases heq
    exact he

namespace Action

variable {name : String} {args : List Value} {m n : Machine} {f : Failure}

theorem moves_run (name : String) (args : List Value) (a : Action) :
    (a.run name args).Moves Machine.Served := by
  induction a with
  | give result => exact .get fun _ => .pure _
  | complain message => exact .fail rfl
  | relay e => exact .fail rfl
  | print line next ih => exact .bind (Eval.moves_ask fun host => .printed line) ih
  | read path next ih => exact .bind (Eval.moves_ask fun host => .fetched path) ih
  | write path text next ih => exact .bind (Eval.moves_ask fun host => .saved path text) ih
  | interrupt next ih =>
    refine .bind (.modifyGet fun n => ?_) fun _ => ih
    exact ⟨rfl, rfl, .refl _, fun _ => rfl, rfl, rfl⟩

/-- The failures of the body of a function. -/
def Blames (name : String) (f : Failure) : Prop :=
  (∃ text, f = ⟨.builtinFailed name text, none⟩) ∨ ∃ e, f = ⟨.hostFailure e, none⟩

/-- A body that goes on with the answer of the host fails where it goes on. -/
theorem of_ask_failed {α : Type} {request : Host → Reply α × Host} {k : Except HostError α → Action}
    (h : (Eval.ask request >>= fun reply => (k reply).run name args) m = .error (.failure f) n) :
    ∃ reply m₁, Eval.ask request m = .ok reply m₁ ∧
      (k reply).run name args m₁ = .error (.failure f) n :=
  (Eval.of_bind_error h).resolve_left Eval.ask_not_failed

theorem run_failed {a : Action} (h : a.run name args m = .error (.failure f) n) :
    Blames name f := by
  induction a generalizing m with
  | give result => cases h
  | complain message =>
    cases h
    exact .inl ⟨message, rfl⟩
  | relay e =>
    cases h
    exact .inr ⟨e, rfl⟩
  | print line next ih | read path next ih | write path text next ih =>
    obtain ⟨reply, m₁, -, hnext⟩ := of_ask_failed h
    exact ih reply hnext
  | interrupt next ih =>
    have h : next.run name args { m with interrupted := true } = .error (.failure f) n := h
    exact ih h

/-- If the body fails, it has printed nothing and changed no file. -/
def FailsQuietly (a : Action) : Prop :=
  ∀ name args m f n, a.run name args m = .error (.failure f) n → m.host.Unchanged n.host

theorem failsQuietly_give (result : Yield) : (give result).FailsQuietly := by
  intro name args m f n h
  cases h

theorem failsQuietly_complain (message : String) : (complain message).FailsQuietly := by
  intro name args m f n h
  cases h
  exact .refl _

/-- A body that does no more than to ask for one service fails only if the host refuses it. -/
theorem unchanged_of_granted_failed {α : Type} {request : Host → Reply α × Host}
    (hkept : ∀ h e, (request h).1 = .refused e → h.Unchanged (request h).2) {result : α → Yield}
    (h : (Eval.ask request >>= fun reply => (granted (fun a => give (result a)) reply).run name args)
      m = .error (.failure f) n) : m.host.Unchanged n.host := by
  obtain ⟨reply, m₁, hreply, hnext⟩ := of_ask_failed (k := granted fun a => give (result a)) h
  obtain ⟨hhost, hrefused⟩ := Eval.of_ask_ok hreply
  cases reply with
  | ok a => cases hnext
  | error e =>
    cases hnext
    exact hhost ▸ hkept m.host e (hrefused e rfl)

end Action

namespace Primitive

variable (q : Primitive) (args : List Value)

theorem moves_run : (q.run args).Moves Machine.Served :=
  .get fun _ => Action.moves_run q.name args _

variable {q args} {m n : Machine} {f : Failure}

/-- A body fails with a message of its own or because the host refuses a request. -/
theorem run_failed (h : q.run args m = .error (.failure f) n) : Action.Blames q.name f :=
  Action.run_failed (a := q.body (args.map m.heap.sight)) h

/-- If the body fails, it has printed nothing and changed no file. -/
def FailsQuietly (q : Primitive) : Prop := ∀ sights, (q.body sights).FailsQuietly

theorem FailsQuietly.unchanged (hq : q.FailsQuietly)
    (h : q.run args m = .error (.failure f) n) : m.host.Unchanged n.host :=
  hq (args.map m.heap.sight) q.name args m f n h

theorem failsQuietly_withPath {next : String → Action} (hnext : ∀ path, (next path).FailsQuietly)
    (sights : List Sight) : (withPath sights next).FailsQuietly := by
  unfold withPath
  split
  · exact Action.failsQuietly_complain _
  · split
    · exact hnext _
    · exact Action.failsQuietly_complain _

theorem failsQuietly_standard : ∀ q ∈ Environment.standardPrimitives, q.FailsQuietly := by
  have print_quiet : print.FailsQuietly := fun _ _ _ _ _ _ h =>
    Action.unchanged_of_granted_failed (fun _ _ => Host.print_refused) h
  have readFile_quiet : readFile.FailsQuietly :=
    failsQuietly_withPath fun path _ _ _ _ _ h =>
      Action.unchanged_of_granted_failed (fun host _ _ => host.fetch_unchanged path) h
  have writeFile_quiet : writeFile.FailsQuietly := by
    refine fun sights => failsQuietly_withPath (fun path => ?_) sights
    split
    · exact Action.failsQuietly_complain _
    · exact fun _ _ _ _ _ h =>
        Action.unchanged_of_granted_failed (fun _ _ => Host.save_refused) h
  have typeOf_quiet : typeOf.FailsQuietly
    | [] => Action.failsQuietly_complain _
    | _ :: _ => Action.failsQuietly_give _
  intro q hq
  simp only [Environment.standardPrimitives, List.mem_cons, List.not_mem_nil, or_false] at hq
  obtain rfl | rfl | rfl | rfl := hq
  · exact print_quiet
  · exact readFile_quiet
  · exact writeFile_quiet
  · exact typeOf_quiet

theorem failsQuietly_extra : ∀ q ∈ Session.extraPrimitives, q.FailsQuietly := by
  intro q hq
  simp only [Session.extraPrimitives, List.mem_cons, List.not_mem_nil, or_false] at hq
  obtain rfl | rfl | rfl := hq
  · intro sights name args m f n h
    cases h
  · exact fun _ => Action.failsQuietly_complain _
  · exact fun _ => Action.failsQuietly_give _

/-- Whether the function accepts the number of arguments. -/
def accepts (q : Primitive) (count : Nat) : Bool := q.arity.all (count == ·)

end Primitive

/-! ## Calls -/

/-- The machine after a call of a built-in function has been logged. -/
def Machine.serving (m : Machine) (b : Builtin) (args : List Value) : Machine :=
  { m with events := m.events.push (.builtinCalled b.primitive.name args.length) }

/-- A call with a wrong number of arguments is refused before it is logged. -/
theorem callBuiltin_refused {b : Builtin} {args : List Value}
    (h : b.primitive.accepts args.length = false) (m : Machine) :
    ∃ expected, callBuiltin b args m = .error
      (.failure ⟨.arityMismatch b.primitive.name expected args.length, none⟩) m := by
  unfold Primitive.accepts at h
  unfold callBuiltin
  cases ha : b.primitive.arity with
  | none =>
    rw [ha] at h
    cases h
  | some n =>
    rw [ha] at h
    have hne : args.length ≠ n := ne_of_beq_false h
    refine ⟨n, ?_⟩
    dsimp only
    rw [if_pos hne]
    rfl

theorem callBuiltin_accepted {b : Builtin} {args : List Value}
    (h : b.primitive.accepts args.length = true) (m : Machine) :
    callBuiltin b args m = b.primitive.run args (m.serving b args) := by
  unfold Primitive.accepts at h
  unfold callBuiltin
  cases ha : b.primitive.arity with
  | none => rfl
  | some n =>
    rw [ha] at h
    have heq : args.length = n := eq_of_beq h
    dsimp only
    rw [if_neg (not_not_intro heq)]
    rfl

end Scriptlet
