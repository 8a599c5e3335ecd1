import Scriptlet.Proofs.Eval.Outcomes
import Scriptlet.Proofs.Eval.Rooted
import Scriptlet.Proofs.Eval.Scopes

/-!
# Where scopes may be changed

Code runs in the scopes of the functions that it calls, which may be any scopes that there
are, and yet it declares names only where it stands: in the current scope, and in scopes
that are new. In any other scope it can at most replace the value of a name that is bound
there as mutable; and a name that is bound nowhere outward becomes a global one
(`Machine.Changes`). This holds however an evaluation ends.

It holds on rooted machines, since there every search for a name ends in the global scope,
so that a name that is not found is not bound there either; and evaluation keeps a machine
rooted. The calculus `Region.framing` says both together.
-/

namespace Scriptlet

/-- What may have happened to the scopes of `m` when code has run in the current one that may
declare `names`, and left the machine `n`. -/
structure Machine.Changes (names : List String) (m n : Machine) : Prop where
  size : m.size ≤ n.size
  current : n.env.current = m.env.current
  globals : n.env.globals = m.env.globals
  parent {r : Ref .scope} : r.index < m.size .scope → n.env.parent? r = m.env.parent? r
  bindings {r : Ref .scope} : r.index < m.size .scope →
    Kept (if r = m.env.current then names else []) (r = m.env.globals) (m.env.bindings r)
      (n.env.bindings r)

namespace Machine.Changes

variable {names names' : List String} {m n o : Machine}

theorem trans (h : m.Changes names n) (h' : n.Changes names o) : m.Changes names o where
  size := h.size.trans h'.size
  current := h'.current.trans h.current
  globals := h'.globals.trans h.globals
  parent hr := (h'.parent (Nat.lt_of_lt_of_le hr (h.size _))).trans (h.parent hr)
  bindings hr := by
    have hkept := h'.bindings (Nat.lt_of_lt_of_le hr (h.size _))
    rw [h.current, h.globals] at hkept
    exact (h.bindings hr).trans hkept

theorem mono (h : m.Changes names n) (hnames : names ⊆ names') : m.Changes names' n where
  size := h.size
  current := h.current
  globals := h.globals
  parent := h.parent
  bindings hr := (h.bindings hr).mono (by
    split
    · exact hnames
    · exact fun _ hx => hx)

/-- What leaves the scopes alone changes nothing. -/
theorem of_scopes (hsize : m.size ≤ n.size) (hscopes : n.env.scopes = m.env.scopes)
    (hcurrent : n.env.current = m.env.current) (hglobals : n.env.globals = m.env.globals) :
    m.Changes names n where
  size := hsize
  current := hcurrent
  globals := hglobals
  parent _ := by
    unfold Environment.parent?
    rw [hscopes]
  bindings _ := by
    unfold Environment.bindings
    rw [hscopes]
    exact .refl _ _ _

/-- Binding a name in one scope, where that is allowed. -/
theorem defineIn {r : Ref .scope} (hr : r.index < m.size .scope) {x : String} {v : Value}
    {mode : Mode} (h : Kept (if r = m.env.current then names else []) (r = m.env.globals)
      (m.env.bindings r) ((m.env.bindings r).insert x ⟨v, mode⟩)) :
    m.Changes names { m with env := m.env.defineIn r x v mode } where
  size := (m.size_defineIn r x v mode).ge
  current := rfl
  globals := rfl
  parent _ := m.env.parent?_defineIn r x v mode _
  bindings {r'} hr' := by
    show Kept _ _ _ ((m.env.defineIn r x v mode).bindings r')
    rw [m.env.bindings_defineIn hr]
    by_cases heq : r' = r
    · rw [if_pos heq, heq]
      exact h
    · rw [if_neg heq]
      exact .refl _ _ _

theorem newScope (names : List String) (m : Machine) (p : Option (Ref .scope)) :
    m.Changes names { m with env := (m.env.newScope p).2 } where
  size := Region.Holds.size_newScope m p
  current := rfl
  globals := rfl
  parent {r} hr := by
    show (m.env.newScope p).2.parent? r = _
    rw [m.env.parent?_newScope, if_neg]
    rintro rfl
    exact Nat.lt_irrefl _ hr
  bindings {r} _ := by
    show Kept _ _ _ ((m.env.newScope p).2.bindings r)
    rw [m.env.bindings_newScope]
    exact .refl _ _ _

end Machine.Changes

/-- The result satisfies `Q`, and a signal that stops the evaluation satisfies `S`. -/
def Yields {α : Type} (S : Signal → Prop) (Q : α → Prop) : Except Stop α → Prop
  | .ok a => Q a
  | .error (.signal s) => S s
  | .error _ => True

/-- Begun on a machine that keeps to the region, where at least the cells of `w` exist, the
evaluation leaves a machine that does too, with no changes to its scopes but those that are allowed.
-/
def Region.Frames (X : Region) (w : Sizes) (names : List String) (S : Sizes → Signal → Prop)
    {α : Type} (act : Eval α) (Q : Sizes → α → Prop) : Prop :=
  ∀ m, w ≤ m.size → X.Holds m → ∃ r n, act m = Eval.ending r n ∧ X.Holds n ∧
    m.Changes names n ∧ Yields (S n.size) (Q n.size) r

namespace Region.Frames

variable {X : Region} {w w' : Sizes} {names names' : List String} {S S' : Sizes → Signal → Prop}
  {α β : Type} {act : Eval α} {Q Q' : Sizes → α → Prop} {R : Sizes → β → Prop}

/-- An evaluation that ends at once. -/
theorem of_ending {r : Except Stop α} (h : ∀ m, act m = Eval.ending r m)
    (hr : ∀ w', w ≤ w' → Yields (S w') (Q w') r) : X.Frames w names S act Q :=
  fun m hw hm => ⟨r, m, h m, hm, .of_scopes (le_refl _) rfl rfl rfl, hr _ hw⟩

theorem fail (c : Cause) : X.Frames w names S (Eval.fail c) Q :=
  of_ending (r := .error (.failure ⟨c, none⟩)) (fun _ => rfl) fun _ _ => trivial

theorem mono (h : X.Frames w names S act Q) (hnames : names ⊆ names')
    (hS : ∀ w s, S w s → S' w s) (hQ : ∀ w a, Q w a → Q' w a) : X.Frames w names' S' act Q' := by
  intro m hw hm
  obtain ⟨r, n, hr, hn, hchange, hyields⟩ := h m hw hm
  refine ⟨r, n, hr, hn, hchange.mono hnames, ?_⟩
  match r with
  | .ok a => exact hQ _ a hyields
  | .error (.signal s) => exact hS _ s hyields
  | .error (.failure _) => trivial
  | .error (.unfinished _) => trivial

theorem bind {f : α → Eval β} (h : X.Frames w names S act Q)
    (hf : ∀ w', w ≤ w' → ∀ a, Q w' a → X.Frames w' names S (f a) R) :
    X.Frames w names S (act >>= f) R := by
  intro m hw hm
  obtain ⟨r, n, hr, hn, hchange, hyields⟩ := h m hw hm
  cases r with
  | error e =>
    refine ⟨.error e, n, Eval.bind_error hr, hn, hchange, ?_⟩
    cases e <;> exact hyields
  | ok a =>
    obtain ⟨r, o, hr', ho, hchange', hyields'⟩ :=
      hf n.size (hw.trans hchange.size) a hyields n (le_refl _) hn
    exact ⟨r, o, (Eval.bind_ok hr).trans hr', ho, hchange.trans hchange', hyields'⟩

/-- A step of the machine. -/
theorem step {f : Machine → α × Machine}
    (h : ∀ m, w ≤ m.size → X.Holds m → X.Holds (f m).2 ∧ m.Changes names (f m).2 ∧
      Q (f m).2.size (f m).1) : X.Frames w names S (MonadState.modifyGet f) Q := by
  intro m hw hm
  obtain ⟨hn, hchange, hQ⟩ := h m hw hm
  exact ⟨.ok (f m).1, (f m).2, rfl, hn, hchange, hQ⟩

/-- A step that changes what a machine keeps besides its cells. -/
theorem aside {f : Machine → α × Machine} (hheap : ∀ m, (f m).2.heap = m.heap)
    (hscopes : ∀ m, (f m).2.env.scopes = m.env.scopes)
    (hcurrent : ∀ m, (f m).2.env.current = m.env.current)
    (hglobals : ∀ m, (f m).2.env.globals = m.env.globals) :
    X.Frames w names S (MonadState.modifyGet f) fun _ _ => True := by
  refine step fun m _ hm => ⟨?_, ?_, trivial⟩
  · exact hm.congr (hheap m) (hscopes m) (hglobals m) (hcurrent m ▸ hm.env.current)
  · refine .of_scopes (fun s => ?_) (hscopes m) (hcurrent m) (hglobals m)
    cases s <;> simp only [Machine.size, hheap, hscopes] <;> exact Nat.le_refl _

theorem begun (s : Stmt) : X.Frames w names S (modify s.begun) fun _ _ => True := by
  refine step fun m _ hm => ?_
  rw [s.begun_eq]
  exact ⟨hm.congr rfl rfl rfl hm.env.current, .of_scopes (le_refl _) rfl rfl rfl, trivial⟩

theorem ask (request : Host → Reply α × Host) :
    X.Frames w names S (Eval.ask request) fun _ _ => True := by
  intro m _ hm
  let n : Machine := { m with host := (request m.host).2 }
  have hn : X.Holds n := hm.congr rfl rfl rfl hm.env.current
  have hchange : m.Changes names n := .of_scopes (le_refl _) rfl rfl rfl
  unfold Eval.ask
  dsimp only
  cases (request m.host).1 with
  | granted a => exact ⟨.ok (.ok a), n, rfl, hn, hchange, trivial⟩
  | refused e => exact ⟨.ok (.error e), n, rfl, hn, hchange, trivial⟩
  | pending q => exact ⟨.error (.unfinished (.awaiting q)), n, rfl, hn, hchange, trivial⟩

/-- Adding or changing cells of the heap. -/
theorem setHeap {f : Heap → α × Heap} (hsize : ∀ h, h.size ≤ (f h).2.size)
    (h : ∀ m, w ≤ m.size → X.Holds m → X.HoldsHeap m.size (f m.heap).2 ∧
      Q { m with heap := (f m.heap).2 }.size (f m.heap).1) :
    X.Frames w names S (MonadState.modifyGet fun m =>
      ((f m.heap).1, { m with heap := (f m.heap).2 })) Q := by
  refine step fun m hw hm => ?_
  obtain ⟨hheap, hQ⟩ := h m hw hm
  refine ⟨hm.setHeap (hsize m.heap) hheap, ?_, hQ⟩
  exact .of_scopes (Region.Holds.size_setHeap m (hsize m.heap)) rfl rfl rfl

theorem write (place : Place) {v : Value} (hv : X.Admits w v) :
    X.Frames w names S (Eval.write place v) fun _ _ => True :=
  setHeap (f := fun h => ((), h.write place v)) (fun h => (h.size_write place v).ge)
    fun _ hw hm => ⟨hm.heap.write place (hv.mono hw), trivial⟩

theorem newArray {items : List Value} (hi : ∀ v ∈ items, X.Admits w v) :
    X.Frames w names S (Eval.newArray items) X.Admits := by
  refine setHeap (f := fun h => h.newArray items.toArray) (fun h s => ?_) fun m hw hm => ⟨?_, ?_⟩
  · cases s with
    | array => exact Nat.le_of_lt (h.arrays.size_lt_alloc _)
    | _ => exact Nat.le_refl _
  · exact hm.heap.newArray fun v hv => (hi v (List.mem_toArray.mp hv)).mono hw
  · exact admits_array ⟨hm.fresh (Nat.le_refl _), m.heap.arrays.size_lt_alloc _⟩

theorem newObject {entries : OrderedMap Value} (he : entries.All (X.Admits w)) :
    X.Frames w names S (Eval.newObject entries) X.Admits := by
  refine setHeap (f := fun h => h.newObject entries) (fun h s => ?_) fun m hw hm => ⟨?_, ?_⟩
  · cases s with
    | object => exact Nat.le_of_lt (h.objects.size_lt_alloc _)
    | _ => exact Nat.le_refl _
  · exact hm.heap.newObject fun x v hv => (he x v hv).mono hw
  · exact admits_object ⟨hm.fresh (Nat.le_refl _), m.heap.objects.size_lt_alloc _⟩

theorem newClass {c : Class} (hc : X.Known w c.scope) : X.Frames w names S
    (MonadState.modifyGet fun m =>
      ((m.heap.newClass c).1, { m with heap := (m.heap.newClass c).2 })) X.Admits := by
  refine setHeap (f := fun h => h.newClass c) (fun h s => ?_) fun m hw hm => ⟨?_, ?_⟩
  · cases s with
    | klass => exact Nat.le_of_lt (h.classes.size_lt_alloc _)
    | _ => exact Nat.le_refl _
  · exact hm.heap.newClass (hc.mono hw)
  · exact admits_klass ⟨hm.fresh (Nat.le_refl _), m.heap.classes.size_lt_alloc _⟩

theorem newInstance {c : Ref .klass} (hc : X.Admits w (.klass c)) : X.Frames w names S
    (MonadState.modifyGet fun m =>
      ((m.heap.newInstance c).1, { m with heap := (m.heap.newInstance c).2 }))
    fun w i => X.Admits w (.inst i) := by
  refine setHeap (f := fun h => h.newInstance c) (fun h s => ?_) fun m hw hm => ⟨?_, ?_⟩
  · cases s with
    | inst => exact Nat.le_of_lt (h.instances.size_lt_alloc _)
    | _ => exact Nat.le_refl _
  · exact hm.heap.newInstance ((hc (.klass c)).mono hw)
  · exact admits_inst ⟨hm.fresh (Nat.le_refl _), m.heap.instances.size_lt_alloc _⟩

/-! ## Names -/

theorem lookup (x : String) : X.Frames w names S (Eval.lookup x) X.Admits := by
  intro m hw hm
  rw [Eval.lookup_eq]
  show ∃ r n, Eval.found x (m.env.lookup? x) m = _ ∧ _
  cases hv : m.env.lookup? x with
  | none => exact fail (.undefinedVariable x) m hw hm
  | some v =>
    obtain ⟨⟨owner, b⟩, hb, rfl⟩ := Option.map_eq_some_iff.mp hv
    have hvalue := (hm.env.findWithin hm.env.current hb).2
    exact ⟨.ok b.value, m, rfl, hm, .of_scopes (le_refl _) rfl rfl rfl, hvalue⟩

/-- Binding a name in a scope, where that is allowed. -/
theorem defineIn (names : List String) (mode : Mode) {m : Machine} (hm : X.Holds m) {r : Ref .scope}
    (hr : r.index < m.size .scope) {x : String} {v : Value} (hv : X.Admits m.size v)
    (h : Kept (if r = m.env.current then names else []) (r = m.env.globals) (m.env.bindings r)
      ((m.env.bindings r).insert x ⟨v, mode⟩)) :
    X.Holds { m with env := m.env.defineIn r x v mode } ∧
      m.Changes names { m with env := m.env.defineIn r x v mode } :=
  ⟨hm.defineIn r x hv mode, .defineIn hr h⟩

theorem define {x : String} {v : Value} (mode : Mode) (hx : x ∈ names) (hv : X.Admits w v) :
    X.Frames w names S (Eval.define x v mode) fun _ _ => True := by
  refine step fun m hw hm => ?_
  have hkept : Kept (if m.env.current = m.env.current then names else [])
      (m.env.current = m.env.globals) (m.env.bindings m.env.current)
      ((m.env.bindings m.env.current).insert x ⟨v, mode⟩) := by
    rw [if_pos rfl]
    exact .insert_declared hx _
  obtain ⟨hn, hchange⟩ := defineIn names mode hm hm.env.current.2 (hv.mono hw) hkept
  exact ⟨hn, hchange, trivial⟩

/-- An assignment replaces the value of a name that is bound as mutable, or makes a global name of
one that is not bound in the global scope either. -/
theorem assign (x : String) {v : Value} (hv : X.Admits w v) :
    X.Frames w names S (Eval.assign x v) fun _ _ => True := by
  intro m hw hm
  have hv := hv.mono hw
  rw [Eval.assign_eq]
  show ∃ r n, Eval.store x v (m.env.assignable m.env.current x) m = _ ∧ _
  unfold Environment.assignable
  cases hfound : m.env.find? m.env.current x with
  | none =>
    obtain ⟨hunbound, -⟩ :=
      hm.current_leads.find?_defineIn hm.globals_stored hm.env.current.2 hfound v .mutable
    obtain ⟨hn, hchange⟩ := defineIn names .mutable hm hm.globals_stored hv
      (.insert_fresh rfl hunbound v)
    exact ⟨.ok (), _, rfl, hn, hchange, trivial⟩
  | some found =>
    obtain ⟨owner, ⟨value, mode⟩⟩ := found
    cases mode with
    | constant =>
      exact fail (Q := fun _ (_ : Unit) => True) (.immutableBinding x) m hw hm
    | mutable =>
      have howner := (hm.env.findWithin hm.env.current hfound).1
      obtain ⟨hn, hchange⟩ := defineIn names .mutable hm howner.2 hv
        (.insert_mutable (Environment.get?_of_findWithin hfound) rfl v)
      exact ⟨.ok (), _, rfl, hn, hchange, trivial⟩

/-! ## Scopes -/

/-- What happens in a new scope is not seen from outside. -/
theorem within {parent : Ref .scope} (names' : List String) (hp : X.Known w parent)
    (h : ∀ w', w ≤ w' → X.Frames w' names' S act Q) :
    X.Frames w names S (Eval.newScope parent >>= fun r => Eval.inScope r act) Q := by
  intro m hw hm
  let inner : Machine :=
    { m with env := (m.env.newScope (some parent)).2.enter m.env.scopes.next }
  obtain ⟨hscoped, hnext⟩ := hm.newScope (hp.mono hw)
  have hinner : X.Holds inner := hscoped.congr rfl rfl rfl hnext
  have hsize : m.size ≤ inner.size := Region.Holds.size_newScope m (some parent)
  obtain ⟨r, n, hr, hn, hchange, hyields⟩ := h m.size hw inner hsize hinner
  let left : Machine := { n with env := n.env.enter m.env.current }
  have hcurrent : X.Known n.size m.env.current := hm.env.current.mono (hsize.trans hchange.size)
  refine ⟨r, left, ?_, hn.congr rfl rfl rfl hcurrent, ?_, hyields⟩
  · show Eval.inScope m.env.scopes.next act
      { m with env := (m.env.newScope (some parent)).2 } = _
    exact Eval.inScope_of_ending hr
  · have hnew := Machine.Changes.newScope names m (some parent)
    have hold {r : Ref .scope} (hr : r.index < m.size .scope) : r ≠ m.env.scopes.next := by
      rintro rfl
      exact Nat.lt_irrefl _ hr
    exact {
      size := hsize.trans hchange.size
      current := rfl
      globals := hchange.globals
      parent := fun hr =>
        (hchange.parent (Nat.lt_of_lt_of_le hr (hsize _))).trans (hnew.parent hr)
      bindings := fun {r} hr => by
        have hkept : Kept (if r = m.env.scopes.next then names' else []) (r = m.env.globals)
            (inner.env.bindings r) (n.env.bindings r) :=
          hchange.bindings (Nat.lt_of_lt_of_le hr (hsize _))
        rw [if_neg (hold hr)] at hkept
        exact (hnew.bindings hr).trans (hkept.mono (List.nil_subset _)) }

theorem newReceiverScope {parent : Ref .scope} {v : Value} (hp : X.Known w parent)
    (hv : X.Admits w v) :
    X.Frames w names S (Eval.newReceiverScope parent v) fun w r => X.Known w r := by
  intro m hw hm
  let made : Machine := { m with env := (m.env.newScope (some parent)).2 }
  let bound : Machine :=
    { made with env := made.env.defineIn m.env.scopes.next "this" v .constant }
  obtain ⟨hmade, hnext⟩ := hm.newScope (hp.mono hw)
  have hsize : m.size ≤ made.size := Region.Holds.size_newScope m (some parent)
  have hbound : X.Holds bound :=
    hmade.defineIn m.env.scopes.next "this" (hv.mono (hw.trans hsize)) .constant
  have hsize' : bound.size = made.size :=
    made.size_defineIn m.env.scopes.next "this" v .constant
  have hnew := Machine.Changes.newScope names m (some parent)
  refine ⟨.ok m.env.scopes.next, bound, rfl, hbound, ?_, hnext.1, ?_⟩
  · exact {
      size := hsize.trans hsize'.ge
      current := rfl
      globals := rfl
      parent := fun hlt => (made.env.parent?_defineIn _ _ _ _ _).trans (hnew.parent hlt)
      bindings := fun {s} hlt => by
        have hold : s ≠ m.env.scopes.next := by
          rintro rfl
          exact Nat.lt_irrefl _ hlt
        show Kept _ _ _ ((made.env.defineIn m.env.scopes.next "this" v .constant).bindings s)
        rw [made.env.bindings_defineIn hnext.2, if_neg hold]
        exact hnew.bindings hlt }
  · rw [hsize']
    exact hnext.2

/-! ## Evaluations that run others -/

/-- An evaluation that runs another one, and changes its result by `t`. -/
theorem map {act' : Eval β} (t : Except Stop α → Except Stop β)
    (hact : ∀ m n r, act m = Eval.ending r n → act' m = Eval.ending (t r) n)
    (ht : ∀ w r, Yields (S w) (Q w) r → Yields (S' w) (R w) (t r))
    (h : X.Frames w names S act Q) : X.Frames w names S' act' R := by
  intro m hw hm
  obtain ⟨r, n, hr, hn, hchange, hyields⟩ := h m hw hm
  exact ⟨t r, n, hact m n r hr, hn, hchange, ht _ r hyields⟩

theorem located (p : Position) (h : X.Frames w names S act Q) :
    X.Frames w names S (Eval.located p act) Q := by
  refine h.map (locatedResult p) (fun _ _ _ hr => Eval.located_of_ending p hr) fun w r hr => ?_
  match r with
  | .ok _ => exact hr
  | .error (.signal _) => exact hr
  | .error (.failure _) => trivial
  | .error (.unfinished _) => trivial

theorem inCall (h : X.Frames w names S act Q) : X.Frames w names S (Eval.inCall act) Q := by
  intro m hw hm
  by_cases hfull : m.env.callLimit ≤ m.env.callDepth
  · exact ⟨.error (.failure ⟨.stackOverflow (m.env.callDepth + 1) m.env.callLimit, none⟩), m,
      Eval.inCall_of_full act hfull, hm, .of_scopes (le_refl _) rfl rfl rfl, trivial⟩
  · let begun : Machine := { m with env := { m.env with callDepth := m.env.callDepth + 1 } }
    have hbegun : X.Holds begun := hm.congr rfl rfl rfl hm.env.current
    obtain ⟨r, n, hr, hn, hchange, hyields⟩ := h begun hw hbegun
    let ended : Machine := { n with env := n.env.exitCall }
    refine ⟨r, ended, Eval.inCall_of_ending (Nat.not_le.mp hfull) hr,
      hn.congr rfl rfl rfl hn.env.current, ?_, hyields⟩
    exact ⟨hchange.size, hchange.current, hchange.globals, hchange.parent, hchange.bindings⟩

theorem settling {act : Eval Value} {js : List Jump}
    {settle : Except Stop Value → Except Stop Value}
    (hsettle : settle = callResult ∨ settle = programResult)
    (h : X.Frames w names (fun w => Signal.Leaving (X.Admits w) js) act X.Admits) :
    X.Frames w names S (Eval.settling settle act) X.Admits := by
  have settled (w : Sizes) : ∀ s, Signal.Leaving (X.Admits w) js s →
      Yields (S w) (X.Admits w) s.settle
    | .returned _, hs => hs
    | .broke _, _ => trivial
    | .continued _, _ => trivial
  refine h.map settle (fun _ _ _ hr => Eval.settling_of_ending hr) fun w r hr => ?_
  rcases hsettle with rfl | rfl
  · match r with
    | .ok _ => exact admits_of_plain (v := .undefined) trivial
    | .error (.signal s) => exact settled w s hr
    | .error (.failure _) => trivial
    | .error (.unfinished _) => trivial
  · match r with
    | .ok _ => exact hr
    | .error (.signal s) => exact settled w s hr
    | .error (.failure _) => trivial
    | .error (.unfinished _) => trivial

theorem loopBody {body : Eval Value} {Q : Sizes → Value → Prop} {js : List Jump} (js' : List Jump)
    (h : X.Frames w names (fun w => Signal.Leaving (X.Admits w) js) (Eval.inNewScope body) Q) :
    X.Frames w names (fun w => Signal.Leaving (X.Admits w) js') (Eval.loopBody body)
      fun _ _ => True := by
  refine h.map loopResult (fun _ _ _ hr => Eval.loopBody_of_ending hr) fun w r hr => ?_
  match r with
  | .ok _ => trivial
  | .error (.signal (.returned _)) => exact hr
  | .error (.signal (.broke _)) => trivial
  | .error (.signal (.continued _)) => trivial
  | .error (.failure _) => trivial
  | .error (.unfinished _) => trivial

end Region.Frames

/-! ## The calculus -/

open Region in
/-- What evaluation does to the scopes of machines that keep to the region, as a calculus. -/
def Region.framing (X : Region) : Calculus where
  World := Sizes
  routine _ := True
  node _ := True
  jump _ := True
  value := X.Admits
  scope w r := X.Known w r
  heap w h := w .inst = h.instances.size ∧ w .klass = h.classes.size ∧ X.HoldsHeap w h
  Meets w _ names S act Q := X.Frames w names S act Q
  made _ _ _ := trivial
  body _ _ _ := trivial
  bodyJump _ _ _ := trivial
  value_mono hw hv := hv.mono hw
  scope_mono hw hr := hr.mono hw
  plain hv := admits_of_plain hv
  closed h := h.2.2.closed h.1 h.2.1
  closure _ _ hs := admits_function hs nofun
  calledRoutine _ := trivial
  calledScope hf := hf (.scope _)
  calledReceiver hf hv _ _ hr := hf (.receiver hv hr)
  pure h := .of_ending (r := .ok _) (fun _ => rfl) h
  bind h hf := h.bind hf
  mono h := h.mono
  signal h := .of_ending (r := .error (.signal _)) (fun _ => rfl) h
  fail _ := .fail _
  look h := fun m hw hm =>
    h m.size hw m.view ⟨rfl, rfl, hm.heap⟩ hm.env.current m (le_refl _) hm
  log _ := .aside (fun _ => rfl) (fun _ => rfl) (fun _ => rfl) fun _ => rfl
  begun := .begun
  lookup := .lookup
  assign x _ hv := .assign x hv
  define mode hx hv := .define mode hx hv
  write place _ hv := .write place hv
  newArray := .newArray
  newObject := .newObject
  newClass _ hc := .newClass hc
  newInstance := .newInstance
  print _ := .ask _
  fetch _ := .ask _
  save _ _ := .ask _
  interrupt := .aside (fun _ => rfl) (fun _ => rfl) (fun _ => rfl) fun _ => rfl
  numbered := .aside (fun _ => rfl) (fun _ => rfl) (fun _ => rfl) fun _ => rfl
  located _ h := h.located _
  newReceiverScope := .newReceiverScope
  within names' hp h := .within names' hp h
  inCall h := h.inCall
  settling hsettle _ h := h.settling hsettle
  loopBody js' h := h.loopBody js'
  uncalled := .of_ending (r := .error (.unfinished .outOfFuel)) (fun _ => rfl) fun _ _ => trivial
  repeated _ _ :=
    .of_ending (r := .error (.unfinished .outOfFuel)) (fun _ => rfl) fun _ _ => trivial

/-! ## Evaluation on a rooted machine -/

theorem Eval.after_of_ending {α : Type} {act : Eval α} {m n : Machine} {r : Except Stop α}
    (h : act m = Eval.ending r n) : act.after m = n := by
  unfold Eval.after
  rw [h]
  cases r <;> rfl

namespace Region.Frames

variable {X : Region} {names : List String} {S : Sizes → Signal → Prop} {α : Type} {act : Eval α}
  {Q : Sizes → α → Prop} {m n : Machine}

theorem ended (h : X.Frames m.size names S act Q) (hm : X.Holds m) {r : Except Stop α}
    (hr : act m = Eval.ending r n) :
    X.Holds n ∧ m.Changes names n ∧ Yields (S n.size) (Q n.size) r := by
  obtain ⟨r', n', hr', hn, hchange, hyields⟩ := h m (le_refl _) hm
  obtain ⟨rfl, rfl⟩ := Eval.ending_inj (hr'.symm.trans hr)
  exact ⟨hn, hchange, hyields⟩

/-- Evaluation keeps a machine in the region, and changes no scopes but where that is allowed. -/
theorem after (h : X.Frames m.size names S act Q) (hm : X.Holds m) :
    X.Holds (act.after m) ∧ m.Changes names (act.after m) := by
  obtain ⟨r, n, hr⟩ := Eval.exists_ending act m
  rw [Eval.after_of_ending hr]
  obtain ⟨hn, hchange, -⟩ := h.ended hm hr
  exact ⟨hn, hchange⟩

/-- An evaluation that makes a value keeps the machine rooted, with the value. -/
theorem rooted_cons {held : List Value} {act : Eval Value} {v : Value}
    (h : (m.region held).Frames m.size names S act (m.region held).Admits) (hm : m.Rooted held)
    (hv : act m = .ok v n) : n.Rooted (v :: held) := by
  obtain ⟨hn, hchange, hvalue⟩ := h.ended (r := .ok v) hm.holds hv
  refine hn.rooted fun u hu => ?_
  rcases List.mem_cons.mp hu with rfl | hu
  · exact hvalue
  · exact (hm.admits u hu).mono hchange.size

end Region.Frames

namespace Region

variable (X : Region) (fuel n : Nat) {w : Sizes}

theorem frames_expr (e : Expr) {names : List String} {S : Sizes → Signal → Prop} :
    X.Frames w names S (evalExpr (.of fuel n) e) X.Admits :=
  Calculus.expr (C := X.framing) (X.framing.calls fuel) e fun _ _ => trivial

theorem frames_stmt (s : Stmt) : X.Frames w s.declared
    (fun w => Signal.Leaving (X.Admits w) s.jumps) (evalStmt (.of fuel n) s) X.Admits :=
  Calculus.stmt (C := X.framing) (X.framing.calls fuel) s fun _ _ => trivial

theorem frames_call {v : Value} (hv : X.Admits w v) {args : List Value}
    (ha : ∀ a ∈ args, X.Admits w a) {names : List String} {S : Sizes → Signal → Prop} :
    X.Frames w names S (callValue fuel v args) X.Admits :=
  X.framing.calls fuel w names S hv ha

theorem frames_program (p : Program) {S : Sizes → Signal → Prop} :
    X.Frames w (stmtsDeclared p.statements) S (runProgram fuel p) X.Admits := by
  unfold runProgram
  refine .bind (Q := fun _ _ => True) ?_ fun w' _ _ _ => ?_
  · exact .aside (fun _ => rfl) (fun _ => rfl) (fun _ => rfl) fun _ => rfl
  · exact X.framing.settled (w := w') fuel (fun _ _ => trivial) fun _ _ => trivial

end Region

/-- An expression declares nothing. -/
theorem Region.Holds.expr_ended {X : Region} {m m' : Machine} (hm : X.Holds m) {fuel n : Nat}
    {e : Expr} {r : Except Stop Value} (h : evalExpr (.of fuel n) e m = Eval.ending r m') :
    X.Holds m' ∧ m.Changes [] m' ∧ Yields (fun _ => True) (X.Admits m'.size) r :=
  (X.frames_expr fuel n e (S := fun _ _ => True)).ended hm h

end Scriptlet
