import Scriptlet.Proofs.Timeline.Builtins
import Scriptlet.Proofs.Timeline.Plans

/-!
# What happens during an evaluation

An `Episode` is the evaluation of one expression or statement or one call, with the machine at
its beginning and at its end and with all that it happens within. `Plan.episodes` lists the
episodes of an evaluation in the order in which they begin, so right after each come those
within it.

`Course` says which lists of episodes there can be, with one rule for each way in which an
evaluation goes on. Every evaluation takes such a course (`Plan.course`), and what holds of the
episodes of all evaluations is proved of courses by induction.
-/

namespace Scriptlet

/-- The machine after a call of a function has begun and has been logged. -/
def Machine.calling (m : Machine) (f : Function) : Machine :=
  { m with
    env := { m.env with callDepth := m.env.callDepth + 1 }
    events := m.events.push (.functionCalled f.routine.name (m.env.callDepth + 1)) }

/-- Something that begins and ends: an expression, a statement or a call. -/
inductive Frame where
  | node (x : Node)
  | function (f : Function) (args : List Value)
  | builtin (b : Builtin) (args : List Value)

namespace Frame

/-- Whether it is a call. -/
def isCall : Frame → Bool
  | node _ => false
  | function .. | builtin .. => true

/-- Whether calls may stand directly in it. -/
def isSite : Frame → Bool
  | node x => x.isCall
  | function .. | builtin .. => false

/-- What is logged when it begins on the machine. A call that is refused is not logged. -/
def logged : Frame → Machine → List Event
  | node (.expr _), _ => []
  | node (.stmt s), m => if m.settings.tracing then [.statement s.kindName s.position] else []
  | function f args, m =>
    if args.length = f.routine.params.length ∧ m.env.callDepth < m.env.callLimit then
      [.functionCalled f.routine.name (m.env.callDepth + 1)]
    else []
  | builtin b args, _ =>
    if b.primitive.accepts args.length then [.builtinCalled b.primitive.name args.length] else []

/-- Whether something else may happen within it when it begins on the machine. -/
def opens : Frame → Machine → Bool
  | node _, m => !m.interrupted
  | function f args, m =>
    args.length = f.routine.params.length ∧ m.env.callDepth < m.env.callLimit
  | builtin .., _ => false

/-- The machine on which what is within it begins. -/
def begun : Frame → Machine → Machine
  | node x, m => x.begun m
  | function f _, m => m.calling f
  | builtin b args, m => m.serving b args

/-- Its result, given that of what is within it. -/
def settle : Frame → Except Stop Value → Except Stop Value
  | node x, r => locatedResult x.position r
  | function .., r => callResult r
  | builtin .., r => r

/-- The machine at its end, given that at the end of what is within it. -/
def ended : Frame → Machine → Machine
  | function .., n => { n with env := n.env.exitCall }
  | node _, n | builtin .., n => n

end Frame

/-- It ends, and nothing else has happened within it. -/
inductive Frame.AtOnce : Frame → Machine → Except Stop Value → Machine → Prop
  | interrupted {x : Node} {m : Machine} : m.interrupted = true →
    AtOnce (.node x) m (.error (.failure ⟨.interrupted, some x.position⟩)) (x.begun m)
  | mismatched {f : Function} {args : List Value} {m : Machine} :
    args.length ≠ f.routine.params.length → AtOnce (.function f args) m (.error (.failure
      ⟨.arityMismatch f.routine.name f.routine.params.length args.length, none⟩)) m
  | overflowing {f : Function} {args : List Value} {m : Machine} :
    args.length = f.routine.params.length → m.env.callLimit ≤ m.env.callDepth →
    AtOnce (.function f args) m
      (.error (.failure ⟨.stackOverflow (m.env.callDepth + 1) m.env.callLimit, none⟩)) m
  | served {b : Builtin} {args : List Value} {m n : Machine} {r : Except Stop Value} :
    callBuiltin b args m = Eval.ending r n → AtOnce (.builtin b args) m r n

/-- One thing that happened during an evaluation. -/
structure Episode where
  /-- What it happened within, the innermost first. -/
  outer : List Frame
  frame : Frame
  /-- The machine when it began. -/
  start : Machine
  result : Except Stop Value
  /-- The machine when it ended. -/
  finish : Machine
  /-- How many episodes began within it. -/
  inner : Nat

/-- What was logged when the episode began. -/
def Episode.logged (E : Episode) : List Event := E.frame.logged E.start

/-- The episode in which `act` was evaluated, and those within it. -/
def Episode.listed (outer : List Frame) (F : Frame) (act : Eval Value) (m : Machine)
    (inside : List Episode) : List Episode :=
  match act m with
  | .ok v n => ⟨outer, F, m, .ok v, n, inside.length⟩ :: inside
  | .error e n => ⟨outer, F, m, .error e, n, inside.length⟩ :: inside

/-- The machine in a new scope within `parent`. -/
def Machine.within (m : Machine) (parent : Ref .scope) : Machine :=
  { m with env := (m.env.newScope (some parent)).2.enter (m.env.newScope (some parent)).1 }

/-- The machine back in the scope in which `m` is. -/
def Machine.backIn (n m : Machine) : Machine := { n with env := n.env.enter m.env.current }

/-- The episodes of an evaluation that happens within `outer`, as they begin. -/
def Plan.episodes : {site : Bool} → {α : Type} → Plan site α → (outer : List Frame) → Machine →
    List Episode
  | _, _, .quiet .., _, _ => []
  | _, _, .bind p f, outer, m => p.episodes outer m ++
    match p.run m with
    | .ok a n => (f a).episodes outer n
    | .error .. => []
  | _, _, .within parent p, outer, m => p.episodes outer (m.within parent)
  | _, _, .loopBody p, outer, m => p.episodes outer (m.within m.env.current)
  | _, _, .node x p, outer, m =>
    let F := Frame.node x
    Episode.listed outer F (Eval.atNode x p.run) m
      (if F.opens m then p.episodes (F :: outer) (F.begun m) else [])
  | _, _, .function f args p, outer, m =>
    let F := Frame.function f args
    Episode.listed outer F (Eval.called f args p.run) m
      (if F.opens m then p.episodes (F :: outer) (F.begun m) else [])
  | _, _, .builtin b args, outer, m =>
    Episode.listed outer (.builtin b args) (callBuiltin b args) m []

/-- The ways in which an evaluation within `outer`, begun on one machine, goes through episodes to
a result and another machine. -/
inductive Course : (site : Bool) → (outer : List Frame) → {α : Type} → Machine → List Episode →
    Except Stop α → Machine → Prop
  | quiet {site : Bool} {outer : List Frame} {α : Type} {m n : Machine} {r : Except Stop α} :
    m.Beside n → (∀ e, r = .error e → e.Slight) → Course site outer m [] r n
  | next {site : Bool} {outer : List Frame} {α β : Type} {m n o : Machine} {eps eps' : List Episode}
    {a : α} {r : Except Stop β} : Course site outer m eps (.ok a) n →
    Course site outer n eps' r o → Course site outer m (eps ++ eps') r o
  | stop {site : Bool} {outer : List Frame} {α β : Type} {m n : Machine} {eps : List Episode}
    {e : Stop} : Course site outer m eps (.error e : Except Stop α) n →
    Course site outer m eps (.error e : Except Stop β) n
  | within {site : Bool} {outer : List Frame} {α : Type} {m n : Machine} {eps : List Episode}
    {r : Except Stop α} (parent : Ref .scope) : Course site outer (m.within parent) eps r n →
    Course site outer m eps r (n.backIn m)
  | caught {site : Bool} {outer : List Frame} {m n : Machine} {eps : List Episode}
    {r : Except Stop Value} : Course site outer m eps r n →
    Course site outer m eps (loopResult r) n
  /-- Something begins and ends at once. -/
  | leaf {site : Bool} {outer : List Frame} {m n : Machine} {r : Except Stop Value} {F : Frame} :
    (F.isCall = true → site = true) → F.AtOnce m r n →
    Course site outer m [⟨outer, F, m, r, n, 0⟩] r n
  /-- Something happens, and other things within it. -/
  | frame {site : Bool} {outer : List Frame} {m n : Machine} {eps : List Episode}
    {r : Except Stop Value} {F : Frame} : (F.isCall = true → site = true) → F.opens m = true →
    Course F.isSite (F :: outer) (F.begun m) eps r n →
    Course site outer m (⟨outer, F, m, F.settle r, F.ended n, eps.length⟩ :: eps) (F.settle r)
      (F.ended n)

/-! ## Every evaluation takes a course -/

/-- All that beginning an expression or a statement does is to log it. -/
theorem Node.exists_begun (x : Node) (m : Machine) : ∃ es, x.begun m = { m with events := es } := by
  cases x with
  | expr e => exact ⟨m.events, rfl⟩
  | stmt s => exact ⟨_, s.begun_eq m⟩

theorem Node.interrupted_begun (x : Node) (m : Machine) :
    (x.begun m).interrupted = m.interrupted := by
  obtain ⟨_, hbegun⟩ := x.exists_begun m
  rw [hbegun]

namespace Eval

variable {α : Type} {m n : Machine}

theorem within_of_ending {parent : Ref .scope} {act : Eval α} {r : Except Stop α}
    (h : act (m.within parent) = ending r n) :
    (newScope parent >>= fun s => inScope s act) m = ending r (n.backIn m) := by
  show inScope (m.env.newScope (some parent)).1 act
    { m with env := (m.env.newScope (some parent)).2 } = _
  exact inScope_of_ending h

theorem atNode_of_interrupted (x : Node) (act : Eval Value) (hm : m.interrupted = true) :
    atNode x act m = ending (.error (.failure ⟨.interrupted, some x.position⟩)) (x.begun m) := by
  have hbegun : (x.begun m).interrupted = true := (x.interrupted_begun m).trans hm
  have hchecked : (checkInterrupt >>= fun _ => act) (x.begun m) =
      ending (.error (.failure ⟨.interrupted, none⟩)) (x.begun m) :=
    bind_error (by rw [checkInterrupt_apply, if_pos hbegun]; rfl)
  exact located_of_ending x.position hchecked

theorem atNode_of_ending {x : Node} {act : Eval Value} {r : Except Stop Value}
    (hm : m.interrupted = false) (h : act (x.begun m) = ending r n) :
    atNode x act m = ending (locatedResult x.position r) n := by
  have hbegun : ¬ (x.begun m).interrupted = true := by
    rw [x.interrupted_begun m, hm]
    exact Bool.false_ne_true
  have hchecked : (checkInterrupt >>= fun _ => act) (x.begun m) = ending r n :=
    (bind_ok (by rw [checkInterrupt_apply, if_neg hbegun]; rfl)).trans h
  exact located_of_ending x.position hchecked

theorem called_of_mismatched {f : Function} {args : List Value} (body : Eval Value) (m : Machine)
    (h : args.length ≠ f.routine.params.length) : called f args body m = ending (.error (.failure
      ⟨.arityMismatch f.routine.name f.routine.params.length args.length, none⟩)) m := by
  unfold called
  rw [if_pos h]
  rfl

/-- With as many arguments as parameters, a call begins. -/
theorem called_of_matched {f : Function} {args : List Value} (body : Eval Value)
    (h : args.length = f.routine.params.length) : called f args body =
      settling callResult (inCall do
        let m ← MonadState.get
        log (.functionCalled f.routine.name m.env.callDepth)
        body) := by
  unfold called
  rw [if_neg (not_not_intro h)]

theorem called_of_full {f : Function} {args : List Value} (body : Eval Value)
    (h : args.length = f.routine.params.length) (hfull : m.env.callLimit ≤ m.env.callDepth) :
    called f args body m = ending
      (.error (.failure ⟨.stackOverflow (m.env.callDepth + 1) m.env.callLimit, none⟩)) m := by
  rw [called_of_matched body h]
  exact settling_of_ending (inCall_of_full _ hfull)

theorem called_of_ending {f : Function} {args : List Value} {body : Eval Value}
    {r : Except Stop Value} (hopens : (Frame.function f args).opens m = true)
    (h : body ((Frame.function f args).begun m) = ending r n) :
    called f args body m = ending (callResult r) { n with env := n.env.exitCall } := by
  obtain ⟨hargs, hroom⟩ := of_decide_eq_true hopens
  rw [called_of_matched body hargs]
  refine settling_of_ending (inCall_of_ending hroom ?_)
  exact h

end Eval

theorem Episode.listed_of_ending {outer : List Frame} {F : Frame} {act : Eval Value}
    {m n : Machine} {r : Except Stop Value} (h : act m = Eval.ending r n)
    (inside : List Episode) :
    listed outer F act m inside = ⟨outer, F, m, r, n, inside.length⟩ :: inside := by
  unfold listed
  rw [h]
  cases r <;> rfl

/-- Every evaluation takes a course, through its episodes. -/
theorem Plan.course {site : Bool} {α : Type} (p : Plan site α) (outer : List Frame) (m : Machine) :
    ∃ r n, p.run m = Eval.ending r n ∧ Course site outer m (p.episodes outer m) r n := by
  induction p generalizing outer m with
  | quiet act h =>
    obtain ⟨r, n, hr, hbeside, hslight⟩ := h.moves m
    exact ⟨r, n, hr, .quiet hbeside hslight⟩
  | bind p f ihp ihf =>
    obtain ⟨r, n, hr, hcourse⟩ := ihp outer m
    cases r with
    | error e =>
      refine ⟨.error e, n, Eval.bind_error hr, ?_⟩
      rw [episodes, hr]
      dsimp only [Eval.ending]
      rw [List.append_nil]
      exact .stop hcourse
    | ok a =>
      obtain ⟨r, o, hr', hcourse'⟩ := ihf a outer n
      refine ⟨r, o, (Eval.bind_ok hr).trans hr', ?_⟩
      rw [episodes, hr]
      exact .next hcourse hcourse'
  | within parent p ih =>
    obtain ⟨r, n, hr, hcourse⟩ := ih outer (m.within parent)
    exact ⟨r, n.backIn m, Eval.within_of_ending hr, .within parent hcourse⟩
  | loopBody p ih =>
    obtain ⟨r, n, hr, hcourse⟩ := ih outer (m.within m.env.current)
    exact ⟨loopResult r, n.backIn m, Eval.loopBody_of_ending (Eval.within_of_ending hr),
      .caught (.within m.env.current hcourse)⟩
  | node x p ih =>
    rw [episodes]
    cases hm : m.interrupted with
    | true =>
      have hr := Eval.atNode_of_interrupted x p.run hm
      have hopens : (Frame.node x).opens m = false := by rw [Frame.opens, hm]; rfl
      refine ⟨_, _, hr, ?_⟩
      rw [Episode.listed_of_ending hr, hopens]
      exact .leaf nofun (.interrupted hm)
    | false =>
      have hopens : (Frame.node x).opens m = true := by rw [Frame.opens, hm]; rfl
      obtain ⟨r, n, hr, hcourse⟩ := ih (.node x :: outer) ((Frame.node x).begun m)
      have hr := Eval.atNode_of_ending hm hr
      refine ⟨_, _, hr, ?_⟩
      rw [Episode.listed_of_ending hr, if_pos hopens]
      exact .frame nofun hopens hcourse
  | function f args p ih =>
    rw [episodes]
    cases hopens : (Frame.function f args).opens m with
    | true =>
      obtain ⟨r, n, hr, hcourse⟩ :=
        ih (.function f args :: outer) ((Frame.function f args).begun m)
      have hr := Eval.called_of_ending hopens hr
      refine ⟨_, _, hr, ?_⟩
      rw [Episode.listed_of_ending hr, if_pos rfl]
      exact .frame (fun _ => rfl) hopens hcourse
    | false =>
      by_cases hargs : args.length = f.routine.params.length
      · have hfull : m.env.callLimit ≤ m.env.callDepth :=
          Nat.le_of_not_lt fun hroom => of_decide_eq_false hopens ⟨hargs, hroom⟩
        have hr := Eval.called_of_full p.run hargs hfull
        refine ⟨_, _, hr, ?_⟩
        rw [Episode.listed_of_ending hr]
        exact .leaf (fun _ => rfl) (.overflowing hargs hfull)
      · have hr := Eval.called_of_mismatched p.run m hargs
        refine ⟨_, _, hr, ?_⟩
        rw [Episode.listed_of_ending hr]
        exact .leaf (fun _ => rfl) (.mismatched hargs)
  | builtin b args =>
    obtain ⟨r, n, hr⟩ := Eval.exists_ending (callBuiltin b args) m
    refine ⟨r, n, hr, ?_⟩
    rw [episodes, Episode.listed_of_ending hr]
    exact .leaf (fun _ => rfl) (.served hr)

end Scriptlet
