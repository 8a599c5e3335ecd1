import Mathlib.Data.List.Chain
import Scriptlet.Proofs.Timeline.Courses

/-!
# How deep calls nest

The call depth of the environment is the number of functions that are being called, lambdas,
methods and constructors among them (`Course.depth`). It stays within the limit, and the log shows
it: from one call to the next the depth grows by one at most (`Climbs`). An overflow is
raised where a function is called with the limit reached, and nowhere else
(`Course.exists_overflow`).
-/

namespace Scriptlet

/-- Whether a call of a function is in progress in the frame. -/
def Frame.isFunction : Frame → Bool
  | .function .. => true
  | .node _ | .builtin .. => false

/-- How many calls of functions are in progress. -/
def openCalls (frames : List Frame) : Nat := frames.countP Frame.isFunction

/-- The depth that the log gives for a call of a function. -/
def Event.depth? : Event → Option Nat
  | .functionCalled _ depth => some depth
  | _ => none

/-- The depths of calls that are logged one after the other when `depth` calls are in progress. -/
structure Climbs (depth limit : Nat) (ds : List Nat) : Prop where
  first : ∀ d ∈ ds.head?, d = depth + 1
  range : ∀ d ∈ ds, depth < d ∧ d ≤ limit
  steps : ds.IsChain fun d d' => d' ≤ d + 1

namespace Climbs

variable {depth limit : Nat} {ds ds' : List Nat}

theorem nil : Climbs depth limit [] := ⟨nofun, nofun, .nil⟩

/-- What comes after calls that are over begins one above the depth, and they were not below. -/
theorem append (h : Climbs depth limit ds) (h' : Climbs depth limit ds') :
    Climbs depth limit (ds ++ ds') where
  first := by
    cases ds with
    | nil => exact h'.first
    | cons d ds => exact h.first
  range := List.forall_mem_append.mpr ⟨h.range, h'.range⟩
  steps := by
    refine h.steps.append h'.steps fun d hd d' hd' => ?_
    have hlow := (h.range d (List.mem_of_mem_getLast? hd)).1
    rw [h'.first d' hd']
    exact Nat.succ_le_succ hlow.le

/-- The calls in a call come after it. -/
theorem call (hroom : depth < limit) (h : Climbs (depth + 1) limit ds) :
    Climbs depth limit ((depth + 1) :: ds) where
  first d hd := (Option.mem_some_iff.mp hd).symm
  range := by
    refine List.forall_mem_cons.mpr ⟨⟨Nat.lt_succ_self depth, hroom⟩, fun d hd => ?_⟩
    exact ⟨Nat.lt_of_succ_lt (h.range d hd).1, (h.range d hd).2⟩
  steps := h.steps.cons fun d hd => (h.first d hd).le

end Climbs

/-- The depths that the log gives for the calls of functions. -/
def callDepths (es : List Event) : List Nat := es.filterMap Event.depth?

/-- What fails at once is no call of a function that was logged. -/
theorem Frame.AtOnce.callDepths_logged {F : Frame} {m n : Machine} {r : Except Stop Value}
    (h : F.AtOnce m r n) : callDepths (F.logged m) = [] := by
  obtain hnone | ⟨e, he, hlogs⟩ := F.logged_cases m
  · rw [hnone]
    rfl
  · rw [he]
    cases hlogs with
    | statement => rfl
    | builtin => rfl
    | function hargs hroom =>
      cases h with
      | mismatched hne => exact absurd hargs hne
      | overflowing _ hfull => exact absurd hroom (Nat.not_lt.mpr hfull)

/-- What a call of a function adds to the depth. -/
theorem Frame.callDepth_begun (F : Frame) (m : Machine) :
    (F.begun m).env.callDepth = m.env.callDepth + openCalls [F] := by
  cases F with
  | node x => exact congrArg Environment.callDepth (x.env_begun m)
  | function f args => rfl
  | builtin b args => rfl

theorem openCalls_cons (F : Frame) (outer : List Frame) :
    openCalls (F :: outer) = openCalls [F] + openCalls outer := by
  show List.countP Frame.isFunction ([F] ++ outer) = _
  exact List.countP_append

theorem Frame.climbs {F : Frame} {m : Machine} {ds : List Nat} (hopens : F.opens m = true)
    (h : Climbs (F.begun m).env.callDepth (F.begun m).env.callLimit ds) :
    Climbs m.env.callDepth m.env.callLimit (callDepths (F.logged m) ++ ds) := by
  cases F with
  | node x =>
    have henv : ((Frame.node x).begun m).env = m.env := x.env_begun m
    rw [henv] at h
    have hnone : callDepths ((Frame.node x).logged m) = [] := by
      obtain hnone | ⟨e, he, hlogs⟩ := (Frame.node x).logged_cases m
      · rw [hnone]
        rfl
      · rw [he]
        cases hlogs
        rfl
    rw [hnone]
    exact h
  | function f args =>
    have hbegins := of_decide_eq_true hopens
    rw [Frame.logged, if_pos hbegins]
    exact h.call hbegins.2
  | builtin b args => cases hopens

namespace Course

variable {site : Bool} {outer : List Frame} {α : Type} {m n : Machine} {eps : List Episode}
  {r : Except Stop α}

/-- The call depth counts the calls of functions that are in progress. -/
theorem depth (h : Course site outer m eps r n) : ∀ E ∈ eps,
    E.start.env.callDepth + openCalls outer = m.env.callDepth + openCalls E.outer := by
  induction h with
  | quiet => exact fun E hE => absurd hE List.not_mem_nil
  | next h _ ih ih' =>
    intro E hE
    obtain hE | hE := List.mem_append.mp hE
    · exact ih E hE
    · rw [ih' E hE, h.place.callDepth]
  | stop _ ih => exact ih
  | within parent _ ih => exact ih
  | caught _ ih => exact ih
  | leaf =>
    intro E hE
    obtain rfl := List.mem_singleton.mp hE
    rfl
  | @frame _ outer m _ _ _ F _ _ _ ih =>
    intro E hE
    obtain rfl | hE := List.mem_cons.mp hE
    · rfl
    · have hinner := ih E hE
      rw [F.callDepth_begun, openCalls_cons] at hinner
      omega

/-- There is room for every call that is in progress. -/
theorem room (h : Course site outer m eps r n) (hm : m.env.callDepth ≤ m.env.callLimit) :
    ∀ E ∈ eps, E.start.env.callDepth ≤ E.start.env.callLimit := by
  induction h with
  | quiet => exact fun E hE => absurd hE List.not_mem_nil
  | next h _ ih ih' =>
    have hn := h.place.callDepth.le.trans (hm.trans h.onward.callLimit.ge)
    exact fun E hE => (List.mem_append.mp hE).elim (ih hm E) (ih' hn E)
  | stop _ ih => exact ih hm
  | within parent _ ih => exact ih hm
  | caught _ ih => exact ih hm
  | leaf =>
    intro E hE
    obtain rfl := List.mem_singleton.mp hE
    exact hm
  | @frame _ _ m _ _ _ F _ hopens _ ih =>
    intro E hE
    obtain rfl | hE := List.mem_cons.mp hE
    · exact hm
    · refine ih ?_ E hE
      cases F with
      | node x =>
        have henv : ((Frame.node x).begun m).env = m.env := x.env_begun m
        rw [henv]
        exact hm
      | function f args => exact (of_decide_eq_true hopens).2
      | builtin b args => cases hopens

/-- From one logged call of a function to the next, the depth grows by one at most. -/
theorem climbs (h : Course site outer m eps r n) :
    Climbs m.env.callDepth m.env.callLimit (callDepths (eps.flatMap Episode.logged)) := by
  induction h with
  | quiet => exact .nil
  | next h _ ih ih' =>
    rw [h.place.callDepth, h.onward.callLimit] at ih'
    rw [List.flatMap_append, callDepths, List.filterMap_append]
    exact ih.append ih'
  | stop _ ih => exact ih
  | within parent _ ih => exact ih
  | caught _ ih => exact ih
  | leaf _ h =>
    rw [List.flatMap_singleton]
    exact h.callDepths_logged ▸ .nil
  | frame _ hopens _ ih =>
    rw [List.flatMap_cons, callDepths, List.filterMap_append]
    exact Frame.climbs hopens ih

end Course

/-! ## Overflows -/

/-- A function is called with as many arguments as it has parameters. -/
def Episode.CallsFunction (E : Episode) : Prop :=
  ∃ f args, E.frame = .function f args ∧ args.length = f.routine.params.length

/-- No jump becomes an overflow. -/
theorem Signal.settle_ne_overflow {s : Signal} {f : Failure} (hf : f.cause.isOverflow = true) :
    s.settle ≠ .error (.failure f) := by
  rintro h
  cases s <;> cases h <;> cases hf

theorem callResult_overflow {r : Except Stop Value} {f : Failure} (hf : f.cause.isOverflow = true)
    (h : callResult r = .error (.failure f)) : r = .error (.failure f) := by
  match r with
  | .error (.failure _) => exact h
  | .error (.signal s) => exact absurd h (Signal.settle_ne_overflow hf)

theorem programResult_overflow {r : Except Stop Value} {f : Failure}
    (hf : f.cause.isOverflow = true) (h : programResult r = .error (.failure f)) :
    r = .error (.failure f) := by
  match r with
  | .error (.failure _) => exact h
  | .error (.signal s) => exact absurd h (Signal.settle_ne_overflow hf)

theorem loopResult_failure {r : Except Stop Value} {f : Failure}
    (h : loopResult r = .error (.failure f)) : r = .error (.failure f) := by
  match r with
  | .error (.failure _) =>
    cases h
    rfl
  | .error (.signal (.returned _)) => cases h

/-- An overflow that comes out of something comes from within it. -/
theorem Frame.settle_overflow {F : Frame} {r : Except Stop Value} {f : Failure}
    (hf : f.cause.isOverflow = true) (h : F.settle r = .error (.failure f)) :
    ∃ f', r = .error (.failure f') ∧ f'.cause = f.cause ∧ F.locate f' = f := by
  cases F with
  | node x =>
    match r, h with
    | .error (.failure f'), h =>
      cases h
      exact ⟨f', rfl, rfl, rfl⟩
  | function g args => exact ⟨f, callResult_overflow hf h, rfl, rfl⟩
  | builtin b args => exact ⟨f, h, rfl, rfl⟩

/-- On its way out a failure keeps its cause. -/
theorem Failure.exists_through (f : Failure) (frames : List Frame) :
    ∃ position, f.through frames = ⟨f.cause, position⟩ := by
  induction frames generalizing f with
  | nil => exact ⟨f.position, rfl⟩
  | cons F frames ih =>
    have hcause : (F.locate f).cause = f.cause := by cases F <;> rfl
    rw [← hcause]
    exact ih (F.locate f)

namespace Course

variable {site : Bool} {outer : List Frame} {α : Type} {m n : Machine} {eps : List Episode}
  {r : Except Stop α}

/-- Where an overflow comes from: a function was called when the limit was reached. If the failure
does not have its position yet, then the call stands here. -/
theorem exists_overflow (h : Course site outer m eps r n) {f : Failure}
    (hf : f.cause.isOverflow = true) (hr : r = .error (.failure f)) :
    (∃ E ∈ eps, E.CallsFunction ∧ E.start.env.callLimit ≤ E.start.env.callDepth ∧
      f.cause = .stackOverflow (E.start.env.callDepth + 1) E.start.env.callLimit) ∧
    (f.position = none → site = true) := by
  induction h generalizing f with
  | quiet _ hslight =>
    have hnone := (hslight _ hr).2
    rw [hf] at hnone
    cases hnone
  | next _ _ _ ih' =>
    obtain ⟨⟨E, hE, hoverflow⟩, hsite⟩ := ih' hf hr
    exact ⟨⟨E, List.mem_append_right _ hE, hoverflow⟩, hsite⟩
  | stop _ ih =>
    cases hr
    exact ih hf rfl
  | within parent _ ih => exact ih hf hr
  | caught _ ih => exact ih hf (loopResult_failure hr)
  | leaf hcall h =>
    cases h with
    | interrupted =>
      cases hr
      cases hf
    | mismatched =>
      cases hr
      cases hf
    | overflowing hargs hfull =>
      cases hr
      exact ⟨⟨_, List.mem_singleton_self _, ⟨_, _, rfl, hargs⟩, hfull, rfl⟩, fun _ => hcall rfl⟩
    | served h =>
      have hnone := ((callBuiltin_moves _ _ _ h).2.2.2 _ hr).2
      rw [hf] at hnone
      cases hnone
  | @frame _ _ _ _ _ _ F hcall _ _ ih =>
    obtain ⟨f', rfl, hcause, hlocate⟩ := Frame.settle_overflow hf hr
    obtain ⟨⟨E, hE, hcalls, hfull, hdepth⟩, -⟩ := ih (hcause ▸ hf) rfl
    refine ⟨⟨E, List.mem_cons_of_mem _ hE, hcalls, hfull, hcause ▸ hdepth⟩, fun hnone => ?_⟩
    cases F with
    | node x =>
      rw [← hlocate] at hnone
      cases hnone
    | function g args => exact hcall rfl
    | builtin b args => exact hcall rfl

namespace Whole

variable {E : Episode}

theorem place (h : Whole E) : E.start.env.SamePlace E.finish.env := by
  cases h with
  | leaf h =>
    rw [h.env]
    exact .refl _
  | frame hopens h =>
    have hcourse : Course true _ _ _ _ _ := .frame (fun _ => rfl) hopens h
    exact hcourse.place

/-- A call overflows where it stands just if it is a call of a function at the limit. -/
theorem overflow_iff (h : Whole E) {depth limit : Nat} :
    E.result = .error (.failure ⟨.stackOverflow depth limit, none⟩) ↔
      E.CallsFunction ∧ E.start.env.callLimit ≤ E.start.env.callDepth ∧
        depth = E.start.env.callDepth + 1 ∧ limit = E.start.env.callLimit := by
  constructor
  · intro hr
    cases h with
    | leaf h =>
      cases h with
      | interrupted => cases hr
      | mismatched => cases hr
      | overflowing hargs hfull =>
        cases hr
        exact ⟨⟨_, _, rfl, hargs⟩, hfull, rfl, rfl⟩
      | served h => cases ((callBuiltin_moves _ _ _ h).2.2.2 _ hr).2
    | @frame _ F _ _ _ _ hopens h =>
      obtain ⟨f', rfl, hcause, hlocate⟩ := Frame.settle_overflow rfl hr
      cases F with
      | node x => cases congrArg Failure.position hlocate
      | function f args =>
        -- no call stands directly in the body of a function
        cases (h.exists_overflow (hcause ▸ rfl) rfl).2 (congrArg Failure.position hlocate)
      | builtin b args => cases hopens
  · rintro ⟨⟨f, args, hframe, hargs⟩, hfull, rfl, rfl⟩
    cases h with
    | leaf h =>
      cases h with
      | overflowing => rfl
      | mismatched hne =>
        cases hframe
        exact absurd hargs hne
      | interrupted => cases hframe
      | served => cases hframe
    | frame hopens =>
      cases hframe
      exact absurd (of_decide_eq_true hopens).2 (Nat.not_lt.mpr hfull)

end Whole

end Course

/-! ## What does not count -/

theorem Stop.Slight.not_overflows {α : Type} {r : Except Stop α}
    (h : ∀ e, r = .error e → e.Slight) : ¬ Overflows r := by
  intro hr
  match r, hr with
  | .error (.failure f), hr =>
    have hnone := (h _ rfl).2
    rw [show f.cause.isOverflow = true from hr] at hnone
    cases hnone

/-- Making an instance of a class without a constructor changes neither the scopes nor the calls in
progress. -/
theorem instantiate_plain (run : Nat → List Stmt → Eval Value) {c : Ref .klass} (args : List Value)
    {m : Machine} (hc : (m.heap.klass c).methods.get? constructorName = none) :
    ∃ r n, instantiate run c args m = Eval.ending r n ∧ n.env = m.env ∧ ¬ Overflows r := by
  have hnone (i : Ref .inst) : (m.heap.klass c).method? constructorName (.inst i) = none := by
    rw [Class.method?, hc]
    rfl
  have hmake : instantiate run c args m =
      Eval.construct run args (m.heap.newInstance c).1 (m.heap.klass c)
        { m with heap := (m.heap.newInstance c).2 } := rfl
  rw [hmake, Eval.construct, hnone]
  dsimp only
  split
  · exact ⟨.error _, _, rfl, rfl, nofun⟩
  · exact ⟨.ok _, _, rfl, rfl, nofun⟩

/-! ## Runs -/

section

variable {p : Program} {fuel : Nat} {m m' : Machine} {r : Except Stop Value} {E : Episode}

namespace Program

theorem callLimit_start (hrun : runProgram fuel p m = Eval.ending r m')
    (hE : E ∈ p.timeline fuel m) : E.start.env.callLimit = m.settings.callLimit := by
  obtain ⟨_, -, hcourse⟩ := Program.course hrun
  exact (hcourse.between E hE).1.callLimit

/-- In a run that begins while no call is in progress, the call depth is the number of calls of
functions in progress. -/
theorem callDepth_start (hdepth : m.env.callDepth = 0)
    (hrun : runProgram fuel p m = Eval.ending r m') (hE : E ∈ p.timeline fuel m) :
    E.start.env.callDepth = openCalls E.outer := by
  obtain ⟨_, -, hcourse⟩ := Program.course hrun
  have hstarted : m.started.env.callDepth = 0 := hdepth
  have hE := hcourse.depth E hE
  rw [hstarted, Nat.zero_add] at hE
  exact hE

theorem openCalls_le (hdepth : m.env.callDepth = 0)
    (hrun : runProgram fuel p m = Eval.ending r m') (hE : E ∈ p.timeline fuel m) :
    openCalls E.outer ≤ m.settings.callLimit := by
  rw [← callDepth_start hdepth hrun hE, ← callLimit_start hrun hE]
  obtain ⟨_, -, hcourse⟩ := Program.course hrun
  have hstarted : m.started.env.callDepth = 0 := hdepth
  exact hcourse.room (hstarted ▸ Nat.zero_le _) E hE

/-- The depth in the log counts the call that is logged. -/
theorem logged_depth (hdepth : m.env.callDepth = 0) (hrun : runProgram fuel p m = Eval.ending r m')
    (hE : E ∈ p.timeline fuel m) {name : String} {depth : Nat}
    (hlogged : .functionCalled name depth ∈ E.logged) : depth = openCalls (E.frame :: E.outer) := by
  obtain hnone | ⟨e, he, hlogs⟩ := E.frame.logged_cases E.start
  · rw [Episode.logged, hnone] at hlogged
    cases hlogged
  · rw [Episode.logged, he] at hlogged
    obtain rfl := List.mem_singleton.mp hlogged
    obtain ⟨f, args, hframe, -, rfl, -⟩ := hlogs.of_functionCalled
    rw [hframe, openCalls_cons, callDepth_start hdepth hrun hE]
    exact Nat.add_comm _ 1

/-- The limit is reached when as many calls are in progress as it allows. -/
theorem full_iff (hdepth : m.env.callDepth = 0) (hrun : runProgram fuel p m = Eval.ending r m')
    (hE : E ∈ p.timeline fuel m) : E.start.env.callLimit ≤ E.start.env.callDepth ↔
      openCalls E.outer = m.settings.callLimit := by
  rw [callDepth_start hdepth hrun hE, callLimit_start hrun hE]
  exact ⟨(openCalls_le hdepth hrun hE).antisymm, fun h => h.ge⟩

/-- A call overflows just if it is a call of a function while the limit is reached. -/
theorem overflow_iff (hdepth : m.env.callDepth = 0)
    (hrun : runProgram fuel p m = Eval.ending r m') (hE : E ∈ p.timeline fuel m)
    (depth limit : Nat) : E.result = .error (.failure ⟨.stackOverflow depth limit, none⟩) ↔
      E.CallsFunction ∧ openCalls E.outer = m.settings.callLimit ∧
        depth = m.settings.callLimit + 1 ∧ limit = m.settings.callLimit := by
  obtain ⟨_, -, hcourse⟩ := Program.course hrun
  rw [(hcourse.whole E hE).overflow_iff, full_iff hdepth hrun hE, callLimit_start hrun hE,
    callDepth_start hdepth hrun hE]
  refine and_congr_right fun _ => and_congr_right fun h => ?_
  rw [h]

/-- The run fails because too many calls are in progress just if a call overflows. -/
theorem run_overflow_iff (hdepth : m.env.callDepth = 0)
    (hrun : runProgram fuel p m = Eval.ending r m') (depth limit : Nat) :
    (∃ position, r = .error (.failure ⟨.stackOverflow depth limit, position⟩)) ↔
      depth = m.settings.callLimit + 1 ∧ limit = m.settings.callLimit ∧
        ∃ E ∈ p.timeline fuel m, E.CallsFunction ∧
          openCalls E.outer = m.settings.callLimit := by
  obtain ⟨r', rfl, hcourse⟩ := Program.course hrun
  constructor
  · rintro ⟨position, hr⟩
    obtain ⟨⟨E, hE, hcalls, hfull, hcause⟩, -⟩ :=
      hcourse.exists_overflow rfl (programResult_overflow rfl hr)
    obtain ⟨rfl, rfl⟩ := Cause.stackOverflow.inj hcause
    rw [full_iff hdepth hrun hE] at hfull
    rw [callDepth_start hdepth hrun hE, callLimit_start hrun hE, hfull]
    exact ⟨rfl, rfl, E, hE, hcalls, hfull⟩
  · rintro ⟨rfl, rfl, E, hE, hcalls, hfull⟩
    have hresult := (overflow_iff hdepth hrun hE _ _).mpr ⟨hcalls, hfull, rfl, rfl⟩
    obtain ⟨pre, post, htimeline⟩ := List.append_of_mem hE
    obtain ⟨-, between, -, rfl, -⟩ := hcourse.failed htimeline hresult
    obtain ⟨position, hthrough⟩ := Failure.exists_through
      ⟨.stackOverflow (m.settings.callLimit + 1) m.settings.callLimit, none⟩ between
    rw [hthrough]
    exact ⟨position, rfl⟩

end Program

/-- Take any run of a program that begins while no call is in progress. At the beginning and at the
end of everything that happens in it, and at its end, the call depth is the number of calls of
functions that are in progress, lambdas, methods and constructors among them, and it is at most the
limit. The depth in the log counts the logged call too; the depths begin with 1, are from 1 up to
the limit, and grow by one at most from one call to the next. A call overflows just if it is a call
of a function with as many arguments as parameters while as many calls as the limit allows are in
progress; the failure tells the limit and one more, and the run fails in this way just if there is
such a call. Calls of built-in functions and the making of instances of classes without a
constructor never count. -/
theorem call_depth_exact (hdepth : m.env.callDepth = 0)
    (hrun : runProgram fuel p m = Eval.ending r m') :
    -- the depth
    (∀ E ∈ p.timeline fuel m, E.start.env.callDepth = openCalls E.outer ∧
      E.finish.env.callDepth = openCalls E.outer ∧ openCalls E.outer ≤ m.settings.callLimit) ∧
    m'.env.callDepth = 0 ∧
    -- the log
    (∀ E ∈ p.timeline fuel m, ∀ name depth, .functionCalled name depth ∈ E.logged →
      depth = openCalls (E.frame :: E.outer)) ∧
    (∃ es, m'.events.toList = m.events.toList ++ es ∧
      (∀ d ∈ (callDepths es).head?, d = 1) ∧
      (∀ d ∈ callDepths es, 1 ≤ d ∧ d ≤ m.settings.callLimit) ∧
      (callDepths es).IsChain fun d d' => d' ≤ d + 1) ∧
    -- overflows
    (∀ E ∈ p.timeline fuel m, ∀ depth limit,
      E.result = .error (.failure ⟨.stackOverflow depth limit, none⟩) ↔
        E.CallsFunction ∧ openCalls E.outer = m.settings.callLimit ∧
          depth = m.settings.callLimit + 1 ∧ limit = m.settings.callLimit) ∧
    (∀ depth limit, (∃ position, r = .error (.failure ⟨.stackOverflow depth limit, position⟩)) ↔
      depth = m.settings.callLimit + 1 ∧ limit = m.settings.callLimit ∧
        ∃ E ∈ p.timeline fuel m, E.CallsFunction ∧
          openCalls E.outer = m.settings.callLimit) ∧
    -- what does not count
    (∀ b args n, ∃ r n', callBuiltin b args n = Eval.ending r n' ∧ n'.env = n.env ∧
      ¬ Overflows r) ∧
    ∀ run c args (n : Machine), (n.heap.klass c).methods.get? constructorName = none →
      ∃ r n', instantiate run c args n = Eval.ending r n' ∧ n'.env = n.env ∧ ¬ Overflows r := by
  obtain ⟨r', rfl, hcourse⟩ := Program.course hrun
  have hstarted : m.started.env.callDepth = 0 := hdepth
  have hclimbs := hcourse.climbs
  rw [hstarted] at hclimbs
  refine ⟨fun E hE => ?_, hcourse.place.callDepth.trans hstarted,
    fun E hE name depth => Program.logged_depth hdepth hrun hE,
    ⟨_, hcourse.events, hclimbs.first, hclimbs.range, hclimbs.steps⟩,
    fun E hE => Program.overflow_iff hdepth hrun hE, Program.run_overflow_iff hdepth hrun,
    fun b args n => ?_, fun run c args n => instantiate_plain run args⟩
  · have hE' := Program.callDepth_start hdepth hrun hE
    have hplace := (hcourse.whole E hE).place
    exact ⟨hE', hplace.callDepth.trans hE', Program.openCalls_le hdepth hrun hE⟩
  · obtain ⟨r, n', hr⟩ := Eval.exists_ending (callBuiltin b args) n
    obtain ⟨-, henv, -, hslight⟩ := callBuiltin_moves b args n hr
    exact ⟨r, n', hr, henv, Stop.Slight.not_overflows hslight⟩

end

/-- With a limit of two calls, the third call overflows, and no call is in progress afterwards. -/
theorem call_depth_exact_sample : ∃ m',
    runProgram 4 countingDown (.new .withoutStorage ⟨2, false⟩) =
      .error (.failure ⟨.stackOverflow 3 2, some ⟨1, 31⟩⟩) m' ∧
    m'.events.toList = [.functionCalled "f" 1, .functionCalled "f" 2] ∧ m'.env.callDepth = 0 ∧
    ∃ E ∈ countingDown.timeline 4 (.new .withoutStorage ⟨2, false⟩),
      E.CallsFunction ∧ openCalls E.outer = 2 := by
  have hfails : failsAfter ⟨.stackOverflow 3 2, some ⟨1, 31⟩⟩
      [.functionCalled "f" 1, .functionCalled "f" 2]
      (runProgram 4 countingDown (.new .withoutStorage ⟨2, false⟩)) = true := by decide +kernel
  obtain ⟨m', hrun, hevents⟩ := eq_of_failsAfter hfails
  obtain ⟨-, hended, -, -, -, hoverflow, -⟩ :=
    call_depth_exact (r := .error (.failure ⟨.stackOverflow 3 2, some ⟨1, 31⟩⟩)) rfl hrun
  exact ⟨m', hrun, hevents, hended, ((hoverflow 3 2).mp ⟨_, rfl⟩).2.2⟩

end Scriptlet
