import Scriptlet.Proofs.Timeline.Episodes

/-!
# What holds of every course

What each rule of `Course` does is said once for frames, and then of whole courses by induction:
the machine only moves onward (`Course.onward`), the log is what the episodes have logged, one
after the other (`Course.events`), an episode that nothing happens within has ended when the next
one begins (`Course.ordered`), and when an episode fails nothing else begins: everything it
happened within fails too (`Course.failed`).
-/

namespace Scriptlet

variable {site : Bool} {outer : List Frame} {α : Type} {m n : Machine} {eps : List Episode}
  {r : Except Stop α}

/-- What becomes of a failure that goes out through something: an expression or a statement gives it
its position, unless it has one. -/
def Frame.locate : Frame → Failure → Failure
  | .node x, f => f.located x.position
  | .function .., f | .builtin .., f => f

theorem Frame.settle_failure (F : Frame) (f : Failure) :
    F.settle (.error (.failure f)) = .error (.failure (F.locate f)) := by
  cases F <;> rfl

/-- The failure after it has gone out through the frames, the innermost first. -/
def Failure.through (f : Failure) (frames : List Frame) : Failure :=
  frames.foldl (fun f F => F.locate f) f

/-- A failure that has its position keeps it on its way out. -/
theorem Failure.through_of_position {f : Failure} {p : Position} (h : f.position = some p)
    (frames : List Frame) : f.through frames = f := by
  have hlocate (F : Frame) : F.locate f = f := by
    cases F with
    | node x =>
      obtain ⟨c, _⟩ := f
      cases h
      rfl
    | function g args => rfl
    | builtin b args => rfl
  induction frames with
  | nil => rfl
  | cons F frames ih =>
    rw [through, List.foldl_cons, hlocate F]
    exact ih

/-- What can be seen of the second machine from outside is that of the first. -/
structure Machine.Shows (n m : Machine) : Prop where
  scopes : n.env.scopes = m.env.scopes
  heap : n.heap = m.heap
  host : n.host = m.host
  interrupted : n.interrupted = m.interrupted
  events : n.events = m.events

namespace Machine.Shows

theorem refl (m : Machine) : m.Shows m := ⟨rfl, rfl, rfl, rfl, rfl⟩

theorem ended (h : n.Shows m) (F : Frame) : (F.ended n).Shows m := by
  cases F <;> exact ⟨h.scopes, h.heap, h.host, h.interrupted, h.events⟩

end Machine.Shows

/-! ## The machine moves onward -/

/-- The second machine can come about when something happens on the first. -/
structure Machine.Onward (m n : Machine) : Prop where
  callLimit : n.env.callLimit = m.env.callLimit
  host : m.host.Leads n.host
  interrupted : m.interrupted = true → n.interrupted = true
  settings : n.settings = m.settings

namespace Machine.Onward

theorem refl (m : Machine) : m.Onward m := ⟨rfl, .refl _, id, rfl⟩

theorem trans {m n o : Machine} (h : m.Onward n) (h' : n.Onward o) : m.Onward o where
  callLimit := h'.callLimit.trans h.callLimit
  host := h.host.trans h'.host
  interrupted hm := h'.interrupted (h.interrupted hm)
  settings := h'.settings.trans h.settings

theorem of_beside (h : m.Beside n) : m.Onward n where
  callLimit := h.callLimit
  host := h.host ▸ .refl _
  interrupted hm := h.interrupted.trans hm
  settings := h.settings

theorem of_served (h : m.Served n) : m.Onward n where
  callLimit := congrArg Environment.callLimit h.env
  host := h.host
  interrupted := h.interrupted
  settings := h.settings

theorem begun (F : Frame) (m : Machine) : m.Onward (F.begun m) := by
  cases F with
  | node x =>
    obtain ⟨_, hbegun⟩ := x.exists_begun m
    show m.Onward (x.begun m)
    rw [hbegun]
    exact ⟨rfl, .refl _, id, rfl⟩
  | function f args => exact ⟨rfl, .refl _, id, rfl⟩
  | builtin b args => exact ⟨rfl, .refl _, id, rfl⟩

theorem ended (F : Frame) (n : Machine) : n.Onward (F.ended n) := by
  cases F <;> exact ⟨rfl, .refl _, id, rfl⟩

end Machine.Onward

theorem callBuiltin_moves (b : Builtin) (args : List Value) (m : Machine) {r : Except Stop Value}
    {n : Machine} (h : callBuiltin b args m = Eval.ending r n) :
    m.Onward n ∧ n.env = m.env ∧
      n.events.toList = m.events.toList ++ (Frame.builtin b args).logged m ∧
      ∀ e, r = .error e → e.Slight := by
  cases ha : b.primitive.accepts args.length with
  | false =>
    obtain ⟨expected, hrefused⟩ := callBuiltin_refused ha m
    obtain ⟨rfl, rfl⟩ := Eval.ending_inj (r := .error _) (hrefused.symm.trans h)
    refine ⟨.refl m, rfl, ?_, fun e he => ?_⟩
    · simp [Frame.logged, ha]
    · cases he
      exact ⟨rfl, rfl⟩
  | true =>
    rw [callBuiltin_accepted ha] at h
    obtain ⟨r', n', hr', hserved, hslight⟩ := b.primitive.moves_run args (m.serving b args)
    obtain ⟨rfl, rfl⟩ := Eval.ending_inj (hr'.symm.trans h)
    refine ⟨(Machine.Onward.begun (.builtin b args) m).trans (.of_served hserved), hserved.env, ?_,
      hslight⟩
    rw [hserved.events]
    simp [Frame.logged, ha, Machine.serving]

theorem Node.env_begun (x : Node) (m : Machine) : (x.begun m).env = m.env := by
  obtain ⟨_, hbegun⟩ := x.exists_begun m
  rw [hbegun]

theorem Node.events_begun (x : Node) (m : Machine) :
    (x.begun m).events.toList = m.events.toList ++ (Frame.node x).logged m := by
  cases x with
  | expr e => exact (List.append_nil _).symm
  | stmt s =>
    show (s.begun m).events.toList = _
    unfold Stmt.begun
    split
    · rename_i htracing
      rw [Frame.logged, if_pos htracing]
      exact Array.toList_push
    · rename_i htracing
      rw [Frame.logged, if_neg htracing, List.append_nil]

namespace Frame

variable {F : Frame}

/-- What something logs is logged before anything happens within it. -/
theorem events_begun (h : F.opens m = true) :
    (F.begun m).events.toList = m.events.toList ++ F.logged m := by
  cases F with
  | node x => exact x.events_begun m
  | function f args =>
    show (m.calling f).events.toList = _
    rw [logged, if_pos (of_decide_eq_true h)]
    exact Array.toList_push
  | builtin b args => cases h

theorem events_ended (F : Frame) (n : Machine) : (F.ended n).events = n.events := by
  cases F <;> rfl

namespace AtOnce

variable {r : Except Stop Value}

theorem onward (h : F.AtOnce m r n) : m.Onward n := by
  cases h with
  | interrupted hm => exact .begun (.node _) m
  | mismatched => exact .refl m
  | overflowing => exact .refl m
  | served h => exact (callBuiltin_moves _ _ m h).1

theorem env (h : F.AtOnce m r n) : n.env = m.env := by
  cases h with
  | interrupted hm => exact Node.env_begun _ m
  | mismatched => rfl
  | overflowing => rfl
  | served h => exact (callBuiltin_moves _ _ m h).2.1

theorem events (h : F.AtOnce m r n) : n.events.toList = m.events.toList ++ F.logged m := by
  cases h with
  | interrupted hm => exact Node.events_begun _ m
  | mismatched hargs =>
    rw [logged, if_neg fun h => hargs h.1]
    exact (List.append_nil _).symm
  | overflowing hargs hfull =>
    rw [logged, if_neg fun h => Nat.not_lt.mpr hfull h.2]
    exact (List.append_nil _).symm
  | served h => exact (callBuiltin_moves _ _ m h).2.2.1

end AtOnce

end Frame

/-! ## Facts about courses -/

/-- Where a list that is put together is cut: in its first or in its second part. -/
theorem append_eq_append_cons {β : Type} {xs ys pre post : List β} {x : β}
    (h : xs ++ ys = pre ++ x :: post) : (∃ post', xs = pre ++ x :: post' ∧ post = post' ++ ys) ∨
      ∃ pre', pre = xs ++ pre' ∧ ys = pre' ++ x :: post := by
  obtain ⟨pre', hpre, hys⟩ | ⟨zs, hxs, hzs⟩ := List.append_eq_append_iff.mp h
  · exact .inr ⟨pre', hpre, hys⟩
  · cases zs with
    | nil => exact .inr ⟨[], by rw [hxs, List.append_nil, List.append_nil], hzs.symm⟩
    | cons z zs =>
      obtain ⟨rfl, rfl⟩ := List.cons_eq_cons.mp hzs
      exact .inl ⟨zs, hxs, rfl⟩

namespace Course

theorem onward (h : Course site outer m eps r n) : m.Onward n := by
  induction h with
  | quiet hbeside _ => exact .of_beside hbeside
  | next _ _ ih ih' => exact ih.trans ih'
  | stop _ ih => exact ih
  | within parent _ ih => exact ⟨ih.callLimit, ih.host, ih.interrupted, ih.settings⟩
  | caught _ ih => exact ih
  | leaf _ h => exact h.onward
  | frame _ _ _ ih => exact (Machine.Onward.begun _ _).trans (ih.trans (.ended _ _))

/-- Whatever happens, an evaluation ends where it began. -/
theorem place (h : Course site outer m eps r n) : m.env.SamePlace n.env := by
  induction h with
  | quiet hbeside _ => exact hbeside.place
  | next _ _ ih ih' => exact ih.trans ih'
  | stop _ ih => exact ih
  | within parent _ ih => exact ⟨rfl, ih.globals, ih.callDepth⟩
  | caught _ ih => exact ih
  | leaf _ h => exact h.env ▸ .refl _
  | @frame _ _ m n _ _ F _ hopens _ ih =>
    cases F with
    | node x =>
      rw [← x.env_begun m]
      exact ih
    | function f args =>
      refine ⟨ih.current, ih.globals, ?_⟩
      show n.env.callDepth - 1 = m.env.callDepth
      rw [ih.callDepth]
      exact Nat.add_sub_cancel _ 1
    | builtin b args => cases hopens

/-- What is in the log afterwards is what the episodes have logged, one after the other. -/
theorem events (h : Course site outer m eps r n) :
    n.events.toList = m.events.toList ++ eps.flatMap Episode.logged := by
  induction h with
  | quiet hbeside _ => rw [hbeside.events, List.flatMap_nil, List.append_nil]
  | next _ _ ih ih' => rw [ih', ih, List.flatMap_append, List.append_assoc]
  | stop _ ih => exact ih
  | within parent _ ih => exact ih
  | caught _ ih => exact ih
  | leaf _ h => rw [h.events, List.flatMap_singleton]; rfl
  | frame _ hopens _ ih =>
    rw [Frame.events_ended, ih, Frame.events_begun hopens, List.flatMap_cons, List.append_assoc]
    rfl

/-- Each episode begins and ends between the beginning and the end of the evaluation. -/
theorem between (h : Course site outer m eps r n) :
    ∀ E ∈ eps, m.Onward E.start ∧ E.finish.Onward n := by
  induction h with
  | quiet => exact fun E hE => absurd hE List.not_mem_nil
  | next h h' ih ih' =>
    intro E hE
    obtain hE | hE := List.mem_append.mp hE
    · exact ⟨(ih E hE).1, (ih E hE).2.trans h'.onward⟩
    · exact ⟨h.onward.trans (ih' E hE).1, (ih' E hE).2⟩
  | stop _ ih => exact ih
  | within parent h ih =>
    intro E hE
    obtain ⟨hstart, hfinish⟩ := ih E hE
    exact ⟨⟨hstart.callLimit, hstart.host, hstart.interrupted, hstart.settings⟩,
      hfinish.callLimit, hfinish.host, hfinish.interrupted, hfinish.settings⟩
  | caught _ ih => exact ih
  | leaf _ h =>
    intro E hE
    obtain rfl := List.mem_singleton.mp hE
    exact ⟨.refl _, .refl _⟩
  | frame _ _ h ih =>
    intro E hE
    obtain rfl | hE := List.mem_cons.mp hE
    · exact ⟨.refl _, .refl _⟩
    · exact ⟨(Machine.Onward.begun _ _).trans (ih E hE).1, (ih E hE).2.trans (.ended _ _)⟩

/-- An episode that nothing happens within has ended when the next one begins. -/
theorem ordered (h : Course site outer m eps r n) :
    eps.Pairwise fun E E' => E.inner = 0 → E.finish.Onward E'.start := by
  induction h with
  | quiet => exact .nil
  | next h h' ih ih' =>
    refine List.pairwise_append.mpr ⟨ih, ih', fun E hE E' hE' _ => ?_⟩
    exact (h.between E hE).2.trans (h'.between E' hE').1
  | stop _ ih => exact ih
  | within parent _ ih => exact ih
  | caught _ ih => exact ih
  | leaf => exact List.pairwise_singleton _ _
  | frame _ _ h ih =>
    refine List.pairwise_cons.mpr ⟨fun E' hE' hnone => ?_, ih⟩
    rw [List.length_eq_zero_iff.mp hnone] at hE'
    cases hE'

/-- When an episode begins, the log is what the episodes before it have logged. -/
theorem events_before (h : Course site outer m eps r n) {E : Episode} {pre post : List Episode}
    (heps : eps = pre ++ E :: post) :
    E.start.events.toList = m.events.toList ++ pre.flatMap Episode.logged := by
  induction h generalizing pre post with
  | quiet => cases pre <;> cases heps
  | next h _ ih ih' =>
    obtain ⟨post', rfl, -⟩ | ⟨pre', rfl, hpre⟩ := append_eq_append_cons heps
    · exact ih rfl
    · rw [ih' hpre, h.events, List.flatMap_append, List.append_assoc]
  | stop _ ih => exact ih heps
  | within parent _ ih => exact ih heps
  | caught _ ih => exact ih heps
  | leaf =>
    cases pre with
    | nil =>
      obtain ⟨rfl, -⟩ := List.cons_eq_cons.mp heps
      exact (List.append_nil _).symm
    | cons F pre => cases pre <;> cases heps
  | frame _ hopens _ ih =>
    cases pre with
    | nil =>
      obtain ⟨rfl, -⟩ := List.cons_eq_cons.mp heps
      exact (List.append_nil _).symm
    | cons F pre =>
      obtain ⟨rfl, hrest⟩ := List.cons_eq_cons.mp heps
      rw [ih hrest, Frame.events_begun hopens, List.flatMap_cons, List.append_assoc]
      rfl

/-- An episode that fails is the last one but for those within it. Everything that it happened
within fails too, with the same failure up to the position. -/
theorem failed (h : Course site outer m eps r n) {E : Episode} {pre post : List Episode}
    (heps : eps = pre ++ E :: post) {f : Failure} (hE : E.result = .error (.failure f)) :
    post.length = E.inner ∧ ∃ between, E.outer = between ++ outer ∧
      r = .error (.failure (f.through between)) ∧ n.Shows E.finish := by
  induction h generalizing pre post with
  | quiet => cases pre <;> cases heps
  | next _ _ ih ih' =>
    obtain ⟨post', rfl, -⟩ | ⟨pre', rfl, hpre⟩ := append_eq_append_cons heps
    · obtain ⟨-, _, -, hr, -⟩ := ih rfl
      cases hr
    · exact ih' hpre
  | stop _ ih =>
    obtain ⟨hinner, between, houter, hr, hn⟩ := ih heps
    cases hr
    exact ⟨hinner, between, houter, rfl, hn⟩
  | within parent _ ih =>
    obtain ⟨hinner, between, houter, hr, hn⟩ := ih heps
    exact ⟨hinner, between, houter, hr, hn.scopes, hn.heap, hn.host, hn.interrupted, hn.events⟩
  | caught _ ih =>
    obtain ⟨hinner, between, houter, rfl, hn⟩ := ih heps
    exact ⟨hinner, between, houter, rfl, hn⟩
  | leaf =>
    cases pre with
    | nil =>
      obtain ⟨rfl, rfl⟩ := List.cons_eq_cons.mp heps
      exact ⟨rfl, [], rfl, hE, .refl _⟩
    | cons F pre => cases pre <;> cases heps
  | @frame _ outer _ _ _ _ F _ _ _ ih =>
    cases pre with
    | nil =>
      obtain ⟨rfl, rfl⟩ := List.cons_eq_cons.mp heps
      exact ⟨rfl, [], rfl, hE, .refl _⟩
    | cons E' pre =>
      obtain ⟨rfl, hrest⟩ := List.cons_eq_cons.mp heps
      obtain ⟨hinner, between, houter, rfl, hn⟩ := ih hrest
      refine ⟨hinner, between ++ [F], ?_, ?_, hn.ended F⟩
      · rw [houter, List.append_assoc]
        rfl
      · rw [F.settle_failure, Failure.through, Failure.through, List.foldl_concat]

/-- How an episode has gone. -/
inductive Whole : Episode → Prop
  | leaf {outer : List Frame} {F : Frame} {m n : Machine} {r : Except Stop Value} :
    F.AtOnce m r n → Whole ⟨outer, F, m, r, n, 0⟩
  | frame {outer : List Frame} {F : Frame} {m n : Machine} {eps : List Episode}
    {r : Except Stop Value} : F.opens m = true →
    Course F.isSite (F :: outer) (F.begun m) eps r n →
    Whole ⟨outer, F, m, F.settle r, F.ended n, eps.length⟩

theorem whole (h : Course site outer m eps r n) : ∀ E ∈ eps, Whole E := by
  induction h with
  | quiet => exact fun E hE => absurd hE List.not_mem_nil
  | next _ _ ih ih' => exact fun E hE => (List.mem_append.mp hE).elim (ih E) (ih' E)
  | stop _ ih => exact ih
  | within parent _ ih => exact ih
  | caught _ ih => exact ih
  | leaf _ h =>
    intro E hE
    obtain rfl := List.mem_singleton.mp hE
    exact .leaf h
  | frame _ hopens h ih =>
    intro E hE
    obtain rfl | hE := List.mem_cons.mp hE
    · exact .frame hopens h
    · exact ih E hE

/-- What something happens within directly, if it is a call: an expression that calls something. -/
theorem calling (h : Course site outer m eps r n)
    (hsite : site = true → ∃ p callee args rest,
      outer = .node (.expr (.call p callee args)) :: rest) :
    ∀ E ∈ eps, E.frame.isCall = true → ∃ p callee args rest,
      E.outer = .node (.expr (.call p callee args)) :: rest := by
  induction h with
  | quiet => exact fun E hE => absurd hE List.not_mem_nil
  | next _ _ ih ih' => exact fun E hE => (List.mem_append.mp hE).elim (ih hsite E) (ih' hsite E)
  | stop _ ih => exact ih hsite
  | within parent _ ih => exact ih hsite
  | caught _ ih => exact ih hsite
  | leaf hcall _ =>
    intro E hE hE'
    obtain rfl := List.mem_singleton.mp hE
    exact hsite (hcall hE')
  | @frame _ _ _ _ _ _ F hcall _ _ ih =>
    intro E hE hE'
    obtain rfl | hE := List.mem_cons.mp hE
    · exact hsite (hcall hE')
    · refine ih (fun hF => ?_) E hE hE'
      match F, hF with
      | .node (.expr (.call p callee args)), _ => exact ⟨p, callee, args, _, rfl⟩

namespace Whole

variable {E : Episode}

/-- An expression or a statement that is begun when the evaluation has been asked to stop. -/
theorem of_interrupted (h : Whole E) {x : Node} (hE : E.frame = .node x)
    (hstart : E.start.interrupted = true) :
    E.result = .error (.failure ⟨.interrupted, some x.position⟩) ∧
      E.finish = x.begun E.start ∧ E.inner = 0 := by
  cases h with
  | leaf h =>
    cases h with
    | interrupted =>
      cases hE
      exact ⟨rfl, rfl, rfl⟩
    | mismatched | overflowing | served => cases hE
  | frame hopens =>
    dsimp only at hE hstart
    rw [hE, Frame.opens, hstart] at hopens
    cases hopens

theorem of_builtin (h : Whole E) {b : Builtin} {args : List Value}
    (hE : E.frame = .builtin b args) :
    callBuiltin b args E.start = Eval.ending E.result E.finish ∧ E.inner = 0 := by
  cases h with
  | leaf h =>
    cases h with
    | served h =>
      cases hE
      exact ⟨h, rfl⟩
    | interrupted | mismatched | overflowing => cases hE
  | frame hopens =>
    dsimp only at hE
    rw [hE] at hopens
    cases hopens

end Whole

end Course

/-! ## The log -/

/-- What is logged when something begins. -/
inductive Frame.Logs : Frame → Machine → Event → Prop
  | statement {s : Stmt} {m : Machine} :
    Logs (.node (.stmt s)) m (.statement s.kindName s.position)
  | function {f : Function} {args : List Value} {m : Machine} :
    args.length = f.routine.params.length → m.env.callDepth < m.env.callLimit →
    Logs (.function f args) m (.functionCalled f.routine.name (m.env.callDepth + 1))
  | builtin {b : Builtin} {args : List Value} {m : Machine} :
    b.primitive.accepts args.length = true →
    Logs (.builtin b args) m (.builtinCalled b.primitive.name args.length)

namespace Frame.Logs

variable {F : Frame}

theorem of_statement {kind : String} {position : Position}
    (h : F.Logs m (.statement kind position)) :
    ∃ s, F = .node (.stmt s) ∧ s.kindName = kind ∧ s.position = position := by
  cases h with
  | statement => exact ⟨_, rfl, rfl, rfl⟩

theorem of_functionCalled {name : String} {depth : Nat}
    (h : F.Logs m (.functionCalled name depth)) :
    ∃ f args, F = .function f args ∧ f.routine.name = name ∧ depth = m.env.callDepth + 1 ∧
      m.env.callDepth < m.env.callLimit := by
  cases h with
  | function _ hroom => exact ⟨_, _, rfl, rfl, rfl, hroom⟩

theorem of_builtinCalled {name : String} {count : Nat} (h : F.Logs m (.builtinCalled name count)) :
    ∃ b args, F = .builtin b args ∧ b.primitive.accepts args.length = true ∧
      b.primitive.name = name ∧ args.length = count := by
  cases h with
  | builtin haccepts => exact ⟨_, _, rfl, haccepts, rfl, rfl⟩

end Frame.Logs

/-- One event is logged at most. -/
theorem Frame.logged_cases (F : Frame) (m : Machine) :
    F.logged m = [] ∨ ∃ e, F.logged m = [e] ∧ F.Logs m e := by
  have one {c : Prop} [Decidable c] {e : Event} (h : c → F.Logs m e) :
      (if c then [e] else []) = [] ∨ ∃ e', (if c then [e] else []) = [e'] ∧ F.Logs m e' := by
    split
    · exact .inr ⟨e, rfl, h ‹c›⟩
    · exact .inl rfl
  cases F with
  | node x =>
    cases x with
    | expr e => exact .inl rfl
    | stmt s => exact one fun _ => .statement
  | function f args => exact one fun h => .function h.1 h.2
  | builtin b args => exact one .builtin

/-- The episode that has logged an event. -/
theorem Episode.exists_logged {eps : List Episode} {e : Event} {before after : List Event}
    (h : eps.flatMap logged = before ++ e :: after) :
    ∃ pre E post, eps = pre ++ E :: post ∧ E.frame.Logs E.start e ∧ before = pre.flatMap logged ∧
      after = post.flatMap logged := by
  induction eps generalizing before with
  | nil => cases before <;> cases h
  | cons E eps ih =>
    rw [List.flatMap_cons] at h
    obtain hE | ⟨e', hE, hlogs⟩ := E.frame.logged_cases E.start
    · rw [logged, hE] at h
      obtain ⟨pre, E', post, rfl, hE', rfl, rfl⟩ := ih h
      refine ⟨E :: pre, E', post, rfl, hE', ?_, rfl⟩
      rw [List.flatMap_cons, logged, hE]
      rfl
    · rw [logged, hE] at h
      cases before with
      | nil =>
        obtain ⟨rfl, rfl⟩ := List.cons_eq_cons.mp h
        exact ⟨[], E, eps, rfl, hlogs, rfl, rfl⟩
      | cons e'' before =>
        obtain ⟨rfl, hrest⟩ := List.cons_eq_cons.mp h
        obtain ⟨pre, E', post, rfl, hE', rfl, rfl⟩ := ih hrest
        refine ⟨E :: pre, E', post, rfl, hE', ?_, rfl⟩
        rw [List.flatMap_cons, logged, hE]
        rfl

/-! ## Programs -/

/-- What happens during the run of a program, in the order in which it begins. -/
def Program.timeline (p : Program) (fuel : Nat) (m : Machine) : List Episode :=
  let plan : Plan false Value := (Planner.of fuel m.env.numbered).stmts .undefined p.statements
  plan.episodes [] m.started

/-- A run takes a course through the timeline of the program. -/
theorem Program.course {p : Program} {fuel : Nat} {m n : Machine} {r : Except Stop Value}
    (h : runProgram fuel p m = Eval.ending r n) :
    ∃ r', r = programResult r' ∧ Course false [] m.started (p.timeline fuel m) r' n := by
  let plan : Plan false Value := (Planner.of fuel m.env.numbered).stmts .undefined p.statements
  obtain ⟨r', n', hr', hcourse⟩ := plan.course [] m.started
  rw [Planner.run_stmts, Planner.engine_of] at hr'
  have hrun : runProgram fuel p m = Eval.ending (programResult r') n' :=
    Eval.settling_of_ending hr'
  obtain ⟨rfl, rfl⟩ := Eval.ending_inj (hrun.symm.trans h)
  exact ⟨r', rfl, hcourse⟩

/-- The events of a run are those of its timeline. -/
theorem Program.events_run {p : Program} {fuel : Nat} {m n : Machine} {r : Except Stop Value}
    (h : runProgram fuel p m = Eval.ending r n) {es : List Event}
    (hes : n.events.toList = m.events.toList ++ es) :
    es = (p.timeline fuel m).flatMap Episode.logged := by
  obtain ⟨_, -, hcourse⟩ := Program.course h
  exact List.append_cancel_left (hes.symm.trans hcourse.events)

/-- The run has failed, and has logged the events. -/
def failsAfter (f : Failure) (events : List Event) : EStateM.Result Stop Machine Value → Bool
  | .error (.failure f') m => f' = f ∧ m.events.toList = events
  | _ => false

theorem eq_of_failsAfter {f : Failure} {events : List Event}
    {r : EStateM.Result Stop Machine Value} (h : failsAfter f events r = true) :
    ∃ m, r = .error (.failure f) m ∧ m.events.toList = events := by
  unfold failsAfter at h
  split at h
  · obtain ⟨rfl, hevents⟩ := of_decide_eq_true h
    exact ⟨_, rfl, hevents⟩
  · contradiction

end Scriptlet
