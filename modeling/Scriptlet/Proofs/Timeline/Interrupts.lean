import Scriptlet.Proofs.Timeline.Courses

/-!
# An evaluation that is asked to stop

Only a built-in function sets the flag that asks an evaluation to stop, and nothing clears it.
Whatever is on its way when the flag is set may still go on, but the next expression or statement
that begins fails, and so does everything around it (`interrupted_stops`).
-/

namespace Scriptlet

/-- Evaluates an expression or a statement. -/
def Node.eval (g : Engine) : Node → Eval Value
  | .expr e => evalExpr g e
  | .stmt s => evalStmt g s

/-- A moment of a run at which the flag may be set for the first time: the machine then, and what
begins later. -/
inductive Program.Moment (p : Program) (fuel : Nat) (m : Machine) :
    Machine → List Episode → Prop
  /-- The beginning of the run. -/
  | outset : p.Moment fuel m m (p.timeline fuel m)
  /-- The end of a call of a built-in function. -/
  | served {pre later : List Episode} {E : Episode} {b : Builtin} {args : List Value} :
    p.timeline fuel m = pre ++ E :: later → E.frame = .builtin b args →
    p.Moment fuel m E.finish later

/-- A built-in function was called, and the flag is set at the end of the call. -/
def Episode.Asks (E : Episode) : Prop :=
  (∃ b args, E.frame = .builtin b args) ∧ E.finish.interrupted = true

theorem Node.begun_kept (x : Node) (m : Machine) :
    (x.begun m).env = m.env ∧ (x.begun m).heap = m.heap ∧ (x.begun m).host = m.host := by
  obtain ⟨_, hbegun⟩ := x.exists_begun m
  rw [hbegun]
  exact ⟨rfl, rfl, rfl⟩

theorem Node.eval_interrupted (g : Engine) (x : Node) {m : Machine} (hm : m.interrupted = true) :
    x.eval g m = .error (.failure ⟨.interrupted, some x.position⟩) (x.begun m) := by
  cases x with
  | expr e =>
    show evalExpr g e m = _
    rw [evalExpr.eq_def]
    exact Eval.atNode_of_interrupted (.expr e) _ hm
  | stmt s =>
    show evalStmt g s m = _
    rw [evalStmt.eq_def, Eval.traced_eq]
    exact Eval.atNode_of_interrupted (.stmt s) _ hm

/-- If nothing comes after an element with the property, there is one at most. -/
theorem countP_le_one {α : Type} {t : α → Bool} {as : List α}
    (h : ∀ bs a cs, as = bs ++ a :: cs → t a = true → cs = []) : as.countP t ≤ 1 := by
  induction as with
  | nil => exact Nat.zero_le 1
  | cons a as ih =>
    cases ha : t a with
    | true =>
      obtain rfl := h [] a as rfl ha
      rw [List.countP_cons_of_pos ha]
      exact Nat.le_refl 1
    | false =>
      rw [List.countP_cons_of_neg (by rw [ha]; exact Bool.false_ne_true)]
      exact ih fun bs b cs has hb => h (a :: bs) b cs (congrArg (a :: ·) has) hb

theorem Frame.interrupted_begun (F : Frame) (m : Machine) :
    (F.begun m).interrupted = m.interrupted := by
  cases F with
  | node x => exact x.interrupted_begun m
  | function f args => rfl
  | builtin b args => rfl

theorem Frame.interrupted_ended (F : Frame) (n : Machine) :
    (F.ended n).interrupted = n.interrupted := by
  cases F <;> rfl

/-- If the flag was not set before, then a call of a built-in function has set it. -/
theorem Course.asked {site : Bool} {outer : List Frame} {α : Type} {m n : Machine}
    {eps : List Episode} {r : Except Stop α} (h : Course site outer m eps r n)
    (hm : m.interrupted = false) :
    (n.interrupted = true → ∃ B ∈ eps, B.Asks) ∧
    ∀ {pre : List Episode} {E : Episode} {post : List Episode}, eps = pre ++ E :: post →
      E.start.interrupted = true → ∃ B ∈ pre, B.Asks := by
  induction h with
  | quiet hbeside _ =>
    refine ⟨fun hn => ?_, fun {pre} _ _ heps => by cases pre <;> cases heps⟩
    rw [hbeside.interrupted, hm] at hn
    cases hn
  | @next _ _ _ _ _ n _ _ _ _ _ _ _ ih ih' =>
    obtain ⟨hend, hinside⟩ := ih hm
    cases hn : n.interrupted with
    | true =>
      obtain ⟨B, hB, hasks⟩ := hend hn
      refine ⟨fun _ => ⟨B, List.mem_append_left _ hB, hasks⟩, fun heps hset => ?_⟩
      obtain ⟨_, hfirst, -⟩ | ⟨_, rfl, -⟩ := append_eq_append_cons heps
      · exact hinside hfirst hset
      · exact ⟨B, List.mem_append_left _ hB, hasks⟩
    | false =>
      obtain ⟨hend', hinside'⟩ := ih' hn
      refine ⟨fun ho => ?_, fun heps hset => ?_⟩
      · obtain ⟨B, hB, hasks⟩ := hend' ho
        exact ⟨B, List.mem_append_right _ hB, hasks⟩
      · obtain ⟨_, hfirst, -⟩ | ⟨_, rfl, hsecond⟩ := append_eq_append_cons heps
        · exact hinside hfirst hset
        · obtain ⟨B, hB, hasks⟩ := hinside' hsecond hset
          exact ⟨B, List.mem_append_right _ hB, hasks⟩
  | stop _ ih => exact ih hm
  | within parent _ ih => exact ih hm
  | caught _ ih => exact ih hm
  | leaf _ h =>
    refine ⟨fun hn => ?_, fun {pre} _ _ heps hset => ?_⟩
    · cases h with
      | interrupted hset =>
        rw [hm] at hset
        cases hset
      | mismatched | overflowing =>
        rw [hm] at hn
        cases hn
      | served => exact ⟨_, List.mem_singleton_self _, ⟨_, _, rfl⟩, hn⟩
    · cases pre with
      | nil =>
        obtain ⟨rfl, -⟩ := List.cons_eq_cons.mp heps
        exact absurd (hm.symm.trans hset) Bool.false_ne_true
      | cons F pre => cases pre <;> cases heps
  | @frame _ _ m n _ _ F _ _ _ ih =>
    obtain ⟨hend, hinside⟩ := ih ((F.interrupted_begun m).trans hm)
    refine ⟨fun hn => ?_, fun {pre} _ _ heps hset => ?_⟩
    · obtain ⟨B, hB, hasks⟩ := hend ((F.interrupted_ended n).symm.trans hn)
      exact ⟨B, List.mem_cons_of_mem _ hB, hasks⟩
    · cases pre with
      | nil =>
        obtain ⟨rfl, -⟩ := List.cons_eq_cons.mp heps
        exact absurd (hm.symm.trans hset) Bool.false_ne_true
      | cons E' pre =>
        obtain ⟨rfl, hrest⟩ := List.cons_eq_cons.mp heps
        obtain ⟨B, hB, hasks⟩ := hinside hrest hset
        exact ⟨B, List.mem_cons_of_mem _ hB, hasks⟩

section

variable {p : Program} {fuel : Nat} {m s m' : Machine} {r : Except Stop Value}
  {later : List Episode}

namespace Program.Moment

/-- What is later at a moment is the rest of the timeline. -/
theorem exists_append (h : p.Moment fuel m s later) :
    ∃ pre, p.timeline fuel m = pre ++ later := by
  cases h with
  | outset => exact ⟨[], rfl⟩
  | @served pre _ E _ _ htimeline _ =>
    exact ⟨pre ++ [E], by rw [htimeline, List.append_assoc]; rfl⟩

/-- The flag stays set. -/
theorem interrupted (h : p.Moment fuel m s later) (hs : s.interrupted = true)
    (hrun : runProgram fuel p m = Eval.ending r m') :
    ∀ E ∈ later, E.start.interrupted = true := by
  obtain ⟨_, -, hcourse⟩ := Program.course hrun
  intro E hE
  cases h with
  | outset => exact (hcourse.between E hE).1.interrupted hs
  | @served pre _ B _ _ htimeline hframe =>
    have hmem : B ∈ p.timeline fuel m := htimeline ▸ List.mem_append_right _ List.mem_cons_self
    have hordered := htimeline ▸ hcourse.ordered
    have hnext := (List.pairwise_cons.mp (List.pairwise_append.mp hordered).2.1).1 E hE
    exact (hnext ((hcourse.whole B hmem).of_builtin hframe).2).interrupted hs

/-- What is logged after the moment is logged by the later episodes. -/
theorem events (h : p.Moment fuel m s later) (hrun : runProgram fuel p m = Eval.ending r m') :
    m'.events.toList = s.events.toList ++ later.flatMap Episode.logged := by
  obtain ⟨_, -, hcourse⟩ := Program.course hrun
  cases h with
  | outset => exact hcourse.events
  | @served pre _ B b args htimeline hframe =>
    have hmem : B ∈ p.timeline fuel m := htimeline ▸ List.mem_append_right _ List.mem_cons_self
    obtain ⟨hcalled, -⟩ := (hcourse.whole B hmem).of_builtin hframe
    have hlogged : B.logged = (Frame.builtin b args).logged B.start := by
      rw [Episode.logged, hframe]
    rw [hcourse.events, (callBuiltin_moves b args B.start hcalled).2.2.1,
      hcourse.events_before htimeline, htimeline, List.flatMap_append, List.flatMap_cons, hlogged,
      List.append_assoc, List.append_assoc]

end Program.Moment

/-- An expression or a statement that begins when the flag is set is the last thing that begins, and
the run fails at its position. -/
theorem Program.last_of_interrupted (hrun : runProgram fuel p m = Eval.ending r m')
    {pre post : List Episode} {E : Episode} (htimeline : p.timeline fuel m = pre ++ E :: post)
    {x : Node} (hE : E.frame = .node x) (hstart : E.start.interrupted = true) :
    post = [] ∧ r = .error (.failure ⟨.interrupted, some x.position⟩) := by
  obtain ⟨r', rfl, hcourse⟩ := Program.course hrun
  have hmem : E ∈ p.timeline fuel m := htimeline ▸ List.mem_append_right _ List.mem_cons_self
  obtain ⟨hresult, -, hinner⟩ := (hcourse.whole E hmem).of_interrupted hE hstart
  obtain ⟨hlast, between, -, rfl, -⟩ := hcourse.failed htimeline hresult
  refine ⟨List.length_eq_zero_iff.mp (hlast.trans hinner), ?_⟩
  rw [Failure.through_of_position rfl between]
  rfl

/-- If the flag is set during the run, then at the end of a call of a built-in function. -/
theorem Program.exists_asking (hrun : runProgram fuel p m = Eval.ending r m')
    (hm : m.interrupted = false) (hm' : m'.interrupted = true) :
    ∃ s later, p.Moment fuel m s later ∧ s.interrupted = true := by
  obtain ⟨_, -, hcourse⟩ := Program.course hrun
  obtain ⟨B, hB, ⟨b, args, hframe⟩, hset⟩ := (hcourse.asked hm).1 hm'
  obtain ⟨pre, later, htimeline⟩ := List.append_of_mem hB
  exact ⟨B.finish, later, .served htimeline hframe, hset⟩

/-- When something begins with the flag set, a moment at which the flag was set is over. -/
theorem Program.exists_moment (hrun : runProgram fuel p m = Eval.ending r m') {E : Episode}
    (hE : E ∈ p.timeline fuel m) (hstart : E.start.interrupted = true) :
    ∃ s later, p.Moment fuel m s later ∧ s.interrupted = true ∧ E ∈ later := by
  cases hm : m.interrupted with
  | true => exact ⟨m, _, .outset, hm, hE⟩
  | false =>
    obtain ⟨_, -, hcourse⟩ := Program.course hrun
    obtain ⟨pre, post, htimeline⟩ := List.append_of_mem hE
    obtain ⟨B, hB, ⟨b, args, hframe⟩, hset⟩ := (hcourse.asked hm).2 htimeline hstart
    obtain ⟨pre', mid, rfl⟩ := List.append_of_mem hB
    have hlater : p.timeline fuel m = pre' ++ B :: (mid ++ E :: post) := by
      rw [htimeline, List.append_assoc]
      rfl
    refine ⟨B.finish, mid ++ E :: post, .served hlater hframe, hset, ?_⟩
    exact List.mem_append_right _ List.mem_cons_self

/-- Nothing is logged after a statement that begins when the flag is set. -/
theorem Program.Moment.statement_last (h : p.Moment fuel m s later)
    (hrun : runProgram fuel p m = Eval.ending r m') (hs : s.interrupted = true)
    {before after : List Event} {kind : String} {position : Position}
    (hevents : later.flatMap Episode.logged = before ++ .statement kind position :: after) :
    after = [] ∧ r = .error (.failure ⟨.interrupted, some position⟩) := by
  obtain ⟨pre, hpre⟩ := h.exists_append
  obtain ⟨pre', E, post, rfl, hlogs, -, rfl⟩ := Episode.exists_logged hevents
  obtain ⟨s, hframe, -, rfl⟩ := hlogs.of_statement
  have htimeline : p.timeline fuel m = (pre ++ pre') ++ E :: post := by
    rw [hpre, List.append_assoc]
  have hstart := h.interrupted hs hrun E (List.mem_append_right _ List.mem_cons_self)
  obtain ⟨rfl, hr⟩ := Program.last_of_interrupted hrun htimeline hframe hstart
  exact ⟨rfl, hr⟩

/-- During a run, the flag that asks to stop is set at the beginning or by a built-in function. From
that moment on one event at most tells that a statement begins, and if there is one, then the run
fails because it was asked to stop, at the position of the statement. Every expression and every
statement that begins later, so also every test, step and body of a loop, fails for this reason at
its own position, and leaves the scopes, the cells and the host as they are; so does every
expression and every statement that is evaluated on any machine with the flag set. -/
theorem interrupted_stops (hrun : runProgram fuel p m = Eval.ending r m') :
    (∀ E ∈ p.timeline fuel m, E.start.interrupted = true →
      ∃ s later, p.Moment fuel m s later ∧ s.interrupted = true ∧ E ∈ later) ∧
    (∀ s later, p.Moment fuel m s later → s.interrupted = true →
      (∃ es, m'.events.toList = s.events.toList ++ es ∧ es.countP Event.isStatement ≤ 1 ∧
        ∀ kind position, .statement kind position ∈ es →
          r = .error (.failure ⟨.interrupted, some position⟩)) ∧
      ∀ E ∈ later, ∀ x, E.frame = .node x →
        E.result = .error (.failure ⟨.interrupted, some x.position⟩) ∧
        E.finish.env = E.start.env ∧ E.finish.heap = E.start.heap ∧
        E.finish.host = E.start.host) ∧
    ∀ (g : Engine) (x : Node) (n : Machine), n.interrupted = true → ∃ n',
      x.eval g n = .error (.failure ⟨.interrupted, some x.position⟩) n' ∧
      n'.env = n.env ∧ n'.heap = n.heap ∧ n'.host = n.host := by
  refine ⟨fun E => Program.exists_moment hrun, fun s later hmoment hs => ⟨⟨_, hmoment.events hrun,
    ?_, fun kind position hmem => ?_⟩, fun E hE x hframe => ?_⟩,
    fun g x n hn => ⟨_, x.eval_interrupted g hn, x.begun_kept n⟩⟩
  · refine countP_le_one fun before e after hevents he => ?_
    cases e with
    | statement kind position => exact (hmoment.statement_last hrun hs hevents).1
    | _ => cases he
  · obtain ⟨before, after, hevents⟩ := List.append_of_mem hmem
    exact (hmoment.statement_last hrun hs hevents).2
  · obtain ⟨_, -, hcourse⟩ := Program.course hrun
    obtain ⟨pre, hpre⟩ := hmoment.exists_append
    have hwhole := hcourse.whole E (hpre ▸ List.mem_append_right _ hE)
    obtain ⟨hresult, hfinish, -⟩ :=
      hwhole.of_interrupted hframe (hmoment.interrupted hs hrun E hE)
    rw [hfinish]
    exact ⟨hresult, x.begun_kept E.start⟩

end

/-- The program `interrupt(); print(1);`. -/
def interruptingProgram : Program :=
  ⟨[.expression ⟨1, 1⟩ (.call ⟨1, 1⟩ (.identifier ⟨1, 1⟩ "interrupt") []),
    .expression ⟨1, 14⟩ (.call ⟨1, 14⟩ (.identifier ⟨1, 14⟩ "print") [.integer ⟨1, 20⟩ 1])]⟩

/-- A machine that logs statements, with the built-in function that asks to stop. -/
def interruptingMachine : Machine :=
  let m := Machine.new .withoutStorage ⟨1000, true⟩
  { m with env := m.env.install .interrupt }

/-- The statement after the call is logged, and fails. -/
theorem interrupted_stops_sample : ∃ m' s later es,
    runProgram 1 interruptingProgram interruptingMachine =
      .error (.failure ⟨.interrupted, some ⟨1, 14⟩⟩) m' ∧
    interruptingProgram.Moment 1 interruptingMachine s later ∧ s.interrupted = true ∧
    m'.events.toList = s.events.toList ++ es ∧ es.countP Event.isStatement ≤ 1 := by
  have hfails : failsAfter ⟨.interrupted, some ⟨1, 14⟩⟩
      ([.statement "expression" ⟨1, 1⟩] ++ .builtinCalled "interrupt" 0 ::
        [.statement "expression" ⟨1, 14⟩])
      (runProgram 1 interruptingProgram interruptingMachine) = true := by decide +kernel
  obtain ⟨m', hrun, hevents⟩ := eq_of_failsAfter hfails
  have hflag : ((runProgram 1 interruptingProgram).after interruptingMachine).interrupted = true := by
    decide +kernel
  rw [Eval.after, hrun] at hflag
  obtain ⟨s, later, hmoment, hset⟩ := Program.exists_asking
    (r := .error (.failure ⟨.interrupted, some ⟨1, 14⟩⟩)) hrun rfl hflag
  obtain ⟨-, hstops, -⟩ :=
    interrupted_stops (r := .error (.failure ⟨.interrupted, some ⟨1, 14⟩⟩)) hrun
  obtain ⟨⟨es, hes, hcount, -⟩, -⟩ := hstops s later hmoment hset
  exact ⟨m', s, later, es, hrun, hmoment, hset, hes, hcount⟩

end Scriptlet
