import Scriptlet.Proofs.Eval.Outcomes
import Scriptlet.Proofs.Syntax.Mistakes
import Scriptlet.Proofs.Syntax.Places
import Scriptlet.Proofs.Token.Slices
import Scriptlet.Session

/-!
# Every error is located in the text

`executeWith_located`: if the execution of a source text is reported as an error, then
either the text is no program, and the reports are its faults and mistakes
(`RejectedText`), or the program failed, and the one report is at the first token of an
expression or a statement of it (`FailedAtNode`).

A failure begins without a position in many places: an operator, a built-in function, the
host, the limit on calls. It gets one from the innermost expression or statement that it
passes on its way out. So two things are to be shown: that the positions that failures
get are those of nodes of the program, also where the code that runs comes from a value
(`Program.run_comesTo`), and that no failure leaves a statement without a position
(`Eval.Locates`).
-/

namespace Scriptlet

/-! ## The tokens of a text -/

/-- The tokens of a text are in order, at positions that are counted from one, and the last of them
is the end of input. -/
theorem scan_tokens (source : String) : ∃ tokens stop, scan source = tokens ++ [stop] ∧
    (∀ t ∈ tokens, t.kind ≠ .endOfInput) ∧ stop.kind = .endOfInput ∧
    ((scan source).Pairwise fun t u => t.position.le u.position = true) ∧
    ∀ t ∈ scan source, 1 ≤ t.position.line ∧ 1 ≤ t.position.column := by
  obtain ⟨gap, slices, stop, h⟩ := scanFrom_sliced _ [] source.toList (Nat.lt_succ_self _)
  refine ⟨slices.map Slice.token, stop, h.tokens_eq, h.kinds, h.stop_kind, ?_, fun t ht => ?_⟩
  · refine h.increasing.imp fun {t u} hbefore => ?_
    unfold Position.Before at hbefore
    simp only [Position.le, Bool.or_eq_true, Bool.and_eq_true, decide_eq_true_eq, beq_iff_eq]
    omega
  · obtain ⟨ds, hds⟩ := h.exists_position ht
    rw [hds]
    exact ⟨Nat.le_add_right 1 _, Nat.le_add_right 1 _⟩

/-- Only the end of input is not part of the text of a program. -/
theorem filterMap_fault?_textTokens (source : String) :
    (textTokens (scan source)).filterMap Token.fault? = (scan source).filterMap Token.fault? := by
  obtain ⟨tokens, stop, hscan, htokens, hstop, -, -⟩ := scan_tokens source
  have htext : textTokens (scan source) = tokens := by
    rw [textTokens, hscan, List.takeWhile_append_of_pos fun t ht => decide_eq_true (htokens t ht)]
    simp [hstop]
  have hnone : stop.fault? = none := by
    rw [Token.fault?, hstop]
  rw [htext, hscan, List.filterMap_append]
  simp [hnone]

/-! ## Texts that are no programs -/

/-- The position that is reported. -/
def Diagnostic.position (d : Diagnostic) : Position := ⟨d.line, d.column⟩

/-- The reports are all errors of the text, in the order of their positions, and nothing was
evaluated. -/
structure RejectedText (source : String) (before : Machine) (ds : List Diagnostic)
    (after : Machine) : Prop where
  stage : ∀ d ∈ ds, d.stage = .lex ∨ d.stage = .parse
  token : ∀ d ∈ ds, ∃ t ∈ scan source, d.position = t.position
  sorted : ds.Pairwise fun d d' => d.position.le d'.position = true
  /-- Each fault of the text is reported once. -/
  faults : (ds.filter fun d => d.stage = .lex) =
    ((scan source).filterMap Token.fault?).map .ofSyntaxError
  /-- Only events were logged. -/
  unevaluated : ∃ events, after = { before with events := events }

theorem Diagnostic.stage_ofSyntaxError (e : SyntaxError) :
    (Diagnostic.ofSyntaxError e).stage = if e.isMistake then .parse else .lex := by
  cases e <;> rfl

theorem rejectedText_of_error {source : String} {errors : List SyntaxError}
    (h : parseSource source = .error errors) (before : Machine) (events : Array Event) :
    errors.map Diagnostic.ofSyntaxError ≠ [] ∧
      RejectedText source before (errors.map .ofSyntaxError) { before with events := events } := by
  obtain ⟨tokens, stop, hscan, -, hstop, hsorted, -⟩ := scan_tokens source
  have hend : ∃ t ∈ scan source, t.kind = .endOfInput := ⟨stop, by rw [hscan]; simp, hstop⟩
  obtain ⟨hne, hordered, htoken, hfaults⟩ := parse_error hend hsorted h
  rw [filterMap_fault?_textTokens] at hfaults
  refine ⟨fun hnil => hne (List.map_eq_nil_iff.mp hnil), ?_, ?_, ?_, ?_, events, rfl⟩
  · intro d hd
    obtain ⟨e, -, rfl⟩ := List.mem_map.mp hd
    rw [Diagnostic.stage_ofSyntaxError]
    cases e.isMistake
    · exact .inl rfl
    · exact .inr rfl
  · intro d hd
    obtain ⟨e, he, rfl⟩ := List.mem_map.mp hd
    exact htoken e he
  · rw [List.pairwise_map]
    exact hordered
  · have hstage : ((fun d : Diagnostic => decide (d.stage = .lex)) ∘ Diagnostic.ofSyntaxError) =
        fun e => !e.isMistake := by
      funext e
      cases e <;> rfl
    rw [List.filter_map, hstage, hfaults]

/-! ## Programs that fail -/

/-- Failures of the evaluation have a position. -/
def Eval.Locates {α : Type} (act : Eval α) : Prop :=
  ∀ m f m', act m = .error (.failure f) m' → f.position.isSome = true

namespace Eval.Locates

variable {α β : Type} {act : Eval α}

/-- What does not fail has no failure without a position. -/
theorem of_ok (h : ∀ m, ∃ a m', act m = .ok a m') : act.Locates := by
  intro m f m' hrun
  obtain ⟨a, m₁, hok⟩ := h m
  rw [hok] at hrun
  cases hrun

theorem located (p : Position) (act : Eval α) : (Eval.located p act).Locates := by
  intro m f m' h
  unfold Eval.located at h
  split at h
  · cases h
    rfl
  · rename_i hother
    exact absurd h (hother f m')

theorem bind {f : α → Eval β} (h : act.Locates) (hf : ∀ a, (f a).Locates) :
    (act >>= f).Locates := by
  intro m failure m' hrun
  cases hact : act m with
  | ok a m₁ =>
    rw [Eval.bind_ok hact] at hrun
    exact hf a m₁ failure m' hrun
  | error e m₁ =>
    rw [Eval.bind_error hact] at hrun
    cases hrun
    exact h m failure m' hact

theorem stmt (g : Engine) (s : Stmt) : (evalStmt g s).Locates := by
  have log (e : Event) : (Eval.log e).Locates := of_ok fun _ => ⟨_, _, rfl⟩
  rw [evalStmt.eq_def]
  refine (of_ok fun _ => ⟨_, _, rfl⟩ : (MonadState.get : Eval Machine).Locates).bind fun m => ?_
  dsimp only
  split
  · exact (log _).bind fun _ => located _ _
  · exact located _ _

theorem stmts (g : Engine) (last : Value) (ss : List Stmt) : (evalStmts g last ss).Locates := by
  induction ss generalizing last with
  | nil =>
    rw [evalStmts]
    exact of_ok fun m => ⟨last, m, rfl⟩
  | cons s ss ih =>
    rw [evalStmts]
    exact (stmt g s).bind fun v => ih v

/-- A jump that nothing takes is a failure where it stands. -/
theorem settling {act : Eval Value} (h : act.Locates) :
    (Eval.settling programResult act).Locates := by
  intro m f m' hrun
  obtain ⟨r, m₁, hact⟩ : ∃ r m₁, act m = Eval.ending r m₁ := by
    cases hact : act m with
    | ok v m₁ => exact ⟨.ok v, m₁, rfl⟩
    | error e m₁ => exact ⟨.error e, m₁, rfl⟩
  rw [Eval.settling_of_ending hact] at hrun
  match r with
  | .ok _ => cases hrun
  | .error (.unfinished _) => cases hrun
  | .error (.failure _) =>
    cases hrun
    exact h m f m' hact
  | .error (.signal s) => cases s <;> cases hrun <;> rfl

theorem program (fuel : Nat) (p : Program) : (runProgram fuel p).Locates := by
  unfold runProgram
  have limit (f : Machine → Machine) : (modify f : Eval PUnit).Locates :=
    of_ok fun m => ⟨_, f m, rfl⟩
  have number : numberProgram.Locates := of_ok fun _ => ⟨_, _, rfl⟩
  exact (limit _).bind fun _ => number.bind fun n => (stmts _ _ _).settling

end Eval.Locates

/-- If a program does not have a value, it fails at an expression or a statement of it, or it is not
finished. -/
theorem Program.run_error (p : Program) {fuel : Nat} {m m' : Machine} {stop : Stop}
    (hm : m.Holds p.HasRoutine) (h : runProgram fuel p m = .error stop m') :
    (∃ f x, stop = .failure f ∧ p.Contains x ∧ f.position = some x.position) ∨
      ∃ why, stop = .unfinished why := by
  cases p.run_comesTo (U := True) (fun _ _ _ => trivial) fuel hm (.inl trivial) with
  | @asks _ _ request hact =>
    cases hact.symm.trans h
    exact .inr ⟨_, rfl⟩
  | @ended _ m₁ r hact hr =>
    have hact := hact []
    rw [m.feed_nil] at hact
    match r with
    | .ok _ => cases hact.symm.trans h
    | .error (.signal _) => exact hr.elim
    | .error (.unfinished why) =>
      cases hact.symm.trans h
      exact .inr ⟨why, rfl⟩
    | .error (.failure f) =>
      cases hact.symm.trans h
      obtain ⟨q, hq⟩ := Option.isSome_iff_exists.mp (Eval.Locates.program fuel p m f _ h)
      obtain ⟨x, hx, rfl⟩ := hr q hq
      exact .inl ⟨f, x, rfl, hx, hq⟩

/-- The report is about a failure at the first token of an expression or a statement of the program
that the text is. -/
structure FailedAtNode (source : String) (d : Diagnostic) : Prop where
  stage : d.stage = .runtime
  line : 1 ≤ d.line
  column : 1 ≤ d.column
  node : ∃ p x t us, parseSource source = .ok p ∧ p.Contains x ∧ t ∈ scan source ∧
    t :: us <:+ textTokens (scan source) ∧ Grammar.Begins (t :: us) x ∧ d.position = t.position

theorem failedAtNode_of_contains {source : String} {p : Program} (h : parseSource source = .ok p)
    {x : Node} (hx : p.Contains x) {f : Failure} (hf : f.position = some x.position) :
    FailedAtNode source (.ofFailure f) := by
  obtain ⟨-, hsequence⟩ := parse_eq_ok_iff.mp h
  obtain ⟨us, hus, hbegins⟩ := hx.stands hsequence
  obtain ⟨t, vs, rfl, hposition⟩ := hbegins.head
  have ht : t ∈ scan source :=
    (List.takeWhile_sublist _).subset (hus.subset List.mem_cons_self)
  obtain ⟨-, -, -, -, -, -, hpositive⟩ := scan_tokens source
  have hdiagnostic : Diagnostic.ofFailure f =
      ⟨.runtime, f.message, t.position.line, t.position.column⟩ := by
    rw [Diagnostic.ofFailure, hf, hposition]
  rw [hdiagnostic]
  obtain ⟨hline, hcolumn⟩ := hpositive t ht
  exact ⟨rfl, hline, hcolumn, p, x, t, vs, h, hx, ht, hus, hbegins, rfl⟩

/-! ## Execution -/

theorem Machine.Holds.log {P : Routine → Prop} {m : Machine} (h : m.Holds P) (events : List Event) :
    (m.log events).Holds P :=
  ⟨h.env, h.heap⟩

theorem execute_located {source : String} {p : Program} (hparse : parseSource source = .ok p)
    {fuel : Nat} {m m' : Machine} (hm : m.Holds p.HasRoutine) {ds : List Diagnostic}
    (h : m.execute fuel p = (.diagnostics ds, m')) : ∃ d, ds = [d] ∧ FailedAtNode source d := by
  unfold Machine.execute at h
  cases hrun : (runProgram fuel p).run m with
  | ok v m₁ =>
    rw [hrun] at h
    cases h
  | error stop m₁ =>
    rw [hrun] at h
    obtain ⟨f, x, rfl, hx, hf⟩ | ⟨why, rfl⟩ := p.run_error hm hrun
    · cases h
      exact ⟨_, rfl, failedAtNode_of_contains hparse hx hf⟩
    · cases h

/-- If the execution of a text is reported as an error, then there is a report, and either the text is
no program and all reports are about its faults and mistakes, or the program failed and the one report
is at an expression or a statement of it. -/
theorem executeWith_located {fuel : Nat} {host : Host} {settings : Settings} {interrupted : Bool}
    {source : String} {ds : List Diagnostic} {m' : Machine}
    (h : executeWith fuel host settings interrupted source = (.diagnostics ds, m')) :
    ds ≠ [] ∧
      (RejectedText source { Machine.new host settings with interrupted := interrupted } ds m' ∨
        ∃ d, ds = [d] ∧ FailedAtNode source d) := by
  unfold executeWith Machine.executeSource at h
  dsimp only at h
  cases hparse : parseSource source with
  | error errors =>
    have hresult : (Reading.ofTokens (scan source)).result = .error errors := hparse
    rw [hresult] at h
    cases h
    obtain ⟨hne, hrejected⟩ := rejectedText_of_error hparse
      { Machine.new host settings with interrupted := interrupted } _
    exact ⟨hne, .inl hrejected⟩
  | ok p =>
    have hresult : (Reading.ofTokens (scan source)).result = .ok p := hparse
    rw [hresult] at h
    have hfresh : Machine.Holds p.HasRoutine
        { Machine.new host settings with interrupted := interrupted } :=
      ⟨.withPrelude defaultCallLimit, .empty⟩
    obtain ⟨d, rfl, hd⟩ := execute_located hparse ((hfresh.log _).log _) h
    exact ⟨List.cons_ne_nil d [], .inr ⟨d, rfl, hd⟩⟩

/-- The reports, if the outcome is an error. -/
def Outcome.diagnostics? : Outcome → Option (List Diagnostic)
  | .diagnostics ds => some ds
  | _ => none

theorem Outcome.eq_of_diagnostics? {r : Outcome × Machine} {ds : List Diagnostic}
    (h : r.1.diagnostics? = some ds) : r = (.diagnostics ds, r.2) := by
  obtain ⟨o, m⟩ := r
  cases o <;> cases h
  rfl

/-- The text `let @;` is rejected, and the program `x;` fails where the name stands. -/
theorem executeWith_located_sample :
    (∃ ds m', executeWith 1 .withoutStorage {} false "let @;" = (.diagnostics ds, m') ∧ ds ≠ [] ∧
      RejectedText "let @;" { Machine.new .withoutStorage {} with interrupted := false } ds m') ∧
    ∃ d m', executeWith 1 .withoutStorage {} false "x;" = (.diagnostics [d], m') ∧
      d.position = ⟨1, 1⟩ ∧ FailedAtNode "x;" d := by
  constructor
  · have hsome : (executeWith 1 .withoutStorage {} false "let @;").1.diagnostics?.isSome = true := by
      decide +kernel
    have hbad : (parseSource "let @;").isOk = false := by decide +kernel
    obtain ⟨ds, hds⟩ := Option.isSome_iff_exists.mp hsome
    have hrun := Outcome.eq_of_diagnostics? hds
    obtain ⟨hne, hrejected | ⟨d, -, hfailed⟩⟩ := executeWith_located hrun
    · exact ⟨ds, _, hrun, hne, hrejected⟩
    · obtain ⟨p, -, -, -, hparse, -⟩ := hfailed.node
      rw [hparse] at hbad
      cases hbad
  · have hds : (executeWith 1 .withoutStorage {} false "x;").1.diagnostics? =
        some [⟨.runtime, "undefined variable `x`", 1, 1⟩] := by
      decide +kernel
    have hrun := Outcome.eq_of_diagnostics? hds
    obtain ⟨-, hrejected | ⟨d, hd, hfailed⟩⟩ := executeWith_located hrun
    · rcases hrejected.stage _ List.mem_cons_self with hstage | hstage <;> cases hstage
    · cases hd
      exact ⟨_, _, hrun, rfl, hfailed⟩

end Scriptlet
