import Scriptlet.Proofs.Session.Numbering
import Scriptlet.Proofs.Session.Reset
import Scriptlet.Proofs.Syntax.Concatenation

/-!
# Scripts and sessions

A script that is written in one file and the same script typed in part by part do the same
(`Session.script_agrees`). The texts are parsed apart from each other, and the parts get numbers of
their own when they are executed, so code is called differently: `Session.joining` says how. The
statements of the first text do the same on both sides, as they begin on the same machine, and the
statements of the second one begin where these ended.
-/

namespace Scriptlet

/-! ## Two programs as one -/

namespace Session

variable {s : Session} {p p' : Program} {ρ : Position → Position}

/-- In a session that executes `p` and then `p'`, the second program gets a number of its own. In
one that executes both as one program, its code is found in that program, at the positions that `ρ`
says; nothing else is called differently. -/
def joining (s : Session) (p p' : Program) (ρ : Position → Position) (h : p.Apart p' ρ) :
    Relabeling where
  settings := s.settings
  limit := s.settings.callLimit
  older _ := 0
  number a := if a = s.env.numbered + 1 then s.env.numbered else a
  place a := if a = s.env.numbered + 1 then ρ else id
  ident i := i
  node a x := (a < s.env.numbered ∧ ∃ r, Machine.Code s a r ∧ x ∈ stmtsNodes r.body) ∨
    (a = s.env.numbered ∧ p.Contains x) ∨ (a = s.env.numbered + 1 ∧ p'.Contains x)
  routine a r := (a < s.env.numbered ∧ Machine.Code s a r) ∨ (a = s.env.numbered ∧ p.HasRoutine r) ∨
    (a = s.env.numbered + 1 ∧ p'.HasRoutine r)
  bindable _ := True
  logs _ _ := True
  numbered _ _ := True
  made {a x} hx r hr := by
    rcases hx with ⟨ha, r', hr', hx⟩ | ⟨ha, hx⟩ | ⟨ha, hx⟩
    · exact .inl ⟨ha, .inside hr' hx hr⟩
    · exact .inr (.inl ⟨ha, x, hx, hr⟩)
    · exact .inr (.inr ⟨ha, x, hx, hr⟩)
  body {a r} hr x hx := by
    rcases hr with ⟨ha, hr⟩ | ⟨ha, y, hy, hr⟩ | ⟨ha, y, hy, hr⟩
    · exact .inl ⟨ha, r, hr, hx⟩
    · exact .inr (.inl ⟨ha, .inside hy hr hx⟩)
    · exact .inr (.inr ⟨ha, .inside hy hr hx⟩)
  bindable_inst _ := trivial
  ident_injective _ _ h := h
  apart {a b r r'} hr hr' hnumber hplace := by
    have second {a : Nat} {r : Routine} (ha : a = s.env.numbered + 1)
        (hr : (a < s.env.numbered ∧ Machine.Code s a r) ∨ (a = s.env.numbered ∧ p.HasRoutine r) ∨
          (a = s.env.numbered + 1 ∧ p'.HasRoutine r)) : p'.HasRoutine r := by
      rcases hr with ⟨hlt, -⟩ | ⟨heq, -⟩ | ⟨-, hr⟩
      · omega
      · omega
      · exact hr
    have first {a : Nat} {r : Routine} (ha : a = s.env.numbered)
        (hr : (a < s.env.numbered ∧ Machine.Code s a r) ∨ (a = s.env.numbered ∧ p.HasRoutine r) ∨
          (a = s.env.numbered + 1 ∧ p'.HasRoutine r)) : p.HasRoutine r := by
      rcases hr with ⟨hlt, -⟩ | ⟨-, hr⟩ | ⟨heq, -⟩
      · omega
      · exact hr
      · omega
    by_cases ha : a = s.env.numbered + 1 <;> by_cases hb : b = s.env.numbered + 1
    · rw [if_pos ha, if_pos hb] at hplace
      exact ⟨ha.trans hb.symm, h.distinct (second ha hr) (second hb hr') hplace⟩
    · rw [if_pos ha, if_neg hb] at hnumber hplace
      exact absurd hplace.symm (h.away (first hnumber.symm hr') (second ha hr))
    · rw [if_neg ha, if_pos hb] at hnumber hplace
      exact absurd hplace (h.away (first hnumber hr) (second hb hr'))
    · rw [if_neg ha, if_neg hb] at hnumber hplace
      exact ⟨hnumber, hplace⟩
  logged _ _ := trivial

variable {B : Value → Prop} {h : p.Apart p' ρ}

theorem number_joining {a : Nat} (ha : a ≤ s.env.numbered) :
    (s.joining p p' ρ h).number a = a := if_neg (by omega)

theorem place_joining {a : Nat} (ha : a ≤ s.env.numbered) : (s.joining p p' ρ h).place a = id :=
  if_neg (by omega)

theorem number_joining_second : (s.joining p p' ρ h).number (s.env.numbered + 1) = s.env.numbered :=
  if_pos rfl

theorem place_joining_second : (s.joining p p' ρ h).place (s.env.numbered + 1) = ρ := if_pos rfl

/-- The code that the session holds is called as it is. -/
theorem fixes_joining {held : List Value} (hs : Machine.Numbered s B held) {m : Machine}
    (hheap : m.heap = s.heap) (hscopes : m.env.scopes = s.env.scopes) :
    (s.joining p p' ρ h).Fixes m where
  older _ := rfl
  ident _ := rfl
  code ha := by
    have ha := ha.congr hheap.symm hscopes.symm
    have hlt := hs.code ha
    exact ⟨.inl ⟨hlt, ha⟩, number_joining hlt.le, place_joining hlt.le⟩
  bindable _ _ := trivial

/-! ## The statements of both -/

end Session

/-- What statements do behind others that came to their end. -/
theorem evalStmts_append {g : Engine} {ss ss' : List Stmt} {last v : Value} {m m' : Machine}
    (h : evalStmts g last ss m = .ok v m') :
    evalStmts g last (ss ++ ss') m = evalStmts g v ss' m' := by
  induction ss generalizing last m with
  | nil =>
    cases h
    rfl
  | cons s ss ih =>
    show EStateM.bind (evalStmt g s) _ m = _
    have hbind : EStateM.bind (evalStmt g s) (fun v => evalStmts g v ss) m = .ok v m' := h
    unfold EStateM.bind at hbind ⊢
    cases hs : evalStmt g s m with
    | ok u n =>
      rw [hs] at hbind
      exact ih hbind
    | error e n =>
      rw [hs] at hbind
      cases hbind

/-- The value that was there before does not matter for statements. -/
theorem evalStmts_congr_last {g : Engine} {ss : List Stmt} (h : ss ≠ []) (last last' : Value) :
    evalStmts g last ss = evalStmts g last' ss := by
  cases ss with
  | nil => exact absurd rfl h
  | cons s ss => rfl

theorem Eval.settling_congr (settle : Except Stop Value → Except Stop Value) {act act' : Eval Value}
    {m m' : Machine} (h : act m = act' m') : settling settle act m = settling settle act' m' := by
  unfold settling
  rw [h]

namespace Session

variable {B : Value → Prop} {s : Session} {p p' : Program} {ρ : Position → Position} {h : p.Apart p' ρ}

/-- The session when it begins to evaluate the statements of a text. -/
def began (s : Session) (events : List Event) : Machine :=
  (Machine.log { s with interrupted := false } events).started

/-- Both sides begin alike. -/
theorem machines_began {held : List Value} (hs : Machine.Numbered s B held)
    (events events' : List Event) :
    (s.joining p p' ρ h).Machines (s.began events) (s.began events') := by
  have hfixes : (s.joining p p' ρ h).Fixes (s.began events) := fixes_joining hs rfl rfl
  exact hfixes.machines rfl rfl trivial (fun _ _ => trivial) (s.began events').events

/-- The statements of the first program do the same on both sides, and take no number. -/
theorem first_joined {held : List Value} (hs : Machine.Numbered s B held) {fuel : Nat} {v : Value}
    {m : Machine} {events : List Event} (events' : List Event)
    (hrun : evalStmts (.of fuel s.env.numbered) .undefined p.statements (s.began events) = .ok v m) :
    m.env.numbered = s.env.numbered + 1 ∧ ∃ v' m', evalStmts (.of fuel s.env.numbered) .undefined
      p.statements (s.began events') = .ok v' m' ∧ (s.joining p p' ρ h).Machines m m' := by
  constructor
  · have hbegan : Machine.Numbered (s.began events) B held :=
      hs.mono rfl rfl (Nat.le_succ _) (List.Subset.refl _)
    exact (hbegan.statements (Nat.lt_succ_self _) (r := .ok v) hrun).2
  · have hcode : (s.joining p p' ρ h).Has s.env.numbered (stmtsNodes p.statements) :=
      fun x hx => .inr (.inl ⟨rfl, .outside hx⟩)
    have hends := (s.joining p p' ρ h).program fuel (n := 0) hcode .undefined _ _
      (machines_began hs events events') (Nat.zero_le _)
    rw [place_joining (Nat.le_refl _), stmts_move_id, number_joining (Nat.le_refl _), hrun] at hends
    generalize evalStmts (.of fuel s.env.numbered) .undefined p.statements (s.began events') = r
      at hends ⊢
    cases hends with
    | ok hm _ _ => exact ⟨_, _, rfl, hm⟩

/-- If the statements of `p` come to their end, what `p'` does then is what it does behind them in
one program. -/
theorem joined {held : List Value} (hs : Machine.Numbered s B held) {fuel : Nat} {v : Value}
    {m : Machine} {events : List Event}
    (hrun : evalStmts (.of fuel s.env.numbered) .undefined p.statements (s.began events) = .ok v m)
    (hne : p'.statements ≠ []) (events' events'' : List Event) :
    (s.joining p p' ρ h).Results ((m.log events').execute fuel p')
      ((Machine.log { s with interrupted := false } events'').execute fuel
        ⟨p.statements ++ move ρ p'.statements⟩) := by
  obtain ⟨hnumbered, v', m', hrun', hm⟩ := first_joined (h := h) hs events'' hrun
  have hcode : (s.joining p p' ρ h).Has m.env.numbered (stmtsNodes p'.statements) :=
    fun x hx => .inr (.inr ⟨hnumbered, .outside hx⟩)
  have hstarted : (s.joining p p' ρ h).Machines (m.log events').started m' := by
    have hlimit : m.settings.callLimit = s.settings.callLimit :=
      congrArg Settings.callLimit hm.settings
    exact { hm with env := { hm.env with limit := hlimit, numbered := trivial }, events := trivial }
  have hends := ((s.joining p p' ρ h).program fuel (n := 0) hcode .undefined).settlingProgram _ _
    hstarted (Nat.zero_le _)
  rw [hnumbered, number_joining_second, place_joining_second] at hends
  have hwhole : evalStmts (.of fuel s.env.numbered) .undefined
      (p.statements ++ move ρ p'.statements) (s.began events'') =
        evalStmts (.of fuel s.env.numbered) .undefined (move ρ p'.statements) m' := by
    have hmoved : move ρ p'.statements ≠ [] := fun hnil => hne (List.map_eq_nil_iff.mp hnil)
    rw [evalStmts_append hrun', evalStmts_congr_last hmoved v' .undefined]
  have hboth : runProgram fuel ⟨p.statements ++ move ρ p'.statements⟩
      (Machine.log { s with interrupted := false } events'') = Eval.settling programResult
        (evalStmts (.of fuel s.env.numbered) .undefined (move ρ p'.statements)) m' :=
    Eval.settling_congr programResult hwhole
  have hsecond : runProgram fuel p' (m.log events') = Eval.settling programResult
      (evalStmts (.of fuel (s.env.numbered + 1)) .undefined p'.statements)
      (m.log events').started := by
    rw [runProgram_eq, ← hnumbered]
    rfl
  rw [← hsecond, ← hboth] at hends
  exact hends.results rfl fun _ _ => trivial

/-! ## Texts -/

/-- The statements of the text are evaluated up to the end of the last one, without a request to stop
that is still there. -/
def Completes (s : Session) (fuel : Nat) (source : String) : Prop :=
  ∃ p v m, parseSource source = .ok p ∧ evalStmts (.of fuel s.env.numbered) .undefined p.statements
    (s.began (startEvents source p)) = .ok v m ∧ m.interrupted = false

instance (s : Session) (fuel : Nat) (source : String) : Decidable (s.Completes fuel source) :=
  match hp : parseSource source with
  | .error _ => isFalse fun ⟨_, _, _, hq, _⟩ => nomatch hp.symm.trans hq
  | .ok p =>
    match hrun : evalStmts (.of fuel s.env.numbered) .undefined p.statements
      (s.began (startEvents source p)) with
    | .error _ _ => isFalse fun ⟨_, _, _, hq, hends, _⟩ => by
      cases hp.symm.trans hq
      cases hrun.symm.trans hends
    | .ok v m =>
      if hm : m.interrupted = false then isTrue ⟨p, v, m, hp, hrun, hm⟩
      else isFalse fun ⟨_, _, _, hq, hends, hgoing⟩ => by
        cases hp.symm.trans hq
        cases hrun.symm.trans hends
        exact hm hgoing

theorem execute_of_parse {fuel : Nat} {source : String} (hp : parseSource source = .ok p) :
    s.execute fuel source =
      (Machine.log { s with interrupted := false } (startEvents source p)).execute fuel p :=
  Machine.executeSource_eq _ fuel hp

/-- Where the statements come to their end, so does the execution. -/
theorem execute_of_run {fuel : Nat} {source : String} (hp : parseSource source = .ok p) {v : Value}
    {m : Machine} (hrun : evalStmts (.of fuel s.env.numbered) .undefined p.statements
      (s.began (startEvents source p)) = .ok v m) : s.execute fuel source = (.value v, m) := by
  have hprogram : (runProgram fuel p).run
      (Machine.log { s with interrupted := false } (startEvents source p)) = .ok v m := by
    rw [EStateM.run, runProgram_eq]
    exact Eval.settling_of_ending (r := .ok v) hrun
  rw [execute_of_parse hp, Machine.execute, hprogram]

/-- A text, and another one behind it, in a session and in one text. -/
theorem joined_texts {held : List Value} (hs : Machine.Numbered s B held) {fuel : Nat}
    {source source' whole : String} (hp : parseSource source = .ok p)
    (hp' : parseSource source' = .ok p')
    (hwhole : parseSource whole = .ok ⟨p.statements ++ move ρ p'.statements⟩)
    (hne : p'.statements ≠ []) (hcompletes : s.Completes fuel source) :
    (s.joining p p' ρ h).Results ((s.execute fuel source).2.execute fuel source')
      (s.execute fuel whole) := by
  obtain ⟨q, v, m, hq, hrun, hgoing⟩ := hcompletes
  cases hq.symm.trans hp
  have hready : { m with interrupted := false } = m := by
    rw [← hgoing]
  rw [execute_of_run hp hrun, execute_of_parse hp', execute_of_parse hwhole]
  dsimp only
  rw [hready]
  exact joined hs hrun hne _ _

/-! ## Reports -/

/-- The executions end with values that are built alike and have the same types and texts, with
reports that say the same, or unfinished for the same reason, and leave the same state. -/
structure SameButPlaces (κ : Relabeling) (P : Position → Position → Prop)
    (a b : Outcome × Session) : Prop where
  state : SameState κ a.2 b.2
  value (v : Value) : a.1 = .value v → ∃ v', b.1 = .value v' ∧
    κ.Relates a.2.heap.instances.size v v' ∧ v'.typeName = v.typeName ∧
    b.2.heap.display v' = a.2.heap.display v ∧ b.2.heap.inspect v' = a.2.heap.inspect v
  diagnostics (ds : List Diagnostic) : a.1 = .diagnostics ds →
    ∃ ds', b.1 = .diagnostics ds' ∧ List.Forall₂ (SameReport P) ds ds'
  unfinished (why : Unfinished) : a.1 = .unfinished why → b.1 = .unfinished why

/-- Where in a text what stood at a position is found, if `p'` is put `k` lines down behind `p`: code
of the session and of `p` stays where it is. -/
inductive PutBelow (s : Session) (p p' : Program) (k : Nat) : Position → Position → Prop
  | stored {a : Nat} {r : Routine} {x : Node} : Machine.Code s a r → x ∈ stmtsNodes r.body →
    PutBelow s p p' k x.position x.position
  | first {x : Node} : p.Contains x → PutBelow s p p' k x.position x.position
  | second {x : Node} : p'.Contains x → PutBelow s p p' k x.position (x.position.down k)

theorem putBelow_of_placed {k : Nat} {h : p.Apart p' (Position.down k)} {x q : Position}
    (hq : (s.joining p p' _ h).Placed x q) : s.PutBelow p p' k x q := by
  obtain ⟨a, x, hx, rfl, rfl⟩ := hq
  rcases hx with ⟨ha, r, hr, hx⟩ | ⟨rfl, hx⟩ | ⟨rfl, hx⟩
  · rw [place_joining ha.le]
    exact .stored hr hx
  · rw [place_joining (Nat.le_refl _)]
    exact .first hx
  · rw [place_joining_second]
    exact .second hx

end Session

theorem Relabeling.Results.sameButPlaces {κ : Relabeling} {P : Position → Position → Prop}
    {a b : Outcome × Session} (hplaces : ∀ p q, κ.Placed p q → P p q) (h : κ.Results a b) :
    Session.SameButPlaces κ P a b where
  state := h.session.sameState
  value _ hv := h.of_value hv
  diagnostics _ hds := by
    obtain ⟨ds', hds', hsame⟩ := h.of_diagnostics hds
    exact ⟨ds', hds', hsame.imp fun _ _ hd => hd.imp hplaces⟩
  unfinished _ hwhy := h.of_unfinished hwhy

/-- A script and a session agree. Let the first of two texts end with a semicolon, and let there be
something in the second one. Then the statements of both, written one below the other, are those of
the first text and then those of the second one, further down by the lines of the first. And a
session in which the statements of the first text come to their end does the same when it executes
both as one text as when it executes one after the other: it has the same value or the same
reports, where what stands in the second text is further down, and the same output, files and
global names. If the second text is put as far down already, the reports have the same positions,
too. -/
theorem Session.script_agrees (fuel : Nat) {s : Session} {held : List Value} (hs : s.Used held)
    {source source' : String} {p p' : Program} (hp : parseSource source = .ok p)
    (hp' : parseSource source' = .ok p')
    (hlast : (textTokens (scan source)).getLast?.map Token.kind = some (.symbol .semicolon))
    (hsome : textTokens (scan source') ≠ []) :
    parseSource (source ++ "\n" ++ source') =
        .ok ⟨p.statements ++ move (Position.down (linesDown source)) p'.statements⟩ ∧
      (s.Completes fuel source →
        SameButPlaces (s.joining p p' _ (apart_below hp hp')) (s.PutBelow p p' (linesDown source))
            ((s.execute fuel source).2.execute fuel source')
            (s.execute fuel (source ++ "\n" ++ source')) ∧
          SameResult (s.joining p (move (Position.down (linesDown source)) p') id
              (apart_lineFeeds hp hp'))
            ((s.execute fuel source).2.execute fuel (lineFeeds (linesDown source) ++ source'))
            (s.execute fuel (source ++ "\n" ++ source'))) := by
  have hends : Grammar.Last (· = .symbol .semicolon) (textTokens (scan source)) := by
    obtain ⟨t, ht, hkind⟩ := Option.map_eq_some_iff.mp hlast
    intro u hu
    rw [ht] at hu
    cases hu
    exact hkind
  have hwhole := parseSource_below hp hp' hends
  have hne := statements_ne_nil hp' hsome
  refine ⟨hwhole, fun hcompletes => ⟨?_, ?_⟩⟩
  · exact (joined_texts hs.numbered hp hp' hwhole hne hcompletes).sameButPlaces
      fun _ _ => putBelow_of_placed
  · have hdown := parseSource_lineFeeds (linesDown source) hp'
    have hmoved : (move (Position.down (linesDown source)) p').statements ≠ [] :=
      fun hnil => hne (List.map_eq_nil_iff.mp hnil)
    have hwhole' : parseSource (source ++ "\n" ++ source') = .ok ⟨p.statements ++
        move id (move (Position.down (linesDown source)) p').statements⟩ := by
      rw [stmts_move_id]
      exact hwhole
    refine (joined_texts (h := apart_lineFeeds hp hp') hs.numbered hp hdown hwhole' hmoved
      hcompletes).sameResult ?_
    rintro x q ⟨a, y, -, rfl, rfl⟩
    exact congrFun (ite_self id) y.position

/-- The second text fails in its first line, which is the second line of both. -/
theorem Session.script_agrees_sample : ∃ p p' : Program,
    ∃ (hp : parseSource "let x = 1;" = .ok p) (hp' : parseSource "x + y" = .ok p'),
      let s : Session := Machine.new .withoutStorage {}
      parseSource ("let x = 1;" ++ "\n" ++ "x + y") =
          .ok ⟨p.statements ++ move (Position.down 1) p'.statements⟩ ∧
        s.Completes 1 "let x = 1;" ∧
        SameButPlaces (s.joining p p' _ (apart_below hp hp')) (s.PutBelow p p' 1)
          ((s.execute 1 "let x = 1;").2.execute 1 "x + y")
          (s.execute 1 ("let x = 1;" ++ "\n" ++ "x + y")) ∧
        (s.execute 1 ("let x = 1;" ++ "\n" ++ "x + y")).1.diagnostics? =
          some [⟨.runtime, "undefined variable `y`", 2, 5⟩] := by
  have hcompletes : Session.Completes (Machine.new .withoutStorage {}) 1 "let x = 1;" := by
    decide +kernel
  have hok : (parseSource "x + y").isOk = true := by decide +kernel
  obtain ⟨p', hp'⟩ : ∃ p', parseSource "x + y" = .ok p' := by
    generalize parseSource "x + y" = r at hok ⊢
    cases r with
    | error => cases hok
    | ok p' => exact ⟨p', rfl⟩
  have hreport : (Session.execute 1 (Machine.new .withoutStorage {})
      ("let x = 1;" ++ "\n" ++ "x + y")).1.diagnostics? =
        some [⟨.runtime, "undefined variable `y`", 2, 5⟩] := by
    decide +kernel
  obtain ⟨p, -, -, hp, -⟩ := id hcompletes
  obtain ⟨hparse, hagrees⟩ := script_agrees 1 (.new .withoutStorage {}) hp hp'
    (by decide +kernel) (by decide +kernel)
  exact ⟨p, p', hp, hp', hparse, hcompletes, (hagrees hcompletes).1, hreport⟩

end Scriptlet
