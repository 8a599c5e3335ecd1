import Scriptlet.Proofs.Eval.Outcomes

/-!
# Programs without `while` and `for` finish

Only `while` and `for` loops run as long as a test holds. A `foreach` loop visits the
items that there are when it begins, whatever its body does to them, and calls end where
the limit on calls is reached, whatever they call. So a program without `while` and `for`
loops finishes: it has a value or fails (`finished_of_no_loop`).

How far a run gets is bounded by two things, one within the other: by the fuel, of which
a call uses one unit and of which there is more than the limit on calls allows
(`Program.Leeway`), and within a call by the syntax. A run that needs files from the
world outside waits for an answer to each request; it finishes too, since there are
finitely many requests, however they are answered.
-/

namespace Scriptlet

/-- The evaluation has a value or fails. -/
inductive Finished {α : Type} : EStateM.Result Stop Machine α → Prop
  | value (a : α) (m : Machine) : Finished (.ok a m)
  | failure (f : Failure) (m : Machine) : Finished (.error (.failure f) m)

/-- Of any sequence of answers, finitely many suffice for an evaluation to come to its end. -/
theorem ComesTo.finished {α : Type} {E : Except Stop α → Machine → Prop} {act : Eval α}
    {m : Machine} (h : ComesTo E act m)
    (hE : ∀ r m' m'', E r m' → Finished (Eval.ending r m'')) (answers : Nat → FileAnswer) :
    ∃ n, ∀ k, n ≤ k → Finished (act (m.feed ((List.range k).map answers))) := by
  induction h generalizing answers with
  | ended hact hend =>
    refine ⟨0, fun k _ => ?_⟩
    rw [hact]
    exact hE _ _ _ hend
  | asks _ _ ih =>
    -- The first answer is the one that is asked for; the others are for what follows.
    obtain ⟨n, hn⟩ := ih (answers 0) fun i => answers (i + 1)
    refine ⟨n + 1, fun k hk => ?_⟩
    obtain ⟨j, rfl⟩ : ∃ j, k = j + 1 := ⟨k - 1, by omega⟩
    have hfinished := hn j (by omega)
    rw [Machine.feed_feed] at hfinished
    rw [List.range_succ_eq_map, List.map_cons, List.map_map]
    exact hfinished

/-- A program without `while` and `for` loops, in its routines too, that is run with the standard
built-in functions finishes, under any limit on calls: on a host with files of its own, and with files
of the world outside once there are enough answers, whatever they are. -/
theorem finished_of_no_loop {p : Program} (hp : ∀ x, p.Contains x → x.repeats = false) (host : Host)
    (settings : Settings) (interrupted : Bool) {fuel : Nat} (hfuel : settings.callLimit < fuel) :
    (∀ answers : Nat → FileAnswer, ∃ n, ∀ k, n ≤ k → Finished (runProgram fuel p
      ({ Machine.new host settings with interrupted := interrupted }.feed
        ((List.range k).map answers)))) ∧
    ((∀ given lines, host.storage ≠ .external given lines) → Finished (runProgram fuel p
      { Machine.new host settings with interrupted := interrupted })) := by
  let m : Machine := { Machine.new host settings with interrupted := interrupted }
  have hm : m.Holds p.HasRoutine := ⟨.withPrelude _, .empty⟩
  have hrepeats : ∀ x, p.Contains x → x.repeats = true → False := by
    intro x hx hr
    rw [hp x hx] at hr
    cases hr
  have hroom : m.env.callDepth ≤ m.settings.callLimit ∧
      m.settings.callLimit < m.env.callDepth + fuel := by
    have hdepth : m.env.callDepth = 0 := rfl
    have hlimit : m.settings.callLimit = settings.callLimit := rfl
    omega
  have hall := (p.run_comesTo hrepeats fuel hm (.inr hroom)).finished fun r _ m'' hr => by
    cases r with
    | ok v => exact .value v m''
    | error e =>
      cases e with
      | failure f => exact .failure f m''
      | signal s => exact hr.elim
      | unfinished why => exact hr.elim
  refine ⟨hall, fun hown => ?_⟩
  obtain ⟨n, hn⟩ := hall fun _ => .done
  have hfeed : m.feed ((List.range n).map fun _ => .done) = m := by
    unfold Machine.feed Host.feed Storage.feed
    split
    · exact absurd ‹_› (hown _ _)
    · rfl
  have hdone := hn n (Nat.le_refl n)
  rw [hfeed] at hdone
  exact hdone

/-- The function `function f() { f(); }`, whose calls would nest without end. -/
def callingItself : Routine :=
  ⟨"f", [], [.expression ⟨1, 16⟩ (.call ⟨1, 16⟩ (.identifier ⟨1, 16⟩ "f") [])], ⟨1, 10⟩⟩

/-- The program `function f() { f(); } foreach (x : "ab") readFile(x); f();`. -/
def endlessCalls : Program :=
  ⟨[.function ⟨1, 1⟩ callingItself,
    .foreachLoop ⟨1, 23⟩ "x" (.string ⟨1, 36⟩ "ab")
      (.expression ⟨1, 42⟩ (.call ⟨1, 42⟩ (.identifier ⟨1, 42⟩ "readFile")
        [.identifier ⟨1, 51⟩ "x"])),
    .expression ⟨1, 55⟩ (.call ⟨1, 55⟩ (.identifier ⟨1, 55⟩ "f") [])]⟩

/-- The program has no `while` or `for` loop, and finishes under a limit of three calls. -/
theorem finished_of_no_loop_sample : (∀ x, endlessCalls.Contains x → x.repeats = false) ∧
    (∀ answers : Nat → FileAnswer, ∃ n, ∀ k, n ≤ k → Finished (runProgram 4 endlessCalls
      ({ Machine.new ⟨"", .external [] []⟩ ⟨3, false⟩ with interrupted := false }.feed
        ((List.range k).map answers)))) ∧
    Finished (runProgram 4 endlessCalls
      { Machine.new .withoutStorage ⟨3, false⟩ with interrupted := false }) := by
  have hplain : ∀ x, endlessCalls.Contains x →
      x.repeats = false ∧ ∀ r ∈ x.routines, r = callingItself := by
    have outside : ∀ x ∈ stmtsNodes endlessCalls.statements,
        x.repeats = false ∧ ∀ r ∈ x.routines, r = callingItself := by
      simp [endlessCalls, stmtsNodes, Stmt.nodes, Expr.nodes, exprsNodes, Node.repeats,
        Node.routines]
    have inside : ∀ x ∈ stmtsNodes callingItself.body,
        x.repeats = false ∧ ∀ r ∈ x.routines, r = callingItself := by
      simp [callingItself, stmtsNodes, Stmt.nodes, Expr.nodes, exprsNodes, Node.repeats,
        Node.routines]
    intro x hx
    induction hx with
    | outside hx => exact outside _ hx
    | inside _ hr hx ih =>
      rw [ih.2 _ hr] at hx
      exact inside _ hx
  have hp := fun x hx => (hplain x hx).1
  have hfuel : (⟨3, false⟩ : Settings).callLimit < 4 := by decide
  obtain ⟨hexternal, -⟩ := finished_of_no_loop hp ⟨"", .external [] []⟩ ⟨3, false⟩ false hfuel
  obtain ⟨-, hown⟩ := finished_of_no_loop hp .withoutStorage ⟨3, false⟩ false hfuel
  refine ⟨hp, hexternal, hown fun _ _ h => ?_⟩
  cases h

end Scriptlet
