import Scriptlet.Proofs.Eval.Variations

/-!
# The limit on calls

The limit on calls is looked at in one place only, where a call begins, and a failure
there goes through to the end of the program: no loop, call or constructor takes it and
goes on. So a run that does not fail for this reason would have been the same under any
higher limit (`runProgram_raised`).

`Eval.Unhindered limit act Q` says this of an evaluation: if it is begun under a limit of
at most `limit`, then either too many calls were in progress at some moment, and it failed
for that reason, or it ends in the same way under `limit`, on the same machine up to the
limit itself. If it has a result, the result satisfies `Q`. This is what it is to follow the
variation `raised limit`, in which no failure is lost but this one.
-/

namespace Scriptlet

/-- The machine under another limit on calls. -/
def Machine.withLimit (m : Machine) (limit : Nat) : Machine :=
  { m with
    env := m.env.setLimit limit
    settings := { m.settings with callLimit := limit } }

/-- Whether the program fails because too many calls are in progress. -/
def Cause.isOverflow : Cause → Bool
  | .stackOverflow _ _ => true
  | _ => false

/-- The evaluation ended because too many calls were in progress. -/
def Overflows {α : Type} : Except Stop α → Prop
  | .error (.failure f) => f.cause.isOverflow = true
  | _ => False

/-! ## Evaluations under a higher limit -/

/-- Begun under a limit of at most `limit`, the evaluation leaves it, its result satisfies `Q`, and
unless too many calls were in progress it ends in the same way under `limit`. -/
def Eval.Unhindered {α : Type} (limit : Nat) (act : Eval α) (Q : α → Prop) : Prop :=
  ∀ m, m.env.callLimit ≤ limit → ∃ r m', act m = ending r m' ∧
    m'.env.callLimit = m.env.callLimit ∧ (∀ a, r = .ok a → Q a) ∧
    (Overflows r ∨ act (m.withLimit limit) = ending r (m'.withLimit limit))

/-- The limit is raised to `limit`, in the settings too. -/
def raised (limit : Nat) : Variation where
  limit _ := limit
  settings σ := { σ with callLimit := limit }
  events es := es
  Fits n := n ≤ limit
  Lost c := c.isOverflow = true
  callLimit_settings _ := rfl
  le_limit hn := hn
  overflow _ := .inr fun _ => rfl
  push _ _ := rfl
  begun _ _ _ := rfl

/-- What ends in the same way under a higher limit, as a calculus: what meets it is
`Eval.Unhindered limit`. -/
def raising (limit : Nat) : Calculus := (raised limit).calculus

/-- If a program does not fail because too many calls were in progress, then under any higher limit
it ends in the same way, be it with a value or with a failure at the same position, on the same
machine up to the limit: what it has printed, the files, the cells, the bindings and the events are
the same. -/
theorem runProgram_raised (fuel : Nat) (p : Program) (m : Machine) {limit : Nat}
    (hlimit : m.settings.callLimit ≤ limit) {r : Except Stop Value} {m' : Machine}
    (hrun : runProgram fuel p m = Eval.ending r m')
    (hr : ∀ depth most position, r ≠ .error (.failure ⟨.stackOverflow depth most, position⟩)) :
    runProgram fuel p { m with settings := { m.settings with callLimit := limit } } =
      Eval.ending r (m'.withLimit limit) := by
  let rest : Eval Value := do
    let n ← numberProgram
    Eval.settling programResult (evalStmts (.of fuel n) .undefined p.statements)
  have hrest : rest.Unhindered limit fun _ => True :=
    (raising limit).settled (w := ()) (S := fun _ _ => True) fuel (fun _ _ => trivial)
      fun _ _ => trivial
  -- Once the limit is set, the two runs differ in nothing else.
  let limited : Machine := { m with env := m.env.setLimit m.settings.callLimit }
  have hlow : runProgram fuel p m = rest limited := rfl
  have hhigh : runProgram fuel p { m with settings := { m.settings with callLimit := limit } } =
      rest (limited.withLimit limit) := rfl
  obtain ⟨r', m'', hr', -, -, hraised⟩ := hrest limited hlimit
  have hsame : r' = r ∧ m'' = m' := by
    rw [hlow, hr'] at hrun
    cases r' <;> cases r <;> cases hrun <;> exact ⟨rfl, rfl⟩
  obtain ⟨rfl, rfl⟩ := hsame
  rw [hhigh]
  refine hraised.resolve_left fun hover => ?_
  match r', hover with
  | .error (.failure ⟨.stackOverflow depth most, position⟩), _ => exact hr depth most position rfl

/-- The program `function f(n) { if (n) return f(n - 1); print(n); } f(2);`. -/
def countingDown : Program :=
  ⟨[.function ⟨1, 1⟩ ⟨"f", ["n"],
      [.conditional ⟨1, 17⟩ (.identifier ⟨1, 21⟩ "n")
        (.returnStmt ⟨1, 24⟩ (some (.call ⟨1, 31⟩ (.identifier ⟨1, 31⟩ "f")
          [.binary ⟨1, 33⟩ .subtract (.identifier ⟨1, 33⟩ "n") (.integer ⟨1, 37⟩ 1)]))) none,
        .expression ⟨1, 41⟩ (.call ⟨1, 41⟩ (.identifier ⟨1, 41⟩ "print")
          [.identifier ⟨1, 47⟩ "n"])], ⟨1, 10⟩⟩,
    .expression ⟨1, 53⟩ (.call ⟨1, 53⟩ (.identifier ⟨1, 53⟩ "f") [.integer ⟨1, 55⟩ 2])]⟩

/-- The program has ended without a value of its own, and has printed the text. -/
def printsText (text : String) : EStateM.Result Stop Machine Value → Bool
  | .ok .undefined m => m.host.output == text
  | _ => false

theorem eq_of_printsText {text : String} {r : EStateM.Result Stop Machine Value}
    (h : printsText text r = true) : ∃ m, r = .ok .undefined m ∧ m.host.output = text := by
  unfold printsText at h
  split at h
  · exact ⟨_, rfl, eq_of_beq h⟩
  · contradiction

/-- Three calls may nest, which is just enough for the program; it does the same where more may. -/
theorem runProgram_raised_sample : ∃ m',
    runProgram 4 countingDown (.new .withoutStorage ⟨3, false⟩) = .ok .undefined m' ∧
    m'.host.output = "0\n" ∧
    runProgram 4 countingDown (.new .withoutStorage ⟨1000, false⟩) =
      .ok .undefined (m'.withLimit 1000) := by
  have hprints : printsText "0\n"
      (runProgram 4 countingDown (.new .withoutStorage ⟨3, false⟩)) = true := by decide +kernel
  obtain ⟨m', hrun, houtput⟩ := eq_of_printsText hprints
  refine ⟨m', hrun, houtput, ?_⟩
  have hlimit : (Machine.new .withoutStorage ⟨3, false⟩).settings.callLimit ≤ 1000 := by decide
  exact runProgram_raised 4 countingDown _ hlimit (r := .ok .undefined) hrun nofun

end Scriptlet
