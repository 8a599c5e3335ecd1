import Scriptlet.Machine
import Scriptlet.Value.Render

/-!
# Running built-in functions

The body of a built-in function is run on a machine: it is shown the arguments, and the
host of the machine answers its requests.
-/

namespace Scriptlet

namespace Heap

/-- What a body sees of an argument. -/
def sight (h : Heap) (v : Value) : Sight where
  label := h.label v
  unfolding := h.unfolding v
  text quoted := if quoted then h.inspect v else h.display v

/-- The value that the result of a body is. There is nothing at the end of a path that leads out of
the argument. -/
def yielded (h : Heap) (args : List Value) : Yield → Value
  | .datum d => d.value
  | .part i path => (args[i]?.bind (h.reached? path)).getD .undefined

end Heap

/-- Does what the body of a built-in function with the given name does. -/
def Action.run (name : String) (args : List Value) : Action → Eval Value
  | .give result => return (← get).heap.yielded args result
  | .complain message => Eval.fail (.builtinFailed name message)
  | .relay e => Eval.fail (.hostFailure e)
  | .print line next => do
    let reply ← Eval.ask fun host => host.print line
    (next reply).run name args
  | .read path next => do
    let reply ← Eval.ask fun host => host.fetch path
    (next reply).run name args
  | .write path text next => do
    let reply ← Eval.ask fun host => host.save path text
    (next reply).run name args
  | .interrupt next => do
    modify fun m => { m with interrupted := true }
    next.run name args

/-- Runs the body of a built-in function. -/
def Primitive.run (p : Primitive) (args : List Value) : Eval Value := do
  let heap := (← get).heap
  (p.body (args.map heap.sight)).run p.name args

end Scriptlet
