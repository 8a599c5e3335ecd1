import Scriptlet.Text.Blank
import Scriptlet.Text.Cluster

/-!
# Typed lines

A typed line may hold backspaces, each of which erases the cluster before it. The
size of a cluster in UTF-8 is kept as one byte, so that of a cluster of 256 bytes
or more only the end is erased.

* `TypedLine.text_ofKeys`: without backspaces a line is what was typed.
-/

namespace Scriptlet.CommandLine

/-- The text that stands, last character first, and the sizes of its clusters, last cluster
first. -/
structure TypedLine where
  reversed : List Char
  sizes : List Nat

namespace TypedLine

/-- The key that erases. -/
def backspace : Char := '\x08'

/-- How many bytes are to be erased with a cluster. -/
def keptSize (cluster : List Char) : Nat :=
  (String.ofList cluster).utf8ByteSize % 256

/-- A reversed text without its last `n` bytes. -/
def dropBytes : Nat → List Char → List Char
  | _, [] => []
  | n, c :: rest => if n = 0 then c :: rest else dropBytes (n - c.utf8Size) rest

/-- The line after one more cluster. -/
def press (t : TypedLine) (cluster : List Char) : TypedLine :=
  if cluster = [backspace] then
    match t.sizes with
    | n :: sizes => ⟨dropBytes n t.reversed, sizes⟩
    | [] => t
  else ⟨cluster.reverse ++ t.reversed, keptSize cluster :: t.sizes⟩

/-- The text that stands. -/
def text (t : TypedLine) : List Char :=
  t.reversed.reverse

/-- The line after all that was typed. -/
def ofKeys (typed : List Char) : TypedLine :=
  (Text.clusters typed).foldl press ⟨[], []⟩

theorem text_foldl_press (t : TypedLine) (ks : List (List Char))
    (h : ∀ k ∈ ks, k ≠ [backspace]) : (ks.foldl press t).text = t.text ++ ks.flatten := by
  induction ks generalizing t with
  | nil => simp
  | cons k ks ih =>
    rw [List.foldl_cons, ih _ fun k' hk => h k' (List.mem_cons_of_mem _ hk)]
    simp [press, h k List.mem_cons_self, text]

/-- Without backspaces a line is what was typed. -/
theorem text_ofKeys {typed : List Char} (h : backspace ∉ typed) :
    (ofKeys typed).text = typed := by
  rw [ofKeys, text_foldl_press _ _ fun k hk e => ?_, Text.flatten_clusters]
  · simp [text]
  · refine h ?_
    rw [← Text.flatten_clusters typed]
    exact List.mem_flatten.mpr ⟨k, hk, by simp [e]⟩

end TypedLine

/-- A typed line as it counts: backspaces carried out, and no blanks at its ends. -/
def cleanLine (line : String) : String :=
  Text.trim (String.ofList (TypedLine.ofKeys line.toList).text)

end Scriptlet.CommandLine
