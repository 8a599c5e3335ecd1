import Scriptlet.Proofs.Eval.Declarations
import Scriptlet.Proofs.Eval.Limits
import Scriptlet.Proofs.Eval.Parts
import Scriptlet.Proofs.Session.Scopes
import Scriptlet.Proofs.Value.Copies

/-!
# Data that is read back

A session that executes `x = ` with the text of data behind it gets data that is equal and has the
same texts (`Session.execute_inspect`). The text is scanned as the marks of an assignment, these are
parsed as a program of one statement, and the statement copies the data.
-/

namespace Scriptlet

open Grammar
open Heap (Alike Grows)

/-! ## From the text to the program -/

/-- The text of an assignment of data to `x`. -/
theorem spelling_assignment {h : Heap} {v : Value} (hv : h.IsData displayLevels v) :
    Spelling ("x = " ++ h.inspect v).toList
      (.name "x" :: .symbol .equal :: h.marks displayLevels v) := by
  have hequal : Spelling ('=' :: ' ' :: (h.inspect v).toList)
      (.symbol .equal :: h.marks displayLevels v) := by
    refine (Heap.spelling_render hv).blank.cons [] (m := .symbol .equal) fun p rest _ => ?_
    exact ⟨⟨.symbol .equal, String.ofList ['='], p⟩, rfl,
      tokensFrom_symbol (s := .equal) rfl (by decide) rfl rfl rfl p⟩
  have hname : Spelling ['x'] [.name "x"] := Spelling.name (x := "x") (by decide)
  have htext := hname.append hequal.blank fun _ _ => delimited_blank _
  rw [String.toList_append]
  exact htext

/-- A text that spells the tokens of one statement is a program of this statement. -/
theorem parseSource_of_spelling {source : String} {ms : List Mark}
    (hsource : Spelling source.toList ms) {P : Stmt → Prop}
    (h : ∀ ts, Spells ms ts [] → ∃ s, Statement ts s [] ∧ P s) :
    ∃ s, parseSource source = .ok ⟨[s]⟩ ∧ P s := by
  obtain ⟨ts, hts, hscan⟩ := hsource Position.start [] delimited_nil
  have hkinds := kinds_of_matches hts
  have hspells : Spells ms (ts ++ []) [] := spells_of_forall₂ hts
  rw [List.append_nil] at hspells hscan
  obtain ⟨s, hs, hP⟩ := h ts hspells
  refine ⟨s, ?_, hP⟩
  have htokens : scan source = ts ++ [⟨.endOfInput, "", Position.start.after source.toList⟩] := hscan
  show parse (scan source) = _
  rw [htokens, parse_eq_ok_iff, textTokens_append (fun t ht => (hkinds t ht).1) (next_cons.mpr rfl)]
  exact ⟨fun t ht => (hkinds t ht).2, .cons hs .nil⟩

/-- The program that assigns data to `x`. -/
theorem exists_parseSource {h : Heap} {v : Value} (hv : h.IsData displayLevels v) :
    ∃ s, parseSource ("x = " ++ h.inspect v) = .ok ⟨[s]⟩ ∧ ∃ p q e,
      s = .expression p (.assign q (.name "x") e) ∧ ∀ g, Copies h v (evalExpr g e) := by
  refine parseSource_of_spelling (spelling_assignment hv) ?_
  rintro _ ⟨x, _, rfl, ⟨hx, hlexeme⟩, o, ts, rfl, ho, hts⟩
  obtain ⟨e, he, hcopies⟩ := Heap.exists_copies hv hts
  have hassign : Expression (x :: o :: ts) (.assign x.position (.name x.lexeme) e) [] :=
    .assign (.identifier hx) rfl ho he
  rw [hlexeme] at hassign
  exact ⟨_, .expression (by simp [hx]) hassign .finish, _, _, e, rfl, hcopies⟩

/-! ## From the program to the value -/

/-- Assigning to a name that is not bound as a constant changes the environment. -/
theorem exists_assign {m : Machine} {x : String}
    (hx : m.env.assignable m.env.current x ≠ .error (.immutableBinding x)) (v : Value) :
    ∃ env, Eval.assign x v m = .ok () { m with env := env } := by
  show ∃ env, Eval.store x v (m.env.assignable m.env.current x) m = .ok () { m with env := env }
  unfold Environment.assignable at hx ⊢
  split at hx
  · exact ⟨_, rfl⟩
  · exact absurd rfl hx
  · exact ⟨_, rfl⟩

/-- Assigning data to a name gives a copy. -/
theorem exists_evalStmt {g : Engine} {m : Machine} {v : Value} {e : Expr}
    (he : Copies m.heap v (evalExpr g e)) (hm : m.interrupted = false) {x : String}
    (hx : m.env.assignable m.env.current x ≠ .error (.immutableBinding x)) (p q : Position) :
    ∃ w levels m', evalStmt g (.expression p (.assign q (.name x) e)) m = .ok w m' ∧
      Alike m.heap m'.heap levels v w ∧ Grows levels m.heap m'.heap := by
  obtain ⟨events, hbegun⟩ : ∃ events,
      (Stmt.expression p (.assign q (.name x) e)).begun m = { m with events := events } := by
    unfold Stmt.begun
    split <;> exact ⟨_, rfl⟩
  obtain ⟨w, levels, heap, heval, hw, hgrows⟩ := he { m with events := events } hm
  obtain ⟨env, hassign⟩ := exists_assign (m := { m with events := events, heap := heap }) hx w
  refine ⟨w, levels, { m with events := events, heap := heap, env := env }, ?_, hw, hgrows⟩
  rw [evalStmt, Eval.traced_eq, hbegun, evalExpr]
  refine Eval.step_ok hm (Eval.step_ok hm ?_)
  rw [Eval.bind_ok heval, Eval.bind_ok hassign]
  rfl

/-- Running the program that assigns data to a name gives a copy. -/
theorem exists_runProgram {m : Machine} {v : Value} {e : Expr}
    (he : ∀ g, Copies m.heap v (evalExpr g e)) (hm : m.interrupted = false) {x : String}
    (hx : m.env.assignable m.env.current x ≠ .error (.immutableBinding x)) (fuel : Nat)
    (p q : Position) :
    ∃ w levels m', runProgram fuel ⟨[.expression p (.assign q (.name x) e)]⟩ m = .ok w m' ∧
      Alike m.heap m'.heap levels v w ∧ Grows levels m.heap m'.heap := by
  let env := (m.env.setLimit m.settings.callLimit).takeNumber.2
  have hscopes : env.scopes = m.env.scopes := rfl
  have hready : env.assignable env.current x ≠ .error (.immutableBinding x) := by
    rw [Environment.assignable_congr hscopes]
    exact hx
  obtain ⟨w, levels, m', hstmt, hw, hgrows⟩ :=
    exists_evalStmt (m := { m with env := env }) (he (.of fuel m.env.numbered)) hm hready p q
  have hstmts : evalStmts (.of fuel m.env.numbered) .undefined
      [.expression p (.assign q (.name x) e)] { m with env := env } = .ok w m' := by
    rw [evalStmts, Eval.bind_ok hstmt, evalStmts]
    rfl
  have hrun : runProgram fuel ⟨[.expression p (.assign q (.name x) e)]⟩ m =
      Eval.ending (programResult (.ok w)) m' := Eval.settling_of_ending (r := .ok w) hstmts
  exact ⟨w, levels, m', hrun, hw, hgrows⟩

/-- A heap with enough new cells has room for a comparison of this depth. -/
theorem lt_pairBound {h h' : Heap} {levels : Nat} (hgrows : Grows levels h h') :
    levels < h'.pairBound := by
  have hcells := hgrows.cells
  have harrays := Nat.le_mul_self h'.arrays.size
  have hobjects := Nat.le_mul_self h'.objects.size
  unfold Heap.cells at hcells
  unfold Heap.pairBound
  omega

/-- Data that has been shown as a text is read back: where `x` may be assigned to, executing `x = `
with the text behind it gives a value that is equal to the data and has the same texts. The data
itself is what it was. -/
theorem Session.execute_inspect (fuel : Nat) (s : Session) {v : Value}
    (hv : s.heap.IsData displayLevels v)
    (hx : s.env.assignable s.env.current "x" ≠ .error (.immutableBinding "x")) :
    ∃ w s', s.execute fuel ("x = " ++ s.heap.inspect v) = (.value w, s') ∧
      s'.heap.equal w v = true ∧ s'.heap.equal v w = true ∧
      s'.heap.display w = s.heap.display v ∧ s'.heap.inspect w = s.heap.inspect v ∧
      s'.heap.inspect v = s.heap.inspect v := by
  obtain ⟨_, hparse, p, q, e, rfl, he⟩ := exists_parseSource hv
  have hrun := exists_runProgram (m := Machine.log { s with interrupted := false }
    (startEvents ("x = " ++ s.heap.inspect v) ⟨[.expression p (.assign q (.name "x") e)]⟩))
    he rfl hx fuel p q
  obtain ⟨w, levels, s', hrun, hw, hgrows⟩ := hrun
  have hboth : Alike s'.heap s'.heap levels v w :=
    hw.mono hgrows.keeps (.refl s'.heap) (Nat.le_refl levels)
  have hroom := lt_pairBound hgrows
  have htext : s.heap.inspect v = s'.heap.inspect w := hw.render_eq displayLevels
  refine ⟨w, s', ?_, hboth.symm.equalAlong hroom [], hboth.equalAlong hroom [], ?_, htext.symm,
    (hboth.render_eq displayLevels).trans htext.symm⟩
  · show Machine.executeSource fuel { s with interrupted := false } _ = _
    rw [Machine.executeSource_eq _ fuel hparse, Machine.execute,
      show (runProgram fuel ⟨[.expression p (.assign q (.name "x") e)]⟩).run _ = _ from hrun]
  · cases hw with
    | string text => rfl
    | _ => exact htext.symm

/-- A session that holds the array `[-5, "a\"b\n", \x7b k: null \x7d]`. -/
def Session.sampleData : Session :=
  { Machine.new (.inMemory .empty) {} with
    heap := { Heap.empty with
      arrays := ⟨#[#[.integer (-5), .string "a\"b\n", .object ⟨0⟩]]⟩
      objects := ⟨#[.ofList [("k", .null)]]⟩ } }

theorem Session.isData_sampleData : sampleData.heap.IsData displayLevels (.array ⟨0⟩) := by
  have hobject : sampleData.heap.IsData (displayLevels - 1) (.object ⟨0⟩) := by
    have hcell : sampleData.heap.objects.get? ⟨0⟩ = some (.ofList [("k", .null)]) := rfl
    refine .object hcell ?_ ?_
    · rintro e he
      obtain rfl := List.mem_singleton.mp he
      decide
    · rintro e he
      obtain rfl := List.mem_singleton.mp he
      exact .null
  have hcell : sampleData.heap.arrays.get? ⟨0⟩ =
      some #[.integer (-5), .string "a\"b\n", .object ⟨0⟩] := rfl
  refine .array hcell fun v hv => ?_
  have hv : v = .integer (-5) ∨ v = .string "a\"b\n" ∨ v = .object ⟨0⟩ := by simpa using hv
  obtain rfl | rfl | rfl := hv
  · exact .integer (by decide)
  · exact .string (List.all_eq_true.mp (by decide +kernel))
  · exact hobject

/-- The array of the sample is read back. -/
theorem Session.execute_inspect_sample : ∃ w s',
    sampleData.execute 0 ("x = " ++ sampleData.heap.inspect (.array ⟨0⟩)) = (.value w, s') ∧
      s'.heap.equal w (.array ⟨0⟩) = true ∧
      s'.heap.inspect w = sampleData.heap.inspect (.array ⟨0⟩) := by
  have hx : sampleData.env.assignable sampleData.env.current "x" ≠ .error (.immutableBinding "x") := by
    have hnew : sampleData.env.assignable sampleData.env.current "x" =
        .error (.undefinedVariable "x") := rfl
    rw [hnew]
    nofun
  obtain ⟨w, s', hrun, hequal, -, -, htext, -⟩ := execute_inspect 0 sampleData isData_sampleData hx
  exact ⟨w, s', hrun, hequal, htext⟩

end Scriptlet
