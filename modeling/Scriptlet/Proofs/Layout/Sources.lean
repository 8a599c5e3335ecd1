import Scriptlet.Session
import Scriptlet.Proofs.Layout.Evaluation
import Scriptlet.Proofs.Layout.Parser
import Scriptlet.Proofs.Syntax.Mistakes
import Scriptlet.Proofs.Token.Slices

/-!
# Texts that differ in their layout

Two texts that differ only in blanks, line breaks and comments have the same tokens at
other positions. As the tokens of a text stand in order, there is a move of positions that
takes those of the first text to those of the second, takes no two positions to one, and
keeps the order of the tokens (`SameTokens.exists_move`). So the execution of the second
text is that of the first, moved (`SameEnd.executeSource`), and this is nothing that a user
of the interpreter could see, but for the positions of reports (`layout_irrelevant`).
-/

namespace Scriptlet

/-- The texts have the same tokens, at whatever positions. -/
def SameTokens (s t : String) : Prop :=
  (scan s).map (fun t => (t.kind, t.lexeme)) = (scan t).map fun t => (t.kind, t.lexeme)

instance (s t : String) : Decidable (SameTokens s t) := inferInstanceAs (Decidable (_ = _))

/-! ## Moving positions in pairs -/

/-- Moves the first position of each pair to the second one, and all others `far` lines down. -/
def moveAlong (far : Nat) : List (Position × Position) → Position → Position
  | [], x => ⟨x.line + far, x.column⟩
  | (p, q) :: pairs, x => if x = p then q else moveAlong far pairs x

/-- The positions on both sides are in order. -/
def InStep (pairs : List (Position × Position)) : Prop :=
  pairs.Pairwise fun a b => a.1.Before b.1 ∧ a.2.Before b.2

namespace Position.Before

variable {p q : Position}

theorem le_eq_true (h : p.Before q) : p.le q = true := by
  unfold Position.Before at h
  simp only [Position.le, Bool.or_eq_true, Bool.and_eq_true, decide_eq_true_eq, beq_iff_eq]
  omega

theorem le_eq_false (h : p.Before q) : q.le p = false := by
  unfold Position.Before at h
  simp only [Position.le, Bool.or_eq_false_iff, Bool.and_eq_false_iff, decide_eq_false_iff_not,
    beq_eq_false_iff_ne]
  omega

end Position.Before

section

variable {far : Nat} {pairs : List (Position × Position)} {x p q p' q' : Position}

theorem exists_line_lt (pairs : List (Position × Position)) :
    ∃ far, ∀ pair ∈ pairs, pair.2.line < far := by
  induction pairs with
  | nil => exact ⟨0, nofun⟩
  | cons pair pairs ih =>
    obtain ⟨far, hfar⟩ := ih
    refine ⟨max (pair.2.line + 1) far, List.forall_mem_cons.mpr ⟨?_, fun p hp => ?_⟩⟩
    · exact Nat.lt_of_lt_of_le (Nat.lt_succ_self _) (Nat.le_max_left _ _)
    · exact Nat.lt_of_lt_of_le (hfar p hp) (Nat.le_max_right _ _)

theorem moveAlong_of_mem (h : InStep pairs) (hmem : (p, q) ∈ pairs) :
    moveAlong far pairs p = q := by
  induction pairs with
  | nil => cases hmem
  | cons pair pairs ih =>
    obtain ⟨hfirst, hrest⟩ := List.pairwise_cons.mp h
    unfold moveAlong
    rcases List.mem_cons.mp hmem with rfl | hmem
    · exact if_pos rfl
    · rw [if_neg (hfirst _ hmem).1.ne.symm]
      exact ih hrest hmem

theorem moveAlong_cases (far : Nat) (pairs : List (Position × Position)) (x : Position) :
    (x, moveAlong far pairs x) ∈ pairs ∨ moveAlong far pairs x = ⟨x.line + far, x.column⟩ := by
  induction pairs with
  | nil => exact .inr rfl
  | cons pair pairs ih =>
    obtain ⟨p, q⟩ := pair
    unfold moveAlong
    split
    · subst_vars
      exact .inl List.mem_cons_self
    · exact ih.imp_left (List.mem_cons_of_mem _)

theorem InStep.eq_or_before (h : InStep pairs) (hp : (p, q) ∈ pairs) (hp' : (p', q') ∈ pairs) :
    (p = p' ∧ q = q') ∨ (p.Before p' ∧ q.Before q') ∨ (p'.Before p ∧ q'.Before q) := by
  induction pairs with
  | nil => cases hp
  | cons pair pairs ih =>
    obtain ⟨hfirst, hrest⟩ := List.pairwise_cons.mp h
    rcases List.mem_cons.mp hp with hhead | hmem <;> rcases List.mem_cons.mp hp' with hhead' | hmem'
    · cases hhead.trans hhead'.symm
      exact .inl ⟨rfl, rfl⟩
    · cases hhead
      exact .inr (.inl (hfirst (p', q') hmem'))
    · cases hhead'
      exact .inr (.inr (hfirst (p, q) hmem))
    · exact ih hrest hmem hmem'

theorem moveAlong_injective (h : InStep pairs) (hfar : ∀ pair ∈ pairs, pair.2.line < far) :
    Function.Injective (moveAlong far pairs) := by
  intro x y hxy
  rcases moveAlong_cases far pairs x with hx | hx <;> rcases moveAlong_cases far pairs y with hy | hy
  · rw [← hxy] at hy
    rcases h.eq_or_before hx hy with heq | hbefore | hbefore
    · exact heq.1
    · exact absurd rfl hbefore.2.ne
    · exact absurd rfl hbefore.2.ne
  · have hline := hfar _ hx
    rw [hxy, hy] at hline
    exact absurd hline (Nat.not_lt.mpr (Nat.le_add_left _ _))
  · have hline := hfar _ hy
    rw [← hxy, hx] at hline
    exact absurd hline (Nat.not_lt.mpr (Nat.le_add_left _ _))
  · rw [hx, hy] at hxy
    injection hxy with hline hcolumn
    obtain ⟨line, column⟩ := x
    obtain ⟨line', column'⟩ := y
    exact congrArg₂ Position.mk (Nat.add_right_cancel hline) hcolumn

theorem InStep.le_eq (h : InStep pairs) (hp : (p, q) ∈ pairs) (hp' : (p', q') ∈ pairs) :
    p.le p' = q.le q' := by
  rcases h.eq_or_before hp hp' with ⟨rfl, rfl⟩ | ⟨hbefore, hbefore'⟩ | ⟨hbefore, hbefore'⟩
  · have refl (p : Position) : p.le p = true := by simp [Position.le]
    rw [refl, refl]
  · rw [hbefore.le_eq_true, hbefore'.le_eq_true]
  · rw [hbefore.le_eq_false, hbefore'.le_eq_false]

end

/-! ## The tokens of a text -/

theorem Token.move_eq {ρ : Position → Position} {a b : Token}
    (h : (a.kind, a.lexeme) = (b.kind, b.lexeme))
    (hposition : ρ a.position = b.position) : move ρ a = b := by
  obtain ⟨kind, lexeme, p⟩ := a
  obtain ⟨kind', lexeme', q⟩ := b
  cases h
  exact congrArg (Token.mk kind lexeme) hposition

/-- The tokens of the second text are those of the first, moved; no two positions are moved to one,
and those of tokens keep their order. -/
theorem SameTokens.exists_move {s t : String} (h : SameTokens s t) :
    ∃ ρ : Position → Position, Function.Injective ρ ∧ scan t = move ρ (scan s) ∧
      ∀ a ∈ scan s, ∀ b ∈ scan s, a.position.le b.position = (ρ a.position).le (ρ b.position) := by
  have hlength : (scan s).length = (scan t).length := by
    have hlength := congrArg List.length h
    rwa [List.length_map, List.length_map] at hlength
  let pairs := ((scan s).zip (scan t)).map fun p => (p.1.position, p.2.position)
  obtain ⟨far, hfar⟩ := exists_line_lt pairs
  have hpairs : InStep pairs := by
    refine List.pairwise_iff_getElem.mpr fun i j hi hj hij => ?_
    have hbefore := List.pairwise_iff_getElem.mp (scan_before s)
    have hbefore' := List.pairwise_iff_getElem.mp (scan_before t)
    simp only [pairs, List.length_map, List.length_zip] at hi hj
    simp only [pairs, List.getElem_map, List.getElem_zip]
    exact ⟨hbefore i j (by omega) (by omega) hij, hbefore' i j (by omega) (by omega) hij⟩
  have hpair (i : Nat) (hs : i < (scan s).length) (ht : i < (scan t).length) :
      ((scan s)[i].position, (scan t)[i].position) ∈ pairs := by
    have hzip : i < ((scan s).zip (scan t)).length := by
      rw [List.length_zip]
      omega
    refine List.mem_map.mpr ⟨((scan s).zip (scan t))[i], List.getElem_mem hzip, ?_⟩
    rw [List.getElem_zip]
  have hmoved (i : Nat) (hs : i < (scan s).length) (ht : i < (scan t).length) :
      moveAlong far pairs (scan s)[i].position = (scan t)[i].position :=
    moveAlong_of_mem hpairs (hpair i hs ht)
  refine ⟨moveAlong far pairs, moveAlong_injective hpairs hfar, ?_, fun a ha b hb => ?_⟩
  · refine List.ext_getElem (hlength.symm.trans (length_move _ _).symm) fun i ht hs => ?_
    rw [length_move] at hs
    have heq : ((scan s)[i].kind, (scan s)[i].lexeme) = ((scan t)[i].kind, (scan t)[i].lexeme) := by
      have hget := List.getElem_of_eq h (i := i) (by rwa [List.length_map])
      rwa [List.getElem_map, List.getElem_map] at hget
    show _ = ((scan s).map (move (moveAlong far pairs)))[i]
    rw [List.getElem_map]
    exact (Token.move_eq heq (hmoved i hs ht)).symm
  · obtain ⟨i, hi, rfl⟩ := List.getElem_of_mem ha
    obtain ⟨j, hj, rfl⟩ := List.getElem_of_mem hb
    rw [hmoved i hi (hlength ▸ hi), hmoved j hj (hlength ▸ hj)]
    exact hpairs.le_eq (hpair i hi _) (hpair j hj _)

/-! ## Execution -/

/-- The second execution ends as the first one does, but for positions: on the same machine, moved,
with the same value, moved, or with reports of the same kinds that say the same in the same order.
-/
structure SameEnd (ρ : Position → Position) (a b : Outcome × Machine) : Prop where
  machine : b.2 = move ρ a.2
  value : ∀ v, a.1 = .value v → b.1 = .value (move ρ v)
  diagnostics : ∀ ds, a.1 = .diagnostics ds → ∃ ds', b.1 = .diagnostics ds' ∧
    ds'.map (fun d => (d.stage, d.message)) = ds.map fun d => (d.stage, d.message)
  unfinished : ∀ why, a.1 = .unfinished why → b.1 = .unfinished why

theorem Machine.log_move (ρ : Position → Position) (m : Machine) (events : List Event) :
    (move ρ m).log (move ρ events) = move ρ (m.log events) := by
  have pushed (es : List Event) (a : Array Event) :
      (move ρ es).foldl Array.push (move ρ a) = move ρ (es.foldl Array.push a) := by
    induction es generalizing a with
    | nil => rfl
    | cons e es ih =>
      have hpush : (move ρ a).push (move ρ e) = move ρ (a.push e) := Array.map_push.symm
      rw [move_cons, List.foldl_cons, hpush]
      exact ih _
  exact congrArg (fun events => { move ρ m with events := events }) (pushed events m.events)

namespace SameEnd

variable {ρ : Position → Position}

theorem ofValue (v : Value) (m : Machine) :
    SameEnd ρ (.value v, m) (.value (move ρ v), move ρ m) where
  machine := rfl
  value _ h := by cases h; rfl
  diagnostics _ h := nomatch h
  unfinished _ h := nomatch h

theorem ofDiagnostics {ds ds' : List Diagnostic}
    (h : ds'.map (fun d => (d.stage, d.message)) = ds.map fun d => (d.stage, d.message))
    {m m' : Machine} (hm : m' = move ρ m) :
    SameEnd ρ (.diagnostics ds, m) (.diagnostics ds', m') where
  machine := hm
  value _ h := nomatch h
  diagnostics _ heq := by cases heq; exact ⟨ds', rfl, h⟩
  unfinished _ h := nomatch h

theorem ofUnfinished (why : Unfinished) (m : Machine) :
    SameEnd ρ (.unfinished why, m) (.unfinished why, move ρ m) where
  machine := rfl
  value _ h := nomatch h
  diagnostics _ h := nomatch h
  unfinished _ h := by cases h; rfl

theorem execute (hρ : Function.Injective ρ) (fuel : Nat) (m : Machine) (p : Program) :
    SameEnd ρ (m.execute fuel p) ((move ρ m).execute fuel (move ρ p)) := by
  unfold Machine.execute
  rw [show (runProgram fuel (move ρ p)).run (move ρ m) = move ρ ((runProgram fuel p).run m) from
    runProgram_follows hρ fuel p m]
  match (runProgram fuel p).run m with
  | .ok v m' => exact ofValue v m'
  | .error (.failure f) m' =>
    refine ofDiagnostics ?_ (m'.log_move ρ [.evaluationFailed f.message])
    obtain ⟨cause, position⟩ := f
    cases position <;> rfl
  | .error (.signal s) m' => exact ofDiagnostics rfl rfl
  | .error (.unfinished why) m' => exact ofUnfinished why m'

theorem executeSource (hρ : Function.Injective ρ) {s t : String} (hscan : scan t = move ρ (scan s))
    (horder : ∀ a ∈ scan s, ∀ b ∈ scan s,
      a.position.le b.position = (ρ a.position).le (ρ b.position)) (fuel : Nat) (m : Machine) :
    SameEnd ρ (m.executeSource fuel s) ((move ρ m).executeSource fuel t) := by
  have hend := exists_endOfInput s
  have hreading : Reading.ofTokens (scan t) = move ρ (Reading.ofTokens (scan s)) := by
    rw [hscan]
    exact Reading.ofTokens_move hend
  have hevents : (.scanned (scan t).length ::
      (move ρ (Reading.ofTokens (scan s))).mistakes.map fun e => .mistakeMet e.message) =
      move ρ (.scanned (scan s).length ::
        (Reading.ofTokens (scan s)).mistakes.map fun e => Event.mistakeMet e.message) := by
    refine congrArg₂ List.cons ?_ ?_
    · rw [hscan, length_move]
      rfl
    · exact List.map_map.trans
        (List.map_map (g := move ρ) (f := fun e : ParseError => Event.mistakeMet e.message)).symm
  have herrors : (move ρ (Reading.ofTokens (scan s))).errors =
      move ρ (Reading.ofTokens (scan s)).errors := by
    refine Reading.errors_move fun a ha b hb => ?_
    obtain ⟨t, ht, hat⟩ := Reading.exists_token hend a ha
    obtain ⟨u, hu, hbu⟩ := Reading.exists_token hend b hb
    rw [hat, hbu]
    exact horder t ht u hu
  unfold Machine.executeSource
  dsimp only
  rw [hreading, hevents, Machine.log_move]
  generalize m.log _ = m
  generalize Reading.ofTokens (scan s) = reading at herrors
  have hmistakes {α : Type} [Movable α] (as : List α) : (move ρ as).isEmpty = as.isEmpty := by
    cases as <;> rfl
  have hresult : (move ρ reading).result = move ρ reading.result := by
    unfold Reading.result
    rw [herrors, show (move ρ reading).faults.isEmpty = _ from hmistakes reading.faults,
      show (move ρ reading).mistakes.isEmpty = _ from hmistakes reading.mistakes]
    split <;> rfl
  rw [hresult]
  cases reading.result with
  | error errors =>
    refine ofDiagnostics ?_ ?_
    · show (((errors.map (move ρ)).map Diagnostic.ofSyntaxError).map _) = _
      rw [List.map_map, List.map_map, List.map_map]
      refine List.map_congr_left fun e _ => ?_
      cases e <;> rfl
    · rw [length_move]
      exact m.log_move ρ [.parseFailed errors.length]
  | ok p =>
    have hlength : (move ρ p).statements.length = p.statements.length := length_move ρ p.statements
    have hlog (n : Nat) : (move ρ m).log [.programRead n, .parsed n] =
        move ρ (m.log [.programRead n, .parsed n]) := m.log_move ρ [.programRead n, .parsed n]
    show SameEnd ρ _ (((move ρ m).log [.programRead (move ρ p).statements.length,
      .parsed (move ρ p).statements.length]).execute fuel (move ρ p))
    rw [hlength, hlog]
    exact execute hρ fuel _ p

end SameEnd

/-- The layout of a text does not matter. If two texts have the same tokens, at whatever positions,
then with equal settings and hosts and with as much fuel both end with a value, or both with
reports, or both remain unfinished for the same reason. Some injective `ρ` takes the positions of
the first text to those of the second, and the value and the machine in the end are the same but for
this move. So are the reports, of which there are as many with the same kinds and messages in the
same order. What was printed and the files are the same, and so are the texts of the value. -/
theorem layout_irrelevant (fuel : Nat) (host : Host) (settings : Settings) (interrupted : Bool)
    {s t : String} (h : SameTokens s t) :
    ∃ ρ : Position → Position, Function.Injective ρ ∧ scan t = move ρ (scan s) ∧
      let a := executeWith fuel host settings interrupted s
      let b := executeWith fuel host settings interrupted t
      SameEnd ρ a b ∧ b.2.host = a.2.host ∧
        ∀ v, b.2.heap.display (move ρ v) = a.2.heap.display v ∧
          b.2.heap.inspect (move ρ v) = a.2.heap.inspect v := by
  obtain ⟨ρ, hρ, hscan, horder⟩ := h.exists_move
  let start : Machine := { Machine.new host settings with interrupted := interrupted }
  have hstart : move ρ start = start :=
    congrArg (fun m : Machine => { m with interrupted := interrupted })
      (Machine.new_move ρ host settings)
  have hends : SameEnd ρ (executeWith fuel host settings interrupted s)
      (executeWith fuel host settings interrupted t) := by
    have hends := SameEnd.executeSource hρ hscan horder fuel start
    rwa [hstart] at hends
  refine ⟨ρ, hρ, hscan, hends, ?_, fun v => ⟨?_, ?_⟩⟩
  · rw [hends.machine]
    rfl
  · rw [hends.machine]
    exact Heap.display_move ρ _ v
  · rw [hends.machine]
    exact Heap.render_move ρ _ displayLevels v

/-- A text with blanks, line breaks and a comment. -/
def sparseSample : String :=
  "function pair(x) { return [x, x]; }  // twice\n\nprint(pair == pair);\npair( 4 );"

/-- The same text without them. -/
def denseSample : String :=
  "function pair(x){return[x,x];}print(pair==pair);pair(4);"

/-- Whether an execution ends with a value of the given text. -/
def endsWithText (text : String) (a : Outcome × Machine) : Bool :=
  match a.1 with
  | .value v => a.2.heap.display v == text
  | _ => false

theorem exists_of_endsWithText {text : String} {a : Outcome × Machine}
    (h : endsWithText text a = true) : ∃ v, a.1 = .value v ∧ a.2.heap.display v = text := by
  unfold endsWithText at h
  split at h
  · exact ⟨_, ‹_›, eq_of_beq h⟩
  · contradiction

/-- What the first text prints and ends with, the second does. -/
theorem layout_irrelevant_sample :
    SameTokens sparseSample denseSample ∧
    ∃ v, (executeWith 9 .withoutStorage {} false denseSample).1 = .value v ∧
      (executeWith 9 .withoutStorage {} false denseSample).2.heap.display v = "[4, 4]" ∧
      (executeWith 9 .withoutStorage {} false denseSample).2.host.output = "true\n" := by
  have hsame : SameTokens sparseSample denseSample := by decide +kernel
  have htext :
      endsWithText "[4, 4]" (executeWith 9 .withoutStorage {} false sparseSample) = true := by
    decide +kernel
  have hprinted : ((executeWith 9 .withoutStorage {} false sparseSample).2.host.output == "true\n") =
      true := by decide +kernel
  obtain ⟨ρ, -, -, hends, hhost, htexts⟩ := layout_irrelevant 9 .withoutStorage {} false hsame
  generalize executeWith 9 .withoutStorage {} false sparseSample = a at *
  generalize executeWith 9 .withoutStorage {} false denseSample = b at *
  obtain ⟨v, hv, hdisplay⟩ := exists_of_endsWithText htext
  refine ⟨hsame, move ρ v, hends.value v hv, (htexts v).1.trans hdisplay, ?_⟩
  rw [hhost]
  exact eq_of_beq hprinted

end Scriptlet
