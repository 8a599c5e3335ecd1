import Mathlib.Data.List.Infix
import Scriptlet.Token.Scan

/-!
# What stands between tokens

A gap is made of blanks, comments to the end of a line and closed block comments.
`Gap final cs` says so without the scanner; `final` says whether a comment may also
end with the text. `skipGap_eq` ties the scanner to it: what it skips is a gap, and
what is left is at its end or goes on with something that is none (`Solid`). The other
way round, a gap that needs no end of the text is skipped whatever follows it
(`skipGap_append`).

Positions are said by counting as well: `Position.ofText` is the position behind a
text, from its line feeds and the characters after the last one.
-/

namespace Scriptlet

namespace Position

/-- The position behind the text `cs`: one line for each line feed in it, and one column for each
character after the last of these. -/
def ofText (cs : List Char) : Position :=
  ⟨1 + cs.count '\n', 1 + (cs.reverse.takeWhile fun c => c ≠ '\n').length⟩

theorem ofText_concat (cs : List Char) (c : Char) :
    ofText (cs ++ [c]) = (ofText cs).advance c := by
  simp only [ofText, advance, List.count_append, List.reverse_append, List.reverse_singleton,
    List.singleton_append, List.takeWhile_cons]
  by_cases h : c = '\n'
  · simp [h, Nat.add_assoc]
  · simp [h, Nat.add_comm]

/-- Reading on behind a text leads behind the longer text. -/
theorem after_ofText (cs ds : List Char) : (ofText cs).after ds = ofText (cs ++ ds) := by
  induction ds generalizing cs with
  | nil => simp
  | cons d ds ih =>
    rw [after_cons, ← ofText_concat, ih]
    simp

/-- In reading order `p` comes before `q`, and is not the same. -/
def Before (p q : Position) : Prop :=
  p.line < q.line ∨ p.line = q.line ∧ p.column < q.column

theorem before_advance (p : Position) (c : Char) : p.Before (p.advance c) := by
  unfold Before advance
  split
  · exact .inl (Nat.lt_succ_self _)
  · exact .inr ⟨rfl, Nat.lt_succ_self _⟩

theorem Before.trans {p q r : Position} (h : p.Before q) (h' : q.Before r) : p.Before r := by
  unfold Before at *
  omega

theorem Before.ne {p q : Position} (h : p.Before q) : p ≠ q := by
  rintro rfl
  unfold Before at h
  omega

/-- Whatever is read, the position moves on. -/
theorem before_after {p : Position} {cs : List Char} (h : cs ≠ []) : p.Before (p.after cs) := by
  induction cs generalizing p with
  | nil => exact absurd rfl h
  | cons c cs ih =>
    by_cases hcs : cs = []
    · subst hcs
      exact before_advance p c
    · exact (before_advance p c).trans (ih hcs)

end Position

/-- Blanks and comments. A comment to the end of the line is closed by a line feed, or by the end of
the text if that may follow (`final`); a block comment is closed by the first `*/` in it. -/
inductive Gap (final : Prop) : List Char → Prop
  | nil : Gap final []
  | blank {c : Char} {cs : List Char} : isGapChar c = true → Gap final cs → Gap final (c :: cs)
  | line {text cs : List Char} :
    '\n' ∉ text → Gap final cs → Gap final ('/' :: '/' :: (text ++ '\n' :: cs))
  | lastLine {text : List Char} : '\n' ∉ text → final → Gap final ('/' :: '/' :: text)
  | block {text cs : List Char} :
    ¬ ['*', '/'] <:+: text → Gap final cs → Gap final ('/' :: '*' :: (text ++ '*' :: '/' :: cs))

theorem commentCloses_iff {cs : List Char} : commentCloses cs = true ↔ ['*', '/'] <:+: cs := by
  fun_induction commentCloses cs with
  | case1 => simp
  | case2 cs => simpa using List.infix_append [] ['*', '/'] cs
  | case3 c cs h ih =>
    have hstart : ¬ ['*', '/'] <+: c :: cs := by
      rintro ⟨ds, hds⟩
      simp only [List.cons_append, List.nil_append, List.cons.injEq] at hds
      exact h ds hds.1.symm hds.2.symm
    rw [ih, List.infix_cons_iff]
    simp [hstart]

/-- The text does not start with a gap: neither with a blank, nor with a comment that is closed. -/
structure Solid (cs : List Char) : Prop where
  blank {c : Char} : cs.head? = some c → isGapChar c = false
  line : ¬ ['/', '/'] <+: cs
  block {ds : List Char} : cs = '/' :: '*' :: ds → commentCloses ds = false

theorem solid_nil : Solid [] := ⟨by simp, by simp, by simp⟩

/-- What a solid text starts with is solid. -/
theorem Solid.of_prefix {cs us : List Char} (h : Solid cs) (hu : us <+: cs) : Solid us := by
  obtain ⟨vs, rfl⟩ := hu
  refine ⟨fun {c} hc => ?_, fun hl => h.line (hl.trans (List.prefix_append us vs)),
    fun {ds} hds => ?_⟩
  · refine h.blank ?_
    cases us with
    | nil => cases hc
    | cons u us => exact hc
  · have hclosed : commentCloses (ds ++ vs) = false := h.block (by simp [hds])
    rw [← Bool.not_eq_true, commentCloses_iff] at hclosed ⊢
    exact fun hcloses => hclosed (hcloses.trans (List.infix_append' [] ds vs))

/-! ## What the scanner skips -/

/-- What the scanner skips in a state: the rest of the comment it is in, and the gap behind that. -/
def GapState.Skips (final : Prop) (cs : List Char) : GapState → Prop
  | .between => Gap final cs
  | .inLine => Gap final ('/' :: '/' :: cs)
  | .inBlock => Gap final ('/' :: '*' :: cs)

/-- One character more in a comment to the end of the line. -/
theorem Gap.line_cons {final : Prop} {c : Char} {cs : List Char} (hc : c ≠ '\n')
    (h : Gap final ('/' :: '/' :: cs)) : Gap final ('/' :: '/' :: c :: cs) := by
  have hmem {text : List Char} (ht : '\n' ∉ text) : '\n' ∉ c :: text := by
    simpa [eq_comm, ht] using hc
  cases h with
  | blank hblank => cases hblank
  | line ht hcs => exact .line (hmem ht) hcs
  | lastLine ht hfinal => exact .lastLine (hmem ht) hfinal

/-- One character more in a block comment, unless it begins the end of it. -/
theorem Gap.block_cons {final : Prop} {c : Char} {cs : List Char}
    (hc : ∀ ds, c = '*' → cs = '/' :: ds → False) (h : Gap final ('/' :: '*' :: cs)) :
    Gap final ('/' :: '*' :: c :: cs) := by
  cases h with
  | blank hblank => cases hblank
  | @block text ds ht hds =>
    refine @Gap.block _ (c :: text) ds ?_ hds
    rw [List.infix_cons_iff]
    rintro (⟨us, hus⟩ | hcloses)
    · simp only [List.cons_append, List.nil_append, List.cons.injEq] at hus
      exact hc _ hus.1.symm (by rw [← hus.2]; rfl)
    · exact ht hcloses

/-- What the scanner skips is a gap, and a solid text is left. In a block comment it stands only if
that is closed. -/
theorem skipGap_eq (state : GapState) (p : Position) (cs : List Char)
    (hstate : state = .inBlock → commentCloses cs = true) :
    ∃ gap rest, cs = gap ++ rest ∧ skipGap state p cs = (p.after gap, rest) ∧
      state.Skips (rest = []) gap ∧ Solid rest := by
  fun_induction skipGap state p cs with
  | case1 state p =>
    refine ⟨[], [], rfl, rfl, ?_, solid_nil⟩
    cases state with
    | between => exact .nil
    | inLine => exact .lastLine (by simp) rfl
    | inBlock => exact absurd (hstate rfl) (by simp [commentCloses])
  | case2 p cs ih =>
    obtain ⟨gap, rest, rfl, hskip, hgap, hrest⟩ := ih nofun
    exact ⟨'/' :: '/' :: gap, rest, rfl, hskip, hgap, hrest⟩
  | case3 p cs hclosed ih =>
    obtain ⟨gap, rest, rfl, hskip, hgap, hrest⟩ := ih fun _ => hclosed
    exact ⟨'/' :: '*' :: gap, rest, rfl, hskip, hgap, hrest⟩
  | case4 p cs hopen =>
    refine ⟨[], _, rfl, rfl, .nil, ?_, by simp, ?_⟩
    · rintro c ⟨⟩
      rfl
    · rintro ds ⟨⟩
      exact Bool.eq_false_iff.mpr hopen
  | case5 p c cs _ _ hblank ih =>
    obtain ⟨gap, rest, rfl, hskip, hgap, hrest⟩ := ih nofun
    exact ⟨c :: gap, rest, rfl, hskip, .blank hblank hgap, hrest⟩
  | case6 p c cs hline hblock hblank =>
    refine ⟨[], _, rfl, rfl, .nil, ?_, ?_, ?_⟩
    · rintro d ⟨⟩
      exact Bool.eq_false_iff.mpr hblank
    · rintro ⟨ds, hds⟩
      simp only [List.cons_append, List.nil_append, List.cons.injEq] at hds
      exact hline ds hds.1.symm hds.2.symm
    · rintro ds hds
      simp only [List.cons.injEq] at hds
      exact absurd hds.2 (hblock ds hds.1)
  | case7 p c cs ih =>
    obtain ⟨gap, rest, rfl, hskip, hgap, hrest⟩ := ih (by split <;> simp)
    refine ⟨c :: gap, rest, rfl, hskip, ?_, hrest⟩
    split at hgap
    · subst c
      exact @Gap.line _ [] gap (by simp) hgap
    · exact Gap.line_cons ‹_› hgap
  | case8 p cs ih =>
    obtain ⟨gap, rest, rfl, hskip, hgap, hrest⟩ := ih nofun
    exact ⟨'*' :: '/' :: gap, rest, rfl, hskip, @Gap.block _ [] gap (by simp) hgap, hrest⟩
  | case9 p c cs hend ih =>
    have hclosed : commentCloses cs = true := by
      have := hstate rfl
      rwa [commentCloses.eq_3 _ _ hend] at this
    obtain ⟨gap, rest, rfl, hskip, hgap, hrest⟩ := ih fun _ => hclosed
    refine ⟨c :: gap, rest, rfl, hskip, hgap.block_cons fun ds hc hds => ?_, hrest⟩
    exact hend (ds ++ rest) hc (by simp [hds])

/-- A solid text starts with no gap. -/
theorem Solid.gap_eq_nil {final : Prop} {gap rest : List Char} (h : Solid (gap ++ rest))
    (hgap : Gap final gap) : gap = [] := by
  cases hgap with
  | nil => rfl
  | blank hblank => cases (h.blank rfl).symm.trans hblank
  | line | lastLine => exact absurd (List.prefix_append ['/', '/'] _) h.line
  | @block text cs =>
    have hopen := h.block rfl
    rw [← Bool.not_eq_true, commentCloses_iff] at hopen
    exact absurd ⟨text, cs ++ rest, by simp⟩ hopen

/-- Nothing is skipped of a solid text. -/
theorem skipGap_of_solid {cs : List Char} (h : Solid cs) (p : Position) :
    skipGap .between p cs = (p, cs) := by
  obtain ⟨gap, rest, rfl, hskip, hgap, -⟩ := skipGap_eq .between p cs nofun
  cases h.gap_eq_nil hgap
  exact hskip

/-! ## A gap in front of a text -/

theorem skipGap_blank {c : Char} (hc : isGapChar c = true) (p : Position) (cs : List Char) :
    skipGap .between p (c :: cs) = skipGap .between (p.advance c) cs := by
  have hslash : c ≠ '/' := by
    rintro rfl
    cases hc
  rw [skipGap.eq_4 _ _ _ (fun _ h _ => hslash h) (fun _ h _ => hslash h), if_pos hc]

/-- A comment to the end of the line is skipped up to the line feed. -/
theorem skipGap_inLine {text : List Char} (h : '\n' ∉ text) (p : Position) (cs : List Char) :
    skipGap .inLine p (text ++ '\n' :: cs) = skipGap .between (p.after (text ++ ['\n'])) cs := by
  induction text generalizing p with
  | nil => rfl
  | cons c text ih =>
    have hc : c ≠ '\n' := fun hc => h (by simp [hc])
    have htext : '\n' ∉ text := fun hmem => h (List.mem_cons_of_mem c hmem)
    rw [List.cons_append, skipGap, if_neg hc, ih htext]
    rfl

/-- A block comment is skipped up to its end. -/
theorem skipGap_inBlock {text : List Char} (h : ¬ ['*', '/'] <:+: text) (p : Position)
    (cs : List Char) : skipGap .inBlock p (text ++ '*' :: '/' :: cs) =
      skipGap .between (p.after (text ++ ['*', '/'])) cs := by
  induction text generalizing p with
  | nil => rfl
  | cons c text ih =>
    obtain ⟨hstart, htext⟩ := not_or.mp (mt List.infix_cons_iff.mpr h)
    have hopen (ds : List Char) (hc : c = '*') (hds : text ++ '*' :: '/' :: cs = '/' :: ds) :
        False := by
      subst hc
      cases text with
      | nil => cases (List.cons.inj hds).1
      | cons d text =>
        cases (List.cons.inj hds).1
        exact hstart (List.prefix_append ['*', '/'] text)
    rw [List.cons_append, skipGap.eq_7 _ _ _ hopen, ih htext]
    rfl

/-- The scanner skips a gap, whatever follows it. -/
theorem skipGap_append {gap : List Char} (h : Gap False gap) (p : Position) (cs : List Char) :
    skipGap .between p (gap ++ cs) = skipGap .between (p.after gap) cs := by
  induction h generalizing p with
  | nil => rfl
  | blank hc _ ih => rw [List.cons_append, skipGap_blank hc, ih, Position.after_cons]
  | @line text ds ht _ ih =>
    have hsplit : '/' :: '/' :: (text ++ '\n' :: ds) ++ cs =
        '/' :: '/' :: (text ++ '\n' :: (ds ++ cs)) := by simp
    rw [hsplit, skipGap, skipGap_inLine ht, ih, ← Position.after_append]
    simp [Position.after_cons]
  | lastLine _ hfinal => exact hfinal.elim
  | @block text ds ht _ ih =>
    have hsplit : '/' :: '*' :: (text ++ '*' :: '/' :: ds) ++ cs =
        '/' :: '*' :: (text ++ '*' :: '/' :: (ds ++ cs)) := by simp
    have hclosed : commentCloses (text ++ '*' :: '/' :: (ds ++ cs)) = true :=
      commentCloses_iff.mpr ⟨text, ds ++ cs, by simp⟩
    rw [hsplit, skipGap, if_pos hclosed, skipGap_inBlock ht, ih, ← Position.after_append]
    simp [Position.after_cons]

end Scriptlet
