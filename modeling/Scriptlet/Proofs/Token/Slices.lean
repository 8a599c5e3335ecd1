import Scriptlet.Proofs.Token.Pieces

/-!
# A text is cut into tokens and gaps

`scan_sliced` says of every text how its tokens cover it: the text is a gap, then the
text of the first token, a gap, the text of the second token and so on. Nothing is
lost and nothing is read twice. A token stands at the position of its first character,
which is found by counting what comes before it; it takes as much as it can; and its
text alone is read as the same token.

The step is `scanFrom_of_solid`: behind a gap, the scanner reads one token and goes on
behind it.
-/

namespace Scriptlet

/-- A token with the text that it was read from, and the gap behind it. -/
structure Slice where
  token : Token
  text : List Char
  gap : List Char

/-- The text that the slices cover. -/
def slicesText (slices : List Slice) : List Char := slices.flatMap fun s => s.text ++ s.gap

/-- What is true of a slice wherever it stands. -/
structure Slice.Sound (s : Slice) : Prop where
  kind : s.token.kind ≠ .endOfInput
  text_ne_nil : s.text ≠ []
  solid : Solid s.text
  /-- Only the text of a string differs from what is written. -/
  lexeme : s.token.kind ≠ .string → s.token.lexeme = String.ofList s.text
  /-- The text alone is read as the same token. -/
  alone : (scan (String.ofList s.text)).map (fun t => (t.kind, t.lexeme)) =
    [(s.token.kind, s.token.lexeme), (.endOfInput, "")]

/-- The text `cs` behind the text `read` is cut into `gap` and `slices`; `tokens` are the tokens of
the slices, and `stop` behind them. -/
structure Sliced (read cs : List Char) (tokens : List Token) (gap : List Char)
    (slices : List Slice) (stop : Token) : Prop where
  tokens_eq : tokens = slices.map Slice.token ++ [stop]
  text_eq : cs = gap ++ slicesText slices
  sound : ∀ s ∈ slices, s.Sound
  stop_kind : stop.kind = .endOfInput
  gap_first : Gap (slices = []) gap
  gap_behind {l r : List Slice} {s : Slice} : slices = l ++ s :: r → Gap (r = []) s.gap
  /-- A token stands where what comes before it ends. -/
  position {l r : List Slice} {s : Slice} : slices = l ++ s :: r →
    s.token.position = Position.ofText (read ++ gap ++ slicesText l)
  stop_position : stop.position = Position.ofText (read ++ cs)
  increasing : tokens.Pairwise fun t u => t.position.Before u.position
  /-- If no gap stands behind a token, its text and the next character are not one token. -/
  longest {l r : List Slice} {s s' : Slice} {c : Char} {cs : List Char} :
    slices = l ++ s :: s' :: r → s.gap = [] → s'.text = c :: cs →
    (scan (String.ofList (s.text ++ [c]))).length ≠ 2
  /-- What runs to the end of the text is the last token. -/
  unterminated {l r : List Slice} {s : Slice} : slices = l ++ s :: r →
    s.token.kind.isUnterminated = true → r = []

theorem Sliced.kinds {read cs : List Char} {tokens : List Token} {gap : List Char}
    {slices : List Slice} {stop : Token} (h : Sliced read cs tokens gap slices stop) :
    ∀ t ∈ slices.map Slice.token, t.kind ≠ .endOfInput := by
  intro t ht
  obtain ⟨s, hs, rfl⟩ := List.mem_map.mp ht
  exact (h.sound s hs).kind

/-! ## The step of the scanner -/

theorem scanFrom_nil (fuel : Nat) (p : Position) : scanFrom fuel p [] = [⟨.endOfInput, "", p⟩] := by
  cases fuel <;> rfl

/-- Before a solid text the scanner reads one token, and goes on behind it. -/
theorem scanFrom_of_solid {c : Char} {cs : List Char} (h : Solid (c :: cs)) (fuel : Nat)
    (p : Position) : scanFrom (fuel + 1) p (c :: cs) =
      ⟨(readPiece p c cs).kind, (readPiece p c cs).lexeme, p⟩ ::
        scanFrom fuel (readPiece p c cs).stop (readPiece p c cs).rest := by
  rw [scanFrom, skipGap_of_solid h]

namespace Piece.CutsOff

variable {piece : Piece} {c : Char} {tail cs : List Char}

/-- The same token is read before a shorter rest. -/
theorem scanFrom_eq (h : piece.CutsOff c tail cs) (hsolid : Solid (c :: cs)) {more : List Char}
    (hm : more <+: piece.rest) (fuel : Nat) (p : Position) :
    scanFrom (fuel + 1) p (c :: tail ++ more) =
      ⟨piece.kind, piece.lexeme, p⟩ :: scanFrom fuel (p.after (c :: tail)) more := by
  have hshorter : Solid (c :: (tail ++ more)) := by
    refine hsolid.of_prefix (List.cons_prefix_cons.mpr ⟨rfl, ?_⟩)
    rw [h.split]
    exact (List.prefix_append_right_inj tail).mpr hm
  rw [List.cons_append, scanFrom_of_solid hshorter, h.again p more hm]

/-- The text of a token alone is read as the token. -/
theorem scan_text (h : piece.CutsOff c tail cs) (hsolid : Solid (c :: cs)) :
    (scan (String.ofList (c :: tail))).map (fun t => (t.kind, t.lexeme)) =
      [(piece.kind, piece.lexeme), (.endOfInput, "")] := by
  have hscan := h.scanFrom_eq hsolid (List.nil_prefix) (c :: tail).length Position.start
  rw [List.append_nil, scanFrom_nil] at hscan
  simp only [scan, String.toList_ofList, hscan, List.map_cons, List.map_nil]

/-- With one character more that starts no gap, two tokens are read. -/
theorem length_scan_concat (h : piece.CutsOff c tail cs) (hsolid : Solid (c :: cs)) {d : Char}
    (hd : [d] <+: piece.rest) (hsolid' : Solid [d]) :
    (scan (String.ofList (c :: tail ++ [d]))).length = 3 := by
  have hscan := h.scanFrom_eq hsolid hd ((c :: tail).length + 1) Position.start
  obtain ⟨tail', hnext⟩ := readPiece_cutsOff (Position.start.after (c :: tail)) d []
  have hrest : (readPiece (Position.start.after (c :: tail)) d []).rest = [] :=
    (List.append_eq_nil_iff.mp hnext.split.symm).2
  rw [scanFrom_of_solid hsolid', hrest, scanFrom_nil] at hscan
  rw [scan, String.toList_ofList, List.length_append, List.length_singleton, hscan]
  rfl

end Piece.CutsOff

/-! ## From one token to all of them -/

theorem Gap.mono {final final' : Prop} (h : final → final') {cs : List Char} (hcs : Gap final cs) :
    Gap final' cs := by
  induction hcs with
  | nil => exact .nil
  | blank hc _ ih => exact .blank hc ih
  | line ht _ ih => exact .line ht ih
  | lastLine ht hfinal => exact .lastLine ht (h hfinal)
  | block ht _ ih => exact .block ht ih

/-- A text without tokens. -/
theorem sliced_nil {read gap : List Char} (hgap : Gap True gap) :
    Sliced read gap [⟨.endOfInput, "", Position.ofText (read ++ gap)⟩] gap []
      ⟨.endOfInput, "", Position.ofText (read ++ gap)⟩ where
  tokens_eq := rfl
  text_eq := by simp [slicesText]
  sound := by simp
  stop_kind := rfl
  gap_first := hgap.mono fun _ => rfl
  gap_behind h := by simp at h
  position h := by simp at h
  stop_position := rfl
  increasing := by simp
  longest h := by simp at h
  unterminated h := by simp at h

/-- Every token behind the text `read` stands behind it. -/
theorem Sliced.exists_position {read cs : List Char} {tokens : List Token} {gap : List Char}
    {slices : List Slice} {stop : Token} (h : Sliced read cs tokens gap slices stop) {t : Token}
    (ht : t ∈ tokens) : ∃ ds, t.position = Position.ofText (read ++ ds) := by
  rw [h.tokens_eq, List.mem_append, List.mem_map, List.mem_singleton] at ht
  rcases ht with ⟨s, hs, rfl⟩ | rfl
  · obtain ⟨l, r, hsplit⟩ := List.append_of_mem hs
    exact ⟨gap ++ slicesText l, by rw [h.position hsplit, List.append_assoc]⟩
  · exact ⟨cs, h.stop_position⟩

/-- One token more in front: the gap before it, its text, and what is behind it. -/
theorem Sliced.cons {read gap text rest : List Char} {tokens : List Token} {gap' : List Char}
    {slices : List Slice} {stop token : Token}
    (h : Sliced (read ++ gap ++ text) rest tokens gap' slices stop) (hgap : Gap False gap)
    (hsound : (Slice.mk token text gap').Sound)
    (hposition : token.position = Position.ofText (read ++ gap))
    (hlongest : ∀ d ds, rest = d :: ds → Solid [d] →
      (scan (String.ofList (text ++ [d]))).length ≠ 2)
    (hend : token.kind.isUnterminated = true → rest = []) :
    Sliced read (gap ++ text ++ rest) (token :: tokens) gap (⟨token, text, gap'⟩ :: slices) stop where
  tokens_eq := by rw [h.tokens_eq]; rfl
  text_eq := by rw [h.text_eq]; simp [slicesText]
  sound := List.forall_mem_cons.mpr ⟨hsound, h.sound⟩
  stop_kind := h.stop_kind
  gap_first := hgap.mono False.elim
  gap_behind {l r s} hsplit := by
    cases l with
    | nil =>
      cases hsplit
      exact h.gap_first
    | cons s' l =>
      cases hsplit
      exact h.gap_behind rfl
  position {l r s} hsplit := by
    cases l with
    | nil =>
      cases hsplit
      simpa [slicesText] using hposition
    | cons s' l =>
      cases hsplit
      rw [h.position rfl]
      simp [slicesText]
  stop_position := by rw [h.stop_position]; simp
  increasing := by
    refine List.pairwise_cons.mpr ⟨fun u hu => ?_, h.increasing⟩
    obtain ⟨ds, hds⟩ := h.exists_position hu
    have htext : text ++ ds ≠ [] := by
      have := hsound.text_ne_nil
      simp_all
    rw [hposition, hds, List.append_assoc, ← Position.after_ofText (read ++ gap)]
    exact Position.before_after htext
  longest {l r s s' c cs} hsplit hempty htext := by
    cases l with
    | nil =>
      cases hsplit
      have hgap' : gap' = [] := hempty
      have hrest : rest = c :: (cs ++ s'.gap ++ slicesText r) := by
        rw [h.text_eq, hgap']
        simp [slicesText, htext]
      refine hlongest c _ hrest ((h.sound s' (by simp)).solid.of_prefix ?_)
      rw [htext]
      exact List.prefix_append [c] cs
    | cons s₀ l =>
      cases hsplit
      exact h.longest rfl hempty htext
  unterminated {l r s} hsplit hs := by
    cases l with
    | nil =>
      cases hsplit
      have hnil := h.text_eq
      rw [hend hs] at hnil
      have hslices : slicesText slices = [] := (List.append_eq_nil_iff.mp hnil.symm).2
      cases slices with
      | nil => rfl
      | cons s' slices =>
        have htext := (h.sound s' List.mem_cons_self).text_ne_nil
        simp [slicesText, htext] at hslices
    | cons s₀ l =>
      cases hsplit
      exact h.unterminated rfl hs

/-- The scanner cuts what follows the text `read` into slices. -/
theorem scanFrom_sliced (fuel : Nat) (read cs : List Char) (hfuel : cs.length < fuel) :
    ∃ gap slices stop, Sliced read cs (scanFrom fuel (Position.ofText read) cs) gap slices stop := by
  induction fuel generalizing read cs with
  | zero => omega
  | succ fuel ih =>
    obtain ⟨gap, rest, rfl, hskip, hgap, hsolid⟩ :=
      skipGap_eq .between (Position.ofText read) cs nofun
    rw [Position.after_ofText] at hskip
    cases rest with
    | nil =>
      have hscan : scanFrom (fuel + 1) (Position.ofText read) (gap ++ []) =
          [⟨.endOfInput, "", Position.ofText (read ++ gap)⟩] := by
        rw [scanFrom, hskip]
      rw [hscan, List.append_nil]
      exact ⟨gap, [], _, sliced_nil (hgap.mono fun _ => trivial)⟩
    | cons c cs =>
      obtain ⟨tail, hpiece⟩ := readPiece_cutsOff (Position.ofText (read ++ gap)) c cs
      rw [scanFrom, hskip]
      dsimp only
      rw [hpiece.stop, Position.after_ofText]
      generalize readPiece (Position.ofText (read ++ gap)) c cs = piece at hpiece
      have hlength : piece.rest.length < fuel := by
        have := congrArg List.length hpiece.split
        simp only [List.length_append, List.length_cons] at hfuel this
        omega
      obtain ⟨gap', slices, stop, h⟩ := ih (read ++ gap ++ (c :: tail)) piece.rest hlength
      have hcs : gap ++ c :: cs = gap ++ (c :: tail) ++ piece.rest := by
        rw [hpiece.split]
        simp
      rw [hcs]
      refine ⟨gap, _, stop, h.cons (hgap.mono nofun) ?_ rfl ?_ hpiece.unterminated⟩
      · refine ⟨hpiece.kind, List.cons_ne_nil c tail, hsolid.of_prefix ?_, hpiece.lexeme,
          hpiece.scan_text hsolid⟩
        rw [hpiece.split]
        exact List.prefix_append (c :: tail) piece.rest
      · intro d ds hrest hd
        rw [hpiece.length_scan_concat hsolid ⟨ds, hrest.symm⟩ hd]
        decide

/-- The end of input is the last token and no other one. -/
theorem scan_eq_append (source : String) : ∃ ts stop, scan source = ts ++ [stop] ∧
    (∀ t ∈ ts, t.kind ≠ .endOfInput) ∧ stop.kind = .endOfInput := by
  obtain ⟨gap, slices, stop, h⟩ := scanFrom_sliced _ [] source.toList (Nat.lt_succ_self _)
  exact ⟨_, stop, h.tokens_eq, h.kinds, h.stop_kind⟩

theorem exists_endOfInput (source : String) : ∃ t ∈ scan source, t.kind = .endOfInput := by
  obtain ⟨ts, stop, hscan, -, hstop⟩ := scan_eq_append source
  rw [hscan]
  exact ⟨stop, List.mem_append_right _ List.mem_cons_self, hstop⟩

/-- Every text is cut into gaps and the texts of its tokens, with the end of input behind them. -/
theorem scan_sliced (source : String) :
    ∃ gap slices stop, Sliced [] source.toList (scan source) gap slices stop :=
  scanFrom_sliced _ [] _ (Nat.lt_succ_self _)

/-- The tokens of a text stand one behind the other. -/
theorem scan_before (source : String) :
    (scan source).Pairwise fun t u => t.position.Before u.position := by
  obtain ⟨gap, slices, stop, h⟩ := scan_sliced source
  exact h.increasing

end Scriptlet
