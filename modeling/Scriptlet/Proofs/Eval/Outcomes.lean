import Scriptlet.Proofs.Eval.Judgement

/-!
# How the evaluation of a program can end

An evaluation that asks the world outside for a file waits for the answer. `ComesTo E
act m` says that `act`, begun on `m`, comes to an end however the world answers, after
finitely many requests, and that `E` holds of the end. It also says that `act` does not
notice answers that it has not asked for, which is what makes the rules compose: what
comes after `act` finds them untouched.

`Program.judgement` is what can be said of a program in this way. A failure that has a
position has that of an expression or a statement of the program. And if the program
has no loop whose test says how often it runs, evaluation is not given up for lack of
fuel: calls alone cannot nest deeper than the limit on calls allows.
-/

namespace Scriptlet

theorem Machine.feed_nil (m : Machine) : m.feed [] = m := by
  obtain ⟨env, heap, ⟨output, storage⟩, interrupted, settings, events⟩ := m
  cases storage with
  | external given lines => simp [Machine.feed, Host.feed, Storage.feed]
  | _ => rfl

theorem Machine.feed_feed (m : Machine) (answers more : List FileAnswer) :
    (m.feed answers).feed more = m.feed (answers ++ more) := by
  obtain ⟨env, heap, ⟨output, storage⟩, interrupted, settings, events⟩ := m
  cases storage with
  | external given lines => simp [Machine.feed, Host.feed, Storage.feed]
  | _ => rfl

/-- The end of an evaluation with the result `r` on the machine `m`. -/
def Eval.ending {α : Type} (r : Except Stop α) (m : Machine) : EStateM.Result Stop Machine α :=
  match r with
  | .ok a => .ok a m
  | .error e => .error e m

theorem Eval.bind_ok {α β : Type} {act : Eval α} {f : α → Eval β} {m m' : Machine} {a : α}
    (h : act m = .ok a m') : (act >>= f) m = f a m' := by
  show EStateM.bind act f m = _
  rw [EStateM.bind, h]

theorem Eval.bind_error {α β : Type} {act : Eval α} {f : α → Eval β} {m m' : Machine} {e : Stop}
    (h : act m = .error e m') : (act >>= f) m = .error e m' := by
  show EStateM.bind act f m = _
  rw [EStateM.bind, h]

theorem Eval.ending_inj {α : Type} {m n : Machine} {r s : Except Stop α}
    (h : Eval.ending r m = Eval.ending s n) : r = s ∧ m = n := by
  cases r <;> cases s <;> cases h <;> exact ⟨rfl, rfl⟩

theorem Eval.exists_ending {α : Type} (act : Eval α) (m : Machine) :
    ∃ r n, act m = Eval.ending r n := by
  cases act m with
  | ok a n => exact ⟨.ok a, n, rfl⟩
  | error e n => exact ⟨.error e, n, rfl⟩

theorem Eval.of_bind_ok {α β : Type} {act : Eval α} {f : α → Eval β} {b : β} {m m' : Machine}
    (h : (act >>= f) m = .ok b m') : ∃ a m₁, act m = .ok a m₁ ∧ f a m₁ = .ok b m' := by
  cases hact : act m with
  | ok a m₁ =>
    rw [Eval.bind_ok hact] at h
    exact ⟨a, m₁, rfl, h⟩
  | error e m₁ =>
    rw [Eval.bind_error hact] at h
    cases h

theorem Eval.of_bind_error {α β : Type} {act : Eval α} {f : α → Eval β} {e : Stop} {m m' : Machine}
    (h : (act >>= f) m = .error e m') :
    act m = .error e m' ∨ ∃ a m₁, act m = .ok a m₁ ∧ f a m₁ = .error e m' := by
  cases hact : act m with
  | ok a m₁ =>
    rw [Eval.bind_ok hact] at h
    exact .inr ⟨a, m₁, rfl, h⟩
  | error e' m₁ =>
    rw [Eval.bind_error hact] at h
    cases h
    exact .inl rfl

theorem Eval.of_bind_ending {α β : Type} {act : Eval α} {f : α → Eval β} {r : Except Stop β}
    {m m' : Machine} (h : (act >>= f) m = ending r m') : (∃ e, act m = .error e m') ∨
      ∃ a m₁, act m = .ok a m₁ ∧ f a m₁ = ending r m' := by
  cases hact : act m with
  | ok a m₁ =>
    rw [Eval.bind_ok hact] at h
    exact .inr ⟨a, m₁, rfl, h⟩
  | error e m₁ =>
    rw [Eval.bind_error hact] at h
    obtain ⟨-, rfl⟩ := ending_inj (r := .error e) h
    exact .inl ⟨e, rfl⟩

theorem Eval.checkInterrupt_apply (m : Machine) : Eval.checkInterrupt m =
    (if m.interrupted then Eval.fail .interrupted else pure () : Eval Unit) m := rfl

theorem Eval.step_eq {α : Type} {act : Eval α} {m : Machine} (hm : m.interrupted = false)
    (p : Position) : Eval.step p act m = Eval.located p act m := by
  have hcheck : Eval.checkInterrupt m = .ok () m := by
    rw [Eval.checkInterrupt_apply, hm]
    rfl
  unfold Eval.step Eval.located
  rw [Eval.bind_ok hcheck]

theorem Eval.not_interrupted_of_step_ok {α : Type} {act : Eval α} {p : Position} {a : α}
    {m m' : Machine} (h : Eval.step p act m = .ok a m') : m.interrupted = false := by
  by_contra hm
  have hcheck : Eval.checkInterrupt m = .error (.failure ⟨.interrupted, none⟩) m := by
    rw [Eval.checkInterrupt_apply, if_pos (eq_true_of_ne_false hm)]
    rfl
  unfold Eval.step Eval.located at h
  rw [Eval.bind_error hcheck] at h
  cases h

theorem Eval.of_step_ok {α : Type} {act : Eval α} {p : Position} {a : α} {m m' : Machine}
    (h : Eval.step p act m = .ok a m') : act m = .ok a m' := by
  have hchecked : (Eval.checkInterrupt >>= fun _ => act) m = .ok a m' := by
    unfold Eval.step Eval.located at h
    split at h
    · cases h
    · exact h
  obtain ⟨_, m₁, hcheck, hact⟩ := Eval.of_bind_ok hchecked
  have hcheck : (if m.interrupted then Eval.fail .interrupted else pure () : Eval Unit) m =
      .ok () m₁ := hcheck
  split at hcheck
  · cases hcheck
  · cases hcheck
    exact hact

theorem Eval.of_step_error {α : Type} {act : Eval α} {p : Position} {e : Stop} {m m' : Machine}
    (h : Eval.step p act m = .error e m') : m' = m ∨ ∃ e', act m = .error e' m' := by
  have hchecked : ∃ e', (Eval.checkInterrupt >>= fun _ => act) m = .error e' m' := by
    unfold Eval.step Eval.located at h
    split at h
    · rename_i f n hf
      cases h
      exact ⟨_, hf⟩
    · exact ⟨e, h⟩
  obtain ⟨e', hchecked⟩ := hchecked
  have hcheck : (Eval.checkInterrupt : Eval Unit) m =
      (if m.interrupted then Eval.fail .interrupted else pure () : Eval Unit) m := rfl
  obtain ⟨_, h⟩ | ⟨_, m₁, hok, hact⟩ := Eval.of_bind_ending (r := .error e') hchecked
  · rw [hcheck] at h
    split at h <;> cases h
    exact .inl rfl
  · rw [hcheck] at hok
    split at hok <;> cases hok
    exact .inr ⟨e', hact⟩

theorem Eval.of_step_ending {α : Type} {act : Eval α} {p : Position} {r : Except Stop α}
    {m m' : Machine} (h : Eval.step p act m = ending r m') :
    m' = m ∨ ∃ r', act m = ending r' m' := by
  cases r with
  | ok a => exact .inr ⟨.ok a, Eval.of_step_ok h⟩
  | error e =>
    refine (Eval.of_step_error h).imp_right ?_
    rintro ⟨e', hact⟩
    exact ⟨.error e', hact⟩

theorem Eval.settling_of_ending {settle : Except Stop Value → Except Stop Value} {act : Eval Value}
    {m m' : Machine} {r : Except Stop Value} (h : act m = ending r m') :
    settling settle act m = ending (settle r) m' := by
  unfold settling
  rw [h]
  cases r with
  | ok v =>
    dsimp only [ending]
    cases settle (.ok v) <;> rfl
  | error e =>
    dsimp only [ending]
    cases settle (.error e) <;> rfl

/-- The result of an evaluation in a node at `p`. -/
def locatedResult {α : Type} (p : Position) : Except Stop α → Except Stop α
  | .error (.failure f) => .error (.failure (f.located p))
  | r => r

theorem Eval.located_of_ending {α : Type} {act : Eval α} {m m' : Machine} {r : Except Stop α}
    (p : Position) (h : act m = ending r m') : located p act m = ending (locatedResult p r) m' := by
  unfold located
  rw [h]
  cases r with
  | ok a => rfl
  | error e => cases e <;> rfl

theorem Eval.inScope_of_ending {α : Type} {act : Eval α} {m m' : Machine} {s : Ref .scope}
    {r : Except Stop α} (h : act { m with env := m.env.enter s } = ending r m') :
    inScope s act m = ending r { m' with env := m'.env.enter m.env.current } := by
  unfold inScope
  dsimp only
  rw [h]
  cases r <;> rfl

theorem Eval.inCall_of_ending {α : Type} {act : Eval α} {m m' : Machine} {r : Except Stop α}
    (hroom : m.env.callDepth < m.env.callLimit)
    (h : act { m with env := { m.env with callDepth := m.env.callDepth + 1 } } = ending r m') :
    inCall act m = ending r { m' with env := m'.env.exitCall } := by
  unfold inCall Environment.enterCall
  rw [if_neg (Nat.not_le.mpr hroom)]
  dsimp only
  rw [h]
  cases r <;> rfl

/-- A call that may not begin. -/
theorem Eval.inCall_of_full {α : Type} (act : Eval α) {m : Machine}
    (hfull : m.env.callLimit ≤ m.env.callDepth) : inCall act m = ending
      (.error (.failure ⟨.stackOverflow (m.env.callDepth + 1) m.env.callLimit, none⟩)) m := by
  unfold inCall Environment.enterCall
  rw [if_pos hfull]
  rfl

/-- Whether a loop goes on, given the result of its body. -/
def loopResult : Except Stop Value → Except Stop Bool
  | .ok _ => .ok true
  | .error (.signal (.continued _)) => .ok true
  | .error (.signal (.broke _)) => .ok false
  | .error e => .error e

theorem Eval.loopBody_of_ending {body : Eval Value} {m m' : Machine} {r : Except Stop Value}
    (h : inNewScope body m = ending r m') : loopBody body m = ending (loopResult r) m' := by
  unfold loopBody
  rw [h]
  cases r with
  | ok v => rfl
  | error e =>
    cases e with
    | signal s => cases s <;> rfl
    | failure f => rfl
    | unfinished why => rfl

/-- The host serves the request, and does not need the answers that come later. -/
def Served {α : Type} (request : Host → Reply α × Host) (h : Host) : Prop :=
  ∃ (r : Except HostError α) (h' : Host), ∀ answers, request (h.feed answers) =
    (match r with | .ok a => .granted a | .error e => .refused e, h'.feed answers)

/-- However the world outside answers, the evaluation comes to an end with `E`, after finitely many
requests; answers that it does not ask for are still there. -/
inductive ComesTo {α : Type} (E : Except Stop α → Machine → Prop) (act : Eval α) : Machine → Prop
  | ended {m m' : Machine} {r : Except Stop α} :
    (∀ answers, act (m.feed answers) = Eval.ending r (m'.feed answers)) → E r m' → ComesTo E act m
  | asks {m m' : Machine} {request : FileRequest} :
    act m = .error (.unfinished (.awaiting request)) m' →
    (∀ answer, ComesTo E act (m.feed [answer])) → ComesTo E act m

namespace ComesTo

variable {α β : Type} {E : Except Stop α → Machine → Prop} {E' : Except Stop β → Machine → Prop}
  {act : Eval α} {m n : Machine}

theorem of_ending (r : Except Stop α) (m' : Machine)
    (h : ∀ answers, act (m.feed answers) = Eval.ending r (m'.feed answers)) (hE : E r m') :
    ComesTo E act m :=
  .ended h hE

/-- An evaluation that runs another one from `n`, and changes its result by `t` and the machine
afterwards by `g`. -/
theorem within {act' : Eval β} (t : Except Stop α → Except Stop β) (g : Machine → Machine)
    (hg : ∀ (m : Machine) answers, g (m.feed answers) = (g m).feed answers)
    (ht : ∀ why, t (.error (.unfinished why)) = .error (.unfinished why))
    (h : ComesTo E act n)
    (hrun : ∀ answers r m', act (n.feed answers) = Eval.ending r m' →
      act' (m.feed answers) = Eval.ending (t r) (g m'))
    (hE : ∀ r m', E r m' → E' (t r) (g m')) : ComesTo E' act' m := by
  induction h generalizing m with
  | ended hact hend =>
    refine .ended (fun answers => ?_) (hE _ _ hend)
    rw [hrun answers _ _ (hact answers), hg]
  | @asks n m' request hact _ ih =>
    have hasks := hrun [] (.error (.unfinished (.awaiting request))) m'
    rw [n.feed_nil, m.feed_nil, ht] at hasks
    refine .asks (hasks hact) fun answer => ih answer fun answers r m₁ hr => ?_
    rw [Machine.feed_feed] at hr ⊢
    exact hrun _ r m₁ hr

theorem mono {E' : Except Stop α → Machine → Prop} (h : ComesTo E act m)
    (hE : ∀ r m', E r m' → E' r m') : ComesTo E' act m :=
  h.within id id (fun _ _ => rfl) (fun _ => rfl) (fun _ _ _ hr => hr) hE

/-- What follows `act` begins where `act` ends, with the answers that are left. -/
theorem bind {f : α → Eval β} (h : ComesTo E act m)
    (hok : ∀ a m', E (.ok a) m' → ComesTo E' (f a) m')
    (herror : ∀ e m', E (.error e) m' → E' (.error e) m') : ComesTo E' (act >>= f) m := by
  induction h with
  | asks hact _ ih => exact .asks (Eval.bind_error hact) ih
  | @ended m m' r hact hend =>
    cases r with
    | error e => exact .ended (fun answers => Eval.bind_error (hact answers)) (herror e m' hend)
    | ok a =>
      refine (hok a m' hend).within id id (fun _ _ => rfl) (fun _ => rfl) (fun answers r m₁ hr => ?_)
        fun _ _ hr => hr
      rw [Eval.bind_ok (hact answers)]
      exact hr

/-- Asking the host for a file. -/
theorem ask {E : Except Stop (Except HostError α) → Machine → Prop} {request : Host → Reply α × Host}
    (hserved : ∀ h : Host, Served request h ∨
      ∃ q, request h = (.pending q, h) ∧ ∀ answer, Served request (h.feed [answer]))
    (hE : ∀ reply h, E (.ok reply) { m with host := h }) : ComesTo E (Eval.ask request) m := by
  have now {h : Host} (hs : Served request h) :
      ComesTo E (Eval.ask request) { m with host := h } := by
    obtain ⟨r, h', hr⟩ := hs
    have reply_eq (answers : List FileAnswer) : Eval.ask request
        { m with host := h.feed answers } = .ok r { m with host := h'.feed answers } := by
      unfold Eval.ask
      dsimp only
      rw [hr answers]
      cases r <;> rfl
    exact .of_ending (.ok r) { m with host := h' } reply_eq (hE r h')
  rcases hserved m.host with hs | ⟨q, hq, hs⟩
  · exact now hs
  · have hpending : Eval.ask request m = .error (.unfinished (.awaiting q)) m := by
      unfold Eval.ask
      dsimp only
      rw [hq]
    exact .asks hpending fun answer => now (hs answer)

end ComesTo

/-- A file is read at once, or after one answer of the world outside. -/
theorem served_fetch (path : String) (h : Host) : Served (fun host => host.fetch path) h ∨
    ∃ q, h.fetch path = (.pending q, h) ∧
      ∀ answer, Served (fun host => host.fetch path) (h.feed [answer]) := by
  have external (output : String) (answer : FileAnswer) (rest : List FileAnswer)
      (lines : List (Option HostError)) :
      Served (fun host => host.fetch path) ⟨output, .external (answer :: rest) lines⟩ := by
    cases answer with
    | text text => exact ⟨.ok text, ⟨output, .external rest lines⟩, fun _ => rfl⟩
    | done => exact ⟨.ok "", ⟨output, .external rest lines⟩, fun _ => rfl⟩
    | failed e => exact ⟨.error e, ⟨output, .external rest lines⟩, fun _ => rfl⟩
  obtain ⟨output, storage⟩ := h
  cases storage with
  | unavailable => exact .inl ⟨.error .storageUnavailable, ⟨output, .unavailable⟩, fun _ => rfl⟩
  | memory files =>
    refine .inl ?_
    cases hfile : files.get? path with
    | some text =>
      refine ⟨.ok text, ⟨output, .memory files⟩, fun _ => ?_⟩
      simp [Host.fetch, Host.feed, Storage.feed, hfile]
    | none =>
      refine ⟨.error (.notFound path), ⟨output, .memory files⟩, fun _ => ?_⟩
      simp [Host.fetch, Host.feed, Storage.feed, hfile]
  | directory files =>
    refine .inl ?_
    cases hname : Directory.resolve files path false with
    | ok name =>
      refine ⟨.ok ((files.get? name).getD ""), ⟨output, .directory files⟩, fun _ => ?_⟩
      simp [Host.fetch, Host.feed, Storage.feed, hname]
    | error reason =>
      refine ⟨.error (.system path reason), ⟨output, .directory files⟩, fun _ => ?_⟩
      simp [Host.fetch, Host.feed, Storage.feed, hname]
  | external given lines =>
    cases given with
    | nil => exact .inr ⟨.read path, rfl, fun answer => external output answer [] lines⟩
    | cons answer rest => exact .inl (external output answer rest lines)

/-- A file is written at once, or after one answer of the world outside. -/
theorem served_save (path text : String) (h : Host) : Served (fun host => host.save path text) h ∨
    ∃ q, h.save path text = (.pending q, h) ∧
      ∀ answer, Served (fun host => host.save path text) (h.feed [answer]) := by
  have external (output : String) (answer : FileAnswer) (rest : List FileAnswer)
      (lines : List (Option HostError)) :
      Served (fun host => host.save path text) ⟨output, .external (answer :: rest) lines⟩ := by
    cases answer with
    | text _ => exact ⟨.ok (), ⟨output, .external rest lines⟩, fun _ => rfl⟩
    | done => exact ⟨.ok (), ⟨output, .external rest lines⟩, fun _ => rfl⟩
    | failed e => exact ⟨.error e, ⟨output, .external rest lines⟩, fun _ => rfl⟩
  obtain ⟨output, storage⟩ := h
  cases storage with
  | unavailable => exact .inl ⟨.error .storageUnavailable, ⟨output, .unavailable⟩, fun _ => rfl⟩
  | memory files =>
    exact .inl ⟨.ok (), ⟨output, .memory (files.insert path text)⟩, fun _ => rfl⟩
  | directory files =>
    refine .inl ?_
    cases hname : Directory.resolve files path true with
    | ok name =>
      refine ⟨.ok (), ⟨output, .directory (files.insert name text)⟩, fun _ => ?_⟩
      simp [Host.save, Host.feed, Storage.feed, hname]
    | error reason =>
      refine ⟨.error (.system path reason), ⟨output, .directory files⟩, fun _ => ?_⟩
      simp [Host.save, Host.feed, Storage.feed, hname]
  | external given lines =>
    cases given with
    | nil => exact .inr ⟨.write path text, rfl, fun answer => external output answer [] lines⟩
    | cons answer rest => exact .inl (external output answer rest lines)

/-! ## Programs -/

namespace Program

/-- An expression or a statement of the program stands at the position. -/
def HasPlace (p : Program) (q : Position) : Prop := ∃ x, p.Contains x ∧ x.position = q

/-- The routines of the program. -/
def HasRoutine (p : Program) (r : Routine) : Prop := ∃ x, p.Contains x ∧ r ∈ x.routines

/-- How an evaluation of the program may end, if the signals with `S` may get through and results
satisfy `Q`: a failure that has a position is at a place of the program, and lack of fuel is an end
only if `U` says so. -/
def Allows {α : Type} (p : Program) (U : Prop) (S : Signal → Prop) (Q : α → Prop) :
    Except Stop α → Prop
  | .ok a => Q a
  | .error (.failure f) => ∀ q, f.position = some q → p.HasPlace q
  | .error (.signal s) => S s
  | .error (.unfinished _) => U

/-- Unless `U` holds, fewer than `k` more calls can nest: the limit is reached before. -/
def Leeway (U : Prop) (k : Nat) (m : Machine) : Prop :=
  U ∨ (m.env.callDepth ≤ m.env.callLimit ∧ m.env.callLimit < m.env.callDepth + k)

/-- On a machine with routines of the program and as much leeway, the evaluation comes to an end that
the program allows, at the place where it began. -/
def Fine {α : Type} (p : Program) (U : Prop) (k : Nat) (S : Signal → Prop) (act : Eval α)
    (Q : α → Prop) : Prop :=
  ∀ m, m.Holds p.HasRoutine → Leeway U k m →
    ComesTo (fun r m' => m.Keeps p.HasRoutine m' ∧ p.Allows U S Q r) act m

variable {p : Program} {U : Prop} {k : Nat} {m m' : Machine} {S : Signal → Prop} {α β : Type}
  {act : Eval α} {Q : α → Prop} {R : β → Prop}

theorem Leeway.of_keeps (h : Leeway U k m) (hk : m.Keeps p.HasRoutine m') : Leeway U k m' := by
  unfold Leeway
  rw [hk.place.callDepth, hk.callLimit]
  exact h

namespace Fine

/-- An evaluation that ends at once. -/
theorem of_ending {r : Except Stop α} (hr : p.Allows U S Q r)
    (hact : ∀ m, act m = Eval.ending r m) : p.Fine U k S act Q :=
  fun _ hm _ => .ended (fun _ => hact _) ⟨.refl hm, hr⟩

theorem mono {S' : Signal → Prop} {Q' : α → Prop} (h : p.Fine U k S act Q) (hS : ∀ s, S s → S' s)
    (hQ : ∀ a, Q a → Q' a) : p.Fine U k S' act Q' := by
  refine fun m hm hl => (h m hm hl).mono fun r m' ⟨hk, hr⟩ => ⟨hk, ?_⟩
  cases r with
  | ok a => exact hQ a hr
  | error e =>
    cases e with
    | signal s => exact hS s hr
    | failure f => exact hr
    | unfinished why => exact hr

theorem bind {f : α → Eval β} (h : p.Fine U k S act Q) (hf : ∀ a, Q a → p.Fine U k S (f a) R) :
    p.Fine U k S (act >>= f) R := by
  refine fun m hm hl => (h m hm hl).bind (fun a m' ⟨hk, ha⟩ => ?_) fun e m' ⟨hk, he⟩ => ?_
  · exact (hf a ha m' hk.holds (hl.of_keeps hk)).mono fun r m'' ⟨hk', hr⟩ => ⟨hk.trans hk', hr⟩
  · refine ⟨hk, ?_⟩
    cases e <;> exact he

theorem get {f : Machine → Eval β} (hf : ∀ m answers, f (m.feed answers) = f m)
    (h : ∀ m, m.Holds p.HasRoutine → p.Fine U k S (f m) R) :
    p.Fine U k S (MonadState.get >>= f) R := by
  refine fun m hm hl => (h m hm m hm hl).within id id (fun _ _ => rfl) (fun _ => rfl)
    (fun answers r m' hr => ?_) fun _ _ hr => hr
  rw [← hf m answers] at hr
  exact hr

theorem modifyGet {f : Machine → α × Machine}
    (hf : ∀ m answers, f (m.feed answers) = ((f m).1, (f m).2.feed answers))
    (h : ∀ m, m.Holds p.HasRoutine → m.Keeps p.HasRoutine (f m).2 ∧ Q (f m).1) :
    p.Fine U k S (MonadState.modifyGet f) Q := by
  intro m hm _
  refine .of_ending (.ok (f m).1) (f m).2 (fun answers => ?_) (h m hm)
  show EStateM.Result.ok (f (m.feed answers)).1 (f (m.feed answers)).2 = _
  rw [hf m answers]
  rfl

theorem ask {request : Host → Reply α × Host}
    (hserved : ∀ h : Host, Served request h ∨
      ∃ q, request h = (.pending q, h) ∧ ∀ answer, Served request (h.feed [answer])) :
    p.Fine U k S (Eval.ask request) fun _ => True :=
  fun _ hm _ => .ask hserved fun _ _ => ⟨.aside hm rfl rfl, trivial⟩

/-- A failure gets the position of the innermost node that it passes. -/
theorem located {x : Node} (hx : p.Contains x) (h : p.Fine U k S act Q) :
    p.Fine U k S (Eval.located x.position act) Q := by
  refine fun m hm hl => (h m hm hl).within (locatedResult x.position) id (fun _ _ => rfl)
    (fun _ => rfl) (fun _ _ _ hr => Eval.located_of_ending _ hr) fun r m' ⟨hk, hr⟩ => ⟨hk, ?_⟩
  cases r with
  | ok a => exact hr
  | error e =>
    cases e with
    | failure f =>
      intro q hq
      cases hf : f.position with
      | some q' =>
        simp only [Failure.located, hf, Option.getD_some, Option.some.injEq] at hq
        rw [← hq]
        exact hr q' hf
      | none =>
        simp only [Failure.located, hf, Option.getD_none, Option.some.injEq] at hq
        exact ⟨x, hx, hq⟩
    | signal s => exact hr
    | unfinished why => exact hr

theorem inScope (r : Ref .scope) (h : p.Fine U k S act Q) : p.Fine U k S (Eval.inScope r act) Q := by
  intro m hm hl
  let entered : Machine := { m with env := m.env.enter r }
  have hentered := h entered ⟨hm.env, hm.heap⟩ hl
  refine hentered.within id (fun m' => { m' with env := m'.env.enter m.env.current })
    (fun _ _ => rfl) (fun _ => rfl) (fun answers r' m' hr => ?_) fun r' m' ⟨hk, hr⟩ => ⟨?_, hr⟩
  · exact Eval.inScope_of_ending hr
  · exact ⟨⟨rfl, hk.place.globals, hk.place.callDepth⟩, hk.callLimit, hk.holds.env, hk.holds.heap⟩

/-- Within a call the limit is as far away as before, and one call fewer can nest. -/
theorem inCall (h : p.Fine U k S act Q) : p.Fine U (k + 1) S (Eval.inCall act) Q := by
  intro m hm hl
  by_cases hfull : m.env.callLimit ≤ m.env.callDepth
  · exact .of_ending (.error (.failure
      ⟨.stackOverflow (m.env.callDepth + 1) m.env.callLimit, none⟩)) m
      (fun answers => Eval.inCall_of_full act hfull) ⟨.refl hm, nofun⟩
  · let begun : Machine := { m with env := { m.env with callDepth := m.env.callDepth + 1 } }
    have hbegun : Leeway U k begun := by
      rcases hl with hU | ⟨-, hlimit⟩
      · exact .inl hU
      · have hdepth : begun.env.callDepth = m.env.callDepth + 1 := rfl
        have hsame : begun.env.callLimit = m.env.callLimit := rfl
        exact .inr ⟨by omega, by omega⟩
    refine (h begun ⟨hm.env, hm.heap⟩ hbegun).within id
      (fun m' => { m' with env := m'.env.exitCall }) (fun _ _ => rfl) (fun _ => rfl)
      (fun answers r m' hr => ?_) fun r m' ⟨hk, hr⟩ => ⟨?_, hr⟩
    · exact Eval.inCall_of_ending (Nat.not_le.mp hfull) hr
    · refine ⟨⟨hk.place.current, hk.place.globals, ?_⟩, hk.callLimit, hk.holds.env, hk.holds.heap⟩
      show m'.env.callDepth - 1 = m.env.callDepth
      rw [hk.place.callDepth]
      exact Nat.add_sub_cancel _ 1

/-- A signal that is settled gives a value, or a failure where the jump stands. -/
theorem allows_settle {js : List Jump} (hjs : ∀ j ∈ js, p.HasPlace j.position) :
    ∀ s, Signal.Leaves p.HasRoutine js s → p.Allows U S (Value.Has p.HasRoutine) s.settle
  | .returned _, hs => hs
  | .broke _, hs => fun _ hq => Option.some.inj hq ▸ hjs _ hs
  | .continued _, hs => fun _ hq => Option.some.inj hq ▸ hjs _ hs

theorem settling {act : Eval Value} {js : List Jump}
    {settle : Except Stop Value → Except Stop Value}
    (hsettle : settle = callResult ∨ settle = programResult)
    (hjs : ∀ j ∈ js, p.HasPlace j.position)
    (h : p.Fine U k (Signal.Leaves p.HasRoutine js) act (Value.Has p.HasRoutine)) :
    p.Fine U k S (Eval.settling settle act) (Value.Has p.HasRoutine) := by
  have allowed (r : Except Stop Value)
      (hr : p.Allows U (Signal.Leaves p.HasRoutine js) (Value.Has p.HasRoutine) r) :
      p.Allows U S (Value.Has p.HasRoutine) (settle r) := by
    rcases hsettle with rfl | rfl
    · match r with
      | .ok _ => trivial
      | .error (.failure _) => exact hr
      | .error (.unfinished _) => exact hr
      | .error (.signal s) => exact allows_settle hjs s hr
    · match r with
      | .ok _ => exact hr
      | .error (.failure _) => exact hr
      | .error (.unfinished _) => exact hr
      | .error (.signal s) => exact allows_settle hjs s hr
  refine fun m hm hl => (h m hm hl).within settle id (fun _ _ => rfl) (fun _ => ?_)
    (fun answers r m' hr => ?_) fun r m' ⟨hk, hr⟩ => ⟨hk, allowed r hr⟩
  · rcases hsettle with rfl | rfl <;> rfl
  · exact Eval.settling_of_ending hr

/-- A loop takes the jumps of its body. -/
theorem loopBody {body : Eval Value} {Q : Value → Prop} {js : List Jump} (js' : List Jump)
    (h : p.Fine U k (Signal.Leaves p.HasRoutine js) (Eval.inNewScope body) Q) :
    p.Fine U k (Signal.Leaves p.HasRoutine js') (Eval.loopBody body) fun _ => True := by
  refine fun m hm hl => (h m hm hl).within loopResult id (fun _ _ => rfl) (fun _ => rfl)
    (fun _ _ _ hr => Eval.loopBody_of_ending hr) fun r m' ⟨hk, hr⟩ => ⟨hk, ?_⟩
  cases r with
  | ok v => trivial
  | error e =>
    cases e with
    | failure f => exact hr
    | unfinished why => exact hr
    | signal s =>
      cases s with
      | returned v => exact hr
      | broke q => trivial
      | continued q => trivial

end Fine

/-- How evaluations of the program end, as a judgement. Where lack of fuel is no end, the program must
not have a loop whose test says how often it runs. -/
def judgement (p : Program) (U : Prop) (hU : ∀ x, p.Contains x → x.repeats = true → U) :
    Judgement where
  routine := p.HasRoutine
  node := p.Contains
  jump j := p.HasPlace j.position
  Passes k S act Q := p.Fine U k S act Q
  made hx r hr := ⟨_, hx, hr⟩
  body := fun ⟨_, hy, hr⟩ _ hx => .inside hy hr hx
  bodyJump := fun {r} ⟨_, hy, hr⟩ j hj => by
    obtain ⟨x, hx, hposition⟩ := exists_node_of_mem_stmtsJumps r.body hj
    exact ⟨x, .inside hy hr hx, hposition⟩
  pure h := Fine.of_ending (r := .ok _) h fun _ => rfl
  bind := Fine.bind
  mono := Fine.mono
  signal h := Fine.of_ending (r := .error (.signal _)) h fun _ => rfl
  fail {_ _ _ c _} _ := Fine.of_ending (r := .error (.failure ⟨c, none⟩)) nofun fun _ => rfl
  get := Fine.get
  modifyGet := Fine.modifyGet
  fetch path := Fine.ask (served_fetch path)
  save path text := Fine.ask (served_save path text)
  located := Fine.located
  inScope := Fine.inScope
  inCall := Fine.inCall
  settling := Fine.settling
  loopBody := Fine.loopBody
  uncalled _ _ hl := by
    have h : U := hl.resolve_right fun ⟨hdepth, hlimit⟩ => by omega
    exact .ended (r := .error (.unfinished .outOfFuel)) (fun _ => rfl) ⟨.refl ‹_›, h⟩
  repeated hx hr := Fine.of_ending (r := .error (.unfinished .outOfFuel)) (hU _ hx hr) fun _ => rfl

/-- However the world outside answers, a program comes to an end that it allows: with a value, with a
failure, or for lack of fuel if `U` says so. -/
theorem run_comesTo (p : Program) {U : Prop} (hU : ∀ x, p.Contains x → x.repeats = true → U)
    (fuel : Nat) {m : Machine} (hm : m.Holds p.HasRoutine)
    (hl : U ∨ (m.env.callDepth ≤ m.settings.callLimit ∧
      m.settings.callLimit < m.env.callDepth + fuel)) :
    ComesTo (fun r _ => p.Allows U (fun _ => False) (fun _ => True) r) (runProgram fuel p) m := by
  have hjumps : ∀ j ∈ stmtsJumps p.statements, p.HasPlace j.position := by
    intro j hj
    obtain ⟨x, hx, hposition⟩ := exists_node_of_mem_stmtsJumps p.statements hj
    exact ⟨x, .outside hx, hposition⟩
  have hrest : p.Fine U fuel (fun _ => False) (do
      let n ← numberProgram
      Eval.settling programResult (evalStmts (.of fuel n) .undefined p.statements))
      (Value.Has p.HasRoutine) :=
    (p.judgement U hU).settled fuel (fun x hx => .outside hx) hjumps
  let limited : Machine := { m with env := m.env.setLimit m.settings.callLimit }
  have hset : ComesTo (fun r m' => r = .ok PUnit.unit ∧ m' = limited) (modify fun m : Machine =>
      { m with env := m.env.setLimit m.settings.callLimit } : Eval PUnit) m :=
    .ended (fun _ => rfl) ⟨rfl, rfl⟩
  unfold runProgram
  refine hset.bind (fun _ m' hend => ?_) fun _ _ hend => nomatch hend.1
  rw [hend.2]
  refine (hrest limited ⟨hm.env, hm.heap⟩ hl).mono fun r _ ⟨_, hr⟩ => ?_
  match r with
  | .ok _ => trivial
  | .error (.failure _) => exact hr
  | .error (.unfinished _) => exact hr
  | .error (.signal _) => exact hr

end Program

end Scriptlet
