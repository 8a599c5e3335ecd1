import Scriptlet.Proofs.Eval.Parts
import Scriptlet.Proofs.Relabel.Machines

/-!
# Evaluations that do the same in two runs

Two evaluations are twins if they end alike on machines that differ only in how things are
labelled: both with values that are related, or both early for the same reason, with a value or a
position that is the other's, and again on such machines (`Relabeling.Twins`). `Twins n` is about
machines that have at least `n` instances, so that it can be used for values that refer to the first
`n`. The rules here are for the smallest evaluations and for the ways to put them together.
-/

namespace Scriptlet

namespace Relabeling

variable (κ : Relabeling)

/-- A node of the first run stands at `p`, and its image at `p'`. -/
def Placed (p p' : Position) : Prop := ∃ a x, κ.node a x ∧ x.position = p ∧ p' = κ.place a p

/-- The runs stop early for the same reason. -/
inductive Stops (n : Nat) : Stop → Stop → Prop
  | failure (c : Cause) {p p' : Option Position} : Option.Rel κ.Placed p p' →
    Stops n (.failure ⟨c, p⟩) (.failure ⟨c, p'⟩)
  | returned {v v' : Value} : κ.Relates n v v' →
    Stops n (.signal (.returned v)) (.signal (.returned v'))
  | broke {p p' : Position} : κ.Placed p p' → Stops n (.signal (.broke p)) (.signal (.broke p'))
  | continued {p p' : Position} : κ.Placed p p' →
    Stops n (.signal (.continued p)) (.signal (.continued p'))
  | unfinished (why : Unfinished) : Stops n (.unfinished why) (.unfinished why)

/-- The runs end alike, with at least `n` instances. -/
inductive Ends {α β : Type} (n : Nat) (Q : Nat → α → β → Prop) :
    EStateM.Result Stop Machine α → EStateM.Result Stop Machine β → Prop
  | ok {a : α} {b : β} {m m' : Machine} : κ.Machines m m' → n ≤ m.heap.instances.size →
    Q m.heap.instances.size a b → Ends n Q (.ok a m) (.ok b m')
  | error {e e' : Stop} {m m' : Machine} : κ.Machines m m' → n ≤ m.heap.instances.size →
    κ.Stops m.heap.instances.size e e' → Ends n Q (.error e m) (.error e' m')

/-- The evaluations end alike on all machines with at least `n` instances. -/
def Twins {α β : Type} (n : Nat) (act : Eval α) (act' : Eval β) (Q : Nat → α → β → Prop) : Prop :=
  ∀ m m', κ.Machines m m' → n ≤ m.heap.instances.size →
    κ.Ends m.heap.instances.size Q (act m) (act' m')

/-- Both results are the same. -/
def Same {α : Type} (_ : Nat) (a b : α) : Prop := b = a

variable {κ}

namespace Ends

variable {α β : Type} {n k : Nat} {Q : Nat → α → β → Prop}
  {r : EStateM.Result Stop Machine α} {r' : EStateM.Result Stop Machine β}

theorem of_le (h : κ.Ends k Q r r') (hn : n ≤ k) : κ.Ends n Q r r' := by
  cases h with
  | ok hm hk hq => exact .ok hm (Nat.le_trans hn hk) hq
  | error hm hk he => exact .error hm (Nat.le_trans hn hk) he

end Ends

namespace Twins

variable {α β γ δ : Type} {n n' : Nat} {act : Eval α} {act' : Eval β} {Q : Nat → α → β → Prop}

theorem of_le (h : κ.Twins n act act' Q) (hn : n ≤ n') : κ.Twins n' act act' Q :=
  fun m m' hm hsize => h m m' hm (Nat.le_trans hn hsize)

/-! ## The smallest evaluations -/

theorem pure {a : α} {b : β} (h : ∀ k, n ≤ k → Q k a b) :
    κ.Twins n (Pure.pure a) (Pure.pure b) Q :=
  fun _ _ hm hsize => .ok hm (Nat.le_refl _) (h _ hsize)

theorem bind {act : Eval α} {act' : Eval β} {f : α → Eval γ} {f' : β → Eval δ}
    {R : Nat → γ → δ → Prop} (h : κ.Twins n act act' Q)
    (hf : ∀ k, n ≤ k → ∀ a b, Q k a b → κ.Twins k (f a) (f' b) R) :
    κ.Twins n (act >>= f) (act' >>= f') R := by
  intro m m' hm hsize
  have hends := h m m' hm hsize
  show κ.Ends _ R (EStateM.bind act f m) (EStateM.bind act' f' m')
  unfold EStateM.bind
  generalize act m = r at hends
  generalize act' m' = r' at hends
  cases hends with
  | ok hm hk hq =>
    exact (hf _ (Nat.le_trans hsize hk) _ _ hq _ _ hm (Nat.le_refl _)).of_le hk
  | error hm hk he => exact .error hm hk he

theorem ite {c : Prop} [Decidable c] {act₁ act₂ : Eval α} {act₁' act₂' : Eval β}
    (ht : κ.Twins n act₁ act₁' Q) (he : κ.Twins n act₂ act₂' Q) :
    κ.Twins n (if c then act₁ else act₂) (if c then act₁' else act₂') Q := by
  split
  · exact ht
  · exact he

theorem raise {e e' : Stop} (h : ∀ k, n ≤ k → κ.Stops k e e') :
    κ.Twins n (throw e : Eval α) (throw e' : Eval β) Q :=
  fun _ _ hm hsize => .error hm (Nat.le_refl _) (h _ hsize)

theorem fail (c : Cause) : κ.Twins n (Eval.fail c : Eval α) (Eval.fail c : Eval β) Q :=
  raise fun _ _ => .failure c .none

theorem outOfFuel : κ.Twins n (throw (.unfinished .outOfFuel) : Eval α)
    (throw (.unfinished .outOfFuel) : Eval β) Q :=
  raise fun _ _ => .unfinished _

/-- Looking at the machine. -/
theorem look {f : Machine → Eval α} {f' : Machine → Eval β}
    (h : ∀ m m', κ.Machines m m' → n ≤ m.heap.instances.size →
      κ.Twins m.heap.instances.size (f m) (f' m') Q) :
    κ.Twins n (MonadState.get >>= f) (MonadState.get >>= f') Q :=
  fun m m' hm hsize => h m m' hm hsize m m' hm (Nat.le_refl _)

theorem modifyGet {f : Machine → α × Machine} {f' : Machine → β × Machine}
    (h : ∀ m m', κ.Machines m m' → n ≤ m.heap.instances.size → κ.Machines (f m).2 (f' m').2 ∧
      m.heap.instances.size ≤ (f m).2.heap.instances.size ∧
      Q (f m).2.heap.instances.size (f m).1 (f' m').1) :
    κ.Twins n (MonadState.modifyGet f : Eval α) (MonadState.modifyGet f' : Eval β) Q :=
  fun m m' hm hsize => by
    obtain ⟨hm', hk, hq⟩ := h m m' hm hsize
    exact .ok hm' hk hq

/-- Changing the machine, but not the number of instances. -/
theorem change {f f' : Machine → Machine}
    (h : ∀ m m', κ.Machines m m' → n ≤ m.heap.instances.size → κ.Machines (f m) (f' m') ∧
      (f m).heap.instances.size = m.heap.instances.size) :
    κ.Twins n (modify f : Eval Unit) (modify f' : Eval Unit) Same :=
  modifyGet fun m m' hm hsize => by
    obtain ⟨hm', hk⟩ := h m m' hm hsize
    exact ⟨hm', Nat.le_of_eq hk.symm, rfl⟩

theorem next {f : Unit → Eval γ} {f' : Unit → Eval δ} {act act' : Eval Unit}
    {R : Nat → γ → δ → Prop} (h : κ.Twins n act act' Same)
    (hf : ∀ k, n ≤ k → κ.Twins k (f ()) (f' ()) R) : κ.Twins n (act >>= f) (act' >>= f') R :=
  h.bind fun k hk _ _ _ => hf k hk

theorem same (a : α) : κ.Twins n (Pure.pure a) (Pure.pure a) Same := pure fun _ _ => rfl

theorem value {v v' : Value} (h : κ.Relates n v v') :
    κ.Twins n (Pure.pure v) (Pure.pure v') κ.Relates :=
  pure fun _ hk => h.mono hk

theorem undefined : κ.Twins n (Pure.pure .undefined) (Pure.pure .undefined) κ.Relates :=
  value .undefined

theorem ofExcept {R : α → β → Prop} {r : Except Cause α} {r' : Except Cause β} (h : Answers R r r')
    (hR : ∀ k, n ≤ k → ∀ a b, R a b → Q k a b) :
    κ.Twins n (Eval.ofExcept r) (Eval.ofExcept r') Q := by
  cases h with
  | ok hab => exact pure fun k hk => hR k hk _ _ hab
  | error c => exact fail c

/-- An operation on values. -/
theorem operation {r r' : Except Cause Value} (h : Answers (κ.Relates n) r r') :
    κ.Twins n (Eval.ofExcept r) (Eval.ofExcept r') κ.Relates :=
  ofExcept h fun _ hk _ _ hv => hv.mono hk

/-! ## Positions -/

theorem located {p p' : Position} (hp : κ.Placed p p') (h : κ.Twins n act act' Q) :
    κ.Twins n (Eval.located p act) (Eval.located p' act') Q := by
  intro m m' hm hsize
  have hends := h m m' hm hsize
  unfold Eval.located
  generalize act m = r at hends
  generalize act' m' = r' at hends
  cases hends with
  | ok hm hk hq => exact .ok hm hk hq
  | error hm hk he =>
    cases he with
    | failure c hpos => exact .error hm hk (.failure c (.some (option_rel_getD hpos hp)))
    | returned hv => exact .error hm hk (.returned hv)
    | broke hp => exact .error hm hk (.broke hp)
    | continued hp => exact .error hm hk (.continued hp)
    | unfinished why => exact .error hm hk (.unfinished why)

theorem checkInterrupt : κ.Twins n Eval.checkInterrupt Eval.checkInterrupt Same :=
  look fun m m' hm _ => by
    rw [hm.interrupted]
    exact ite (fail .interrupted) (same ())

theorem step {p p' : Position} (hp : κ.Placed p p') (h : κ.Twins n act act' Q) :
    κ.Twins n (Eval.step p act) (Eval.step p' act') Q :=
  located hp (next checkInterrupt fun _ hk => h.of_le hk)

theorem log {e e' : Event} (h : e.Matches κ.Placed e') :
    κ.Twins n (Eval.log e) (Eval.log e') Same :=
  change fun _ _ hm _ => ⟨{ hm with events := κ.logged hm.events h }, rfl⟩

/-- A statement is logged, if the settings say so, and begun. -/
theorem traced (kind : String) {p p' : Position} (hp : κ.Placed p p') (h : κ.Twins n act act' Q) :
    κ.Twins n (do
      if (← get).settings.tracing then Eval.log (.statement kind p)
      Eval.step p act) (do
      if (← get).settings.tracing then Eval.log (.statement kind p')
      Eval.step p' act') Q :=
  look fun m m' hm hsize => by
    have hstep := step hp (h.of_le hsize)
    rw [hm.settings, hm.settings']
    exact ite (next (log (.statement hp)) fun _ hk => hstep.of_le hk) hstep

/-! ## Results that are settled -/

theorem settling {settle : Except Stop Value → Except Stop Value} {act act' : Eval Value}
    (hok : ∀ k v v', κ.Relates k v v' → ∃ w w', settle (.ok v) = .ok w ∧ settle (.ok v') = .ok w' ∧
      κ.Relates k w w')
    (herror : ∀ k e e', κ.Stops k e e' →
      (∃ w w', settle (.error e) = .ok w ∧ settle (.error e') = .ok w' ∧ κ.Relates k w w') ∨
      ∃ s s', settle (.error e) = .error s ∧ settle (.error e') = .error s' ∧ κ.Stops k s s')
    (h : κ.Twins n act act' κ.Relates) :
    κ.Twins n (Eval.settling settle act) (Eval.settling settle act') κ.Relates := by
  intro m m' hm hsize
  have hends := h m m' hm hsize
  unfold Eval.settling
  generalize act m = r at hends
  generalize act' m' = r' at hends
  cases hends with
  | ok hm hk hq =>
    obtain ⟨w, w', hw, hw', hrel⟩ := hok _ _ _ hq
    dsimp only
    rw [hw, hw']
    exact .ok hm hk hrel
  | error hm hk he =>
    dsimp only
    obtain ⟨w, w', hw, hw', hrel⟩ | ⟨s, s', hs, hs', hrel⟩ := herror _ _ _ he
    · rw [hw, hw']
      exact .ok hm hk hrel
    · rw [hs, hs']
      exact .error hm hk hrel

theorem settle_error {k : Nat} {e e' : Stop} (h : κ.Stops k e e') :
    (∃ w w', programResult (.error e) = .ok w ∧ programResult (.error e') = .ok w' ∧
      κ.Relates k w w') ∨
    ∃ s s', programResult (.error e) = .error s ∧ programResult (.error e') = .error s' ∧
      κ.Stops k s s' := by
  cases h with
  | failure c hp => exact .inr ⟨_, _, rfl, rfl, .failure c hp⟩
  | returned hv => exact .inl ⟨_, _, rfl, rfl, hv⟩
  | broke hp => exact .inr ⟨_, _, rfl, rfl, .failure _ (.some hp)⟩
  | continued hp => exact .inr ⟨_, _, rfl, rfl, .failure _ (.some hp)⟩
  | unfinished why => exact .inr ⟨_, _, rfl, rfl, .unfinished why⟩

theorem settlingProgram {act act' : Eval Value} (h : κ.Twins n act act' κ.Relates) :
    κ.Twins n (Eval.settling programResult act) (Eval.settling programResult act') κ.Relates :=
  settling (fun _ v v' hv => ⟨v, v', rfl, rfl, hv⟩) (fun _ _ _ he => settle_error he) h

theorem settlingCall {act act' : Eval Value} (h : κ.Twins n act act' κ.Relates) :
    κ.Twins n (Eval.settling callResult act) (Eval.settling callResult act') κ.Relates := by
  have hresult (e : Stop) : callResult (.error e) = programResult (.error e) := by cases e <;> rfl
  refine settling (fun _ _ _ _ => ⟨.undefined, .undefined, rfl, rfl, .undefined⟩)
    (fun k e e' he => ?_) h
  rw [hresult e, hresult e']
  exact settle_error he

/-! ## Scopes and calls -/

theorem modifyEnv {f f' : Environment → Environment}
    (hf : ∀ k e e', n ≤ k → κ.Environments k e e' → κ.Environments k (f e) (f' e')) :
    κ.Twins n (Eval.modifyEnv f) (Eval.modifyEnv f') Same :=
  change fun _ _ hm hsize => ⟨{ hm with env := hf _ _ _ hsize hm.env }, rfl⟩

theorem inScope (r : Ref .scope) (h : κ.Twins n act act' Q) :
    κ.Twins n (Eval.inScope r act) (Eval.inScope (κ.ref r) act') Q := by
  intro m m' hm hsize
  have hends := h { m with env := m.env.enter r } { m' with env := m'.env.enter (κ.ref r) }
    { hm with env := hm.env.enter r } hsize
  have left {a a' : Machine} (ha : κ.Machines a a') : κ.Machines
      { a with env := a.env.enter m.env.current } { a' with env := a'.env.enter m'.env.current } := by
    rw [hm.env.current]
    exact { ha with env := ha.env.enter _ }
  unfold Eval.inScope
  dsimp only at hends ⊢
  generalize act { m with env := m.env.enter r } = res at hends
  generalize act' { m' with env := m'.env.enter (κ.ref r) } = res' at hends
  cases hends with
  | ok hm hk hq => exact .ok (left hm) hk hq
  | error hm hk he => exact .error (left hm) hk he

theorem newScope (parent : Ref .scope) :
    κ.Twins n (Eval.newScope parent) (Eval.newScope (κ.ref parent)) fun _ r r' => r' = κ.ref r :=
  modifyGet fun _ _ hm _ =>
    ⟨{ hm with env := (hm.env.newScope parent).2 }, Nat.le_refl _, (hm.env.newScope parent).1⟩

theorem inNewScope (h : κ.Twins n act act' Q) :
    κ.Twins n (Eval.inNewScope act) (Eval.inNewScope act') Q :=
  look fun m m' hm hsize => by
    rw [hm.env.current]
    exact (newScope m.env.current).bind fun k hk r r' hr => by
      subst hr
      exact inScope r (h.of_le (Nat.le_trans hsize hk))

theorem inCall (h : κ.Twins n act act' Q) : κ.Twins n (Eval.inCall act) (Eval.inCall act') Q := by
  intro m m' hm hsize
  have henter := hm.env.enterCall
  unfold Eval.inCall
  generalize m.env.enterCall = env at henter
  generalize m'.env.enterCall = env' at henter
  cases henter with
  | error c => exact .error hm (Nat.le_refl _) (.failure c .none)
  | @ok env env' henv =>
    have hends := h { m with env := env } { m' with env := env' } { hm with env := henv } hsize
    dsimp only at hends ⊢
    generalize act { m with env := env } = res at hends
    generalize act' { m' with env := env' } = res' at hends
    cases hends with
    | ok hm hk hq => exact .ok { hm with env := hm.env.exitCall } hk hq
    | error hm hk he => exact .error { hm with env := hm.env.exitCall } hk he

theorem ask (request : Host → Reply α × Host) :
    κ.Twins n (Eval.ask request) (Eval.ask request) Same := by
  intro m m' hm hsize
  have hm' : κ.Machines { m with host := (request m.host).2 }
      { m' with host := (request m'.host).2 } :=
    { hm with host := congrArg (fun host => (request host).2) hm.host }
  have hsame : (request m'.host).1 = (request m.host).1 :=
    congrArg (fun host => (request host).1) hm.host
  unfold Eval.ask
  dsimp only
  rw [hsame]
  cases (request m.host).1 with
  | granted a => exact .ok hm' (Nat.le_refl _) rfl
  | refused e => exact .ok hm' (Nat.le_refl _) rfl
  | pending r => exact .error hm' (Nat.le_refl _) (.unfinished _)

/-! ## Loops -/

theorem repeatRound {round round' : Eval Bool} (h : κ.Twins n round round' Same) (rounds : Nat) :
    κ.Twins n (Eval.repeatRound round rounds) (Eval.repeatRound round' rounds) Same := by
  induction rounds with
  | zero => exact outOfFuel
  | succ rounds ih =>
    refine h.bind fun k hk goesOn goesOn' heq => ?_
    cases heq
    exact ite (ih.of_le hk) (same ())

theorem visit {round round' : Value → Eval Bool} {items items' : List Value}
    (h : ∀ k, n ≤ k → ∀ v v', κ.Relates k v v' → κ.Twins k (round v) (round' v') Same)
    (hitems : List.Forall₂ (κ.Relates n) items items') :
    κ.Twins n (Eval.visit round items) (Eval.visit round' items') Same := by
  induction hitems with
  | nil => exact same ()
  | cons hv _ ih =>
    refine (h n (Nat.le_refl n) _ _ hv).bind fun k hk goesOn goesOn' heq => ?_
    cases heq
    exact ite (ih.of_le hk) (same ())

theorem loopBody {body body' : Eval Value} (h : κ.Twins n body body' κ.Relates) :
    κ.Twins n (Eval.loopBody body) (Eval.loopBody body') Same := by
  intro m m' hm hsize
  have hends := inNewScope h m m' hm hsize
  unfold Eval.loopBody
  generalize Eval.inNewScope body m = r at hends
  generalize Eval.inNewScope body' m' = r' at hends
  cases hends with
  | ok hm hk hq => exact .ok hm hk rfl
  | error hm hk he =>
    cases he with
    | failure c hp => exact .error hm hk (.failure c hp)
    | returned hv => exact .error hm hk (.returned hv)
    | broke hp => exact .ok hm hk rfl
    | continued hp => exact .ok hm hk rfl
    | unfinished why => exact .error hm hk (.unfinished why)

/-! ## Names and cells -/

theorem lookup (x : String) : κ.Twins n (Eval.lookup x) (Eval.lookup x) κ.Relates := by
  rw [Eval.lookup_eq]
  refine look fun m m' hm _ => ?_
  have hfound := hm.env.lookup? x
  generalize m.env.lookup? x = v at hfound
  generalize m'.env.lookup? x = v' at hfound
  cases hfound with
  | none => exact fail _
  | some hv => exact value hv

theorem define (x : String) {v v' : Value} (hv : κ.Relates n v v') (mode : Mode) :
    κ.Twins n (Eval.define x v mode) (Eval.define x v' mode) Same :=
  modifyEnv fun _ _ _ hk he => he.define x (hv.mono hk) mode

theorem assign (x : String) {v v' : Value} (hv : κ.Relates n v v') :
    κ.Twins n (Eval.assign x v) (Eval.assign x v') Same := by
  rw [Eval.assign_eq, Eval.assign_eq]
  refine look fun m m' hm hsize => ?_
  have hv := hv.mono hsize
  have howner := hm.env.assignable x
  generalize m.env.assignable m.env.current x = r at howner
  generalize m'.env.assignable m'.env.current x = r' at howner
  cases howner with
  | @ok owner owner' heq =>
    subst heq
    exact modifyEnv fun _ _ _ hk he => he.defineIn owner x (hv.mono hk) .mutable
  | error c =>
    cases c with
    | undefinedVariable y => exact modifyEnv fun _ _ _ hk he => he.defineGlobal x (hv.mono hk)
    | _ => exact fail _

theorem write (spot : Place) {v v' : Value} (hv : κ.Relates n v v') :
    κ.Twins n (Eval.write spot v) (Eval.write (κ.spot spot) v') Same :=
  change fun m m' hm hsize => by
    have hsame := size_instances_write m.heap spot v
    have hheap := hm.heap.write (hv.mono hsize) spot
    refine ⟨{ hm with env := ?_, heap := ?_ }, hsame⟩
    · rw [show ({ m with heap := m.heap.write spot v } : Machine).heap.instances.size = _ from hsame]
      exact hm.env
    · rw [show ({ m with heap := m.heap.write spot v } : Machine).heap.instances.size = _ from hsame]
      exact hheap

theorem newArray {items items' : List Value} (h : List.Forall₂ (κ.Relates n) items items') :
    κ.Twins n (Eval.newArray items) (Eval.newArray items') κ.Relates :=
  modifyGet fun _ _ hm hsize => by
    have hcell := hm.heap.newArray (h.imp fun _ _ hv => hv.mono hsize)
    exact ⟨{ hm with heap := hcell.2 }, Nat.le_refl _, hcell.1⟩

theorem newObject {map map' : OrderedMap Value} (h : map.Matches (κ.Relates n) map') :
    κ.Twins n (Eval.newObject map) (Eval.newObject map') κ.Relates :=
  modifyGet fun _ _ hm hsize => by
    have hcell := hm.heap.newObject (h.mono fun _ _ hv => hv.mono hsize)
    exact ⟨{ hm with heap := hcell.2 }, Nat.le_refl _, hcell.1⟩

end Twins

end Relabeling

end Scriptlet
