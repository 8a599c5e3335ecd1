import Scriptlet.Proofs.Environment.Chains

/-!
# Sequences of operations on an environment

A `Client` works on an environment, and keeps references to scopes: to the current one, to new ones,
and to those that it replaces by entering another. A `ScopeOp` is what it can do. Any operation
leaves the scopes nested (`Client.Sound.keeps_apply`), so any sequence of them does, and what
`Environment.RefinesChains` says holds at any time (`environment_refines_chains`).

Operations are `Balanced` if what they push they pop, and what they enter they leave. They end in
the scope they began in (`Balanced.current_run`).
-/

namespace Scriptlet

/-- An environment, and the scopes that someone has kept. -/
structure Client where
  env : Environment
  kept : List (Ref .scope)

/-- What can be done with an environment. A number stands for a scope that was kept. -/
inductive ScopeOp where
  | push
  | pop
  | define (x : String) (v : Value) (mode : Mode)
  | defineGlobal (x : String) (v : Value)
  | assign (x : String) (v : Value)
  /-- Keeps the current scope. -/
  | keep
  /-- Makes a scope that lies in no other, and keeps it. -/
  | root
  /-- Makes a scope that lies in a kept one, and keeps it. -/
  | child (k : Nat)
  /-- Makes a kept scope the current one, and keeps the one that was. -/
  | enter (k : Nat)
  /-- Goes back to a kept scope. -/
  | restore (k : Nat)
  /-- Enters a kept scope, or a new one in the current one, until the operations are done. -/
  | guarded (k : Option Nat) (body : List ScopeOp)
  | clear
  | loadPrelude
  | defineIn (k : Nat) (x : String) (v : Value) (mode : Mode)
  | assignFrom (k : Nat) (x : String) (v : Value)

namespace Client

/-- Someone who has kept no scope yet. -/
def new (limit : Nat) : Client := ⟨Environment.new limit, []⟩

/-- The scope that was kept as number `k`; the current one if there is no such. -/
def handle (c : Client) (k : Nat) : Ref .scope := c.kept.getD k c.env.current

/-- Keeps a scope. -/
def keep (c : Client) (r : Ref .scope) : Client := { c with kept := c.kept ++ [r] }

/-- Makes a scope, and keeps it. -/
def make (c : Client) (parent : Option (Ref .scope)) : Client :=
  let (r, env) := c.env.newScope parent
  { c with env := env }.keep r

/-- Goes on with the outcome of an assignment. One that is refused changes nothing. -/
def assigned (c : Client) : Except Cause Environment → Client
  | .ok env => { c with env := env }
  | .error _ => c

/-- Enters the scope of a guard. -/
def enterGuard (c : Client) : Option Nat → Client
  | none => { c with env := c.env.push }
  | some k => { c with env := c.env.enter (c.handle k) }

mutual

/-- What an operation leaves. -/
def apply (c : Client) : ScopeOp → Client
  | .push => { c with env := c.env.push }
  | .pop => { c with env := c.env.pop }
  | .define x v mode => { c with env := c.env.define x v mode }
  | .defineGlobal x v => { c with env := c.env.defineGlobal x v }
  | .assign x v => c.assigned (c.env.assign x v)
  | .keep => c.keep c.env.current
  | .root => c.make none
  | .child k => c.make (some (c.handle k))
  | .enter k => { c with env := c.env.enter (c.handle k) }.keep c.env.current
  | .restore k => { c with env := c.env.enter (c.handle k) }
  | .guarded k body =>
    let left := (c.enterGuard k).run body
    { left with env := left.env.enter c.env.current }
  | .clear => { c with env := c.env.clear }
  | .loadPrelude => { c with env := c.env.loadPrelude }
  | .defineIn k x v mode => { c with env := c.env.defineIn (c.handle k) x v mode }
  | .assignFrom k x v => c.assigned (c.env.assignFrom (c.handle k) x v)

/-- What operations one after the other leave. -/
def run (c : Client) : List ScopeOp → Client
  | [] => c
  | op :: ops => (c.apply op).run ops

end

theorem run_append (c : Client) (ops ops' : List ScopeOp) :
    c.run (ops ++ ops') = (c.run ops).run ops' := by
  induction ops generalizing c with
  | nil => rfl
  | cons op ops ih =>
    rw [List.cons_append, run, run]
    exact ih (c.apply op)

/-! ## All operations keep the scopes nested -/

/-- The scopes of the environment are nested, and those that were kept exist. -/
structure Sound (c : Client) : Prop where
  nested : c.env.Nested
  kept {r : Ref .scope} : r ∈ c.kept → r.index < c.env.scopes.size

/-- `c'` is sound, and its scopes are those of `c` and new ones. -/
structure Keeps (c c' : Client) : Prop where
  sound : c'.Sound
  continues : c.env.Continues c'.env

variable {c c' : Client} {e : Environment} {r : Ref .scope}

theorem Keeps.trans {c'' : Client} (h : c.Keeps c') (h' : c'.Keeps c'') : c.Keeps c'' :=
  ⟨h'.sound, h.continues.trans h'.continues⟩

theorem sound_new (limit : Nat) : (new limit).Sound := ⟨Environment.nested_new limit, nofun⟩

namespace Sound

theorem keeps (h : c.Sound) : c.Keeps c := ⟨h, .refl c.env⟩

theorem of_env (h : c.Sound) (hnested : e.Nested) (hcontinues : c.env.Continues e) :
    c.Keeps { c with env := e } where
  sound := ⟨hnested, fun hr => Nat.lt_of_lt_of_le (h.kept hr) hcontinues.size⟩
  continues := hcontinues

theorem handle (h : c.Sound) (k : Nat) : (c.handle k).index < c.env.scopes.size := by
  unfold Client.handle
  rw [List.getD_eq_getElem?_getD]
  cases hk : c.kept[k]? with
  | none => exact h.nested.current
  | some r => exact h.kept (List.mem_of_getElem? hk)

theorem keep (h : c.Sound) (hr : r.index < c.env.scopes.size) : (c.keep r).Sound where
  nested := h.nested
  kept hr' := by
    rcases List.mem_append.mp hr' with hold | hnew
    · exact h.kept hold
    · cases List.mem_singleton.mp hnew
      exact hr

theorem enter (h : c.Sound) (hr : r.index < c.env.scopes.size) :
    c.Keeps { c with env := c.env.enter r } :=
  h.of_env (h.nested.enter hr) ⟨Nat.le_refl _, fun _ => rfl⟩

theorem make (h : c.Sound) {parent : Option (Ref .scope)}
    (hparent : ∀ p, parent = some p → p.index < c.env.scopes.size) : c.Keeps (c.make parent) := by
  have hadded := h.of_env (h.nested.newScope hparent) (c.env.continues_newScope parent)
  refine ⟨hadded.sound.keep ?_, hadded.continues⟩
  exact Nat.lt_of_lt_of_eq (Nat.lt_succ_self _) (Environment.size_newScope c.env parent).symm

theorem push (h : c.Sound) : c.Keeps { c with env := c.env.push } := by
  have hcurrent : ∀ p, some c.env.current = some p → p.index < c.env.scopes.size := by
    rintro _ ⟨⟩
    exact h.nested.current
  have hadded := h.of_env (h.nested.newScope hcurrent) (c.env.continues_newScope _)
  refine hadded.trans (hadded.sound.enter ?_)
  exact Nat.lt_of_lt_of_eq (Nat.lt_succ_self _) (Environment.size_newScope c.env _).symm

theorem defineIn (h : c.Sound) (r : Ref .scope) (x : String) (v : Value) (mode : Mode) :
    c.Keeps { c with env := c.env.defineIn r x v mode } :=
  h.of_env (h.nested.defineIn r x v mode) (c.env.continues_defineIn r x v mode)

theorem assigned (h : c.Sound) (r : Ref .scope) (x : String) (v : Value) :
    c.Keeps (c.assigned (c.env.assignFrom r x v)) := by
  cases hassign : c.env.assignFrom r x v with
  | error cause => exact h.keeps
  | ok e =>
    obtain ⟨owner, _, _, _, rfl⟩ := Environment.assignFrom_eq_ok_iff.mp hassign
    exact h.defineIn owner x v .mutable

theorem enterGuard (h : c.Sound) (k : Option Nat) : c.Keeps (c.enterGuard k) := by
  cases k with
  | none => exact h.push
  | some k => exact h.enter (h.handle k)

theorem pop (h : c.Sound) : c.Keeps { c with env := c.env.pop } := by
  refine h.of_env h.nested.pop ?_
  unfold Environment.pop
  split
  · exact .refl c.env
  · split
    · exact ⟨Nat.le_refl _, fun _ => rfl⟩
    · exact .refl c.env

theorem clear (h : c.Sound) : c.Keeps { c with env := c.env.clear } := by
  have hcontinues := c.env.continues_newScope none
  exact h.of_env h.nested.clear ⟨hcontinues.size, hcontinues.parent⟩

theorem loadPrelude (h : c.Sound) : c.Keeps { c with env := c.env.loadPrelude } :=
  have hinstalled := h.nested.installAll Environment.standardPrimitives
  h.of_env hinstalled.1 hinstalled.2

mutual

theorem keeps_apply {c : Client} (h : c.Sound) : (op : ScopeOp) → c.Keeps (c.apply op)
  | .push => h.push
  | .pop => h.pop
  | .define x v mode => h.defineIn c.env.current x v mode
  | .defineGlobal x v => h.defineIn c.env.globals x v .mutable
  | .assign x v => h.assigned c.env.current x v
  | .keep => ⟨h.keep h.nested.current, .refl c.env⟩
  | .root => h.make nofun
  | .child k => h.make fun _ hp => Option.some.inj hp ▸ h.handle k
  | .enter k =>
    have hentered := h.enter (h.handle k)
    ⟨hentered.sound.keep h.nested.current, hentered.continues⟩
  | .restore k => h.enter (h.handle k)
  | .guarded k body =>
    have hentered := h.enterGuard k
    have hran := hentered.trans (hentered.sound.keeps_run body)
    hran.trans (hran.sound.enter (Nat.lt_of_lt_of_le h.nested.current hran.continues.size))
  | .clear => h.clear
  | .loadPrelude => h.loadPrelude
  | .defineIn k x v mode => h.defineIn (c.handle k) x v mode
  | .assignFrom k x v => h.assigned (c.handle k) x v

theorem keeps_run {c : Client} (h : c.Sound) : (ops : List ScopeOp) → c.Keeps (c.run ops)
  | [] => h.keeps
  | op :: ops =>
    have happlied := h.keeps_apply op
    happlied.trans (happlied.sound.keeps_run ops)

end

end Sound

/-! ## Coming back to the current scope -/

/-- The operations that do not go to another scope, or come back themselves. -/
def Stays : ScopeOp → Prop
  | .push | .pop | .enter _ | .restore _ | .clear => False
  | _ => True

/-- What operations push, they pop, or else they go back to a scope that was kept: to the one that
was current before. -/
inductive Balanced : Client → List ScopeOp → Prop
  | nil {c : Client} : Balanced c []
  | stays {c : Client} {op : ScopeOp} {ops : List ScopeOp} : Stays op → Balanced (c.apply op) ops →
    Balanced c (op :: ops)
  | pushed {c : Client} {between ops : List ScopeOp} : Balanced (c.apply .push) between →
    Balanced (c.run (.push :: between ++ [.pop])) ops →
    Balanced c ((.push :: between ++ [.pop]) ++ ops)
  | restored {c : Client} {between ops : List ScopeOp} {k : Nat} :
    (c.run between).handle k = c.env.current → Balanced (c.run (between ++ [.restore k])) ops →
    Balanced c ((between ++ [.restore k]) ++ ops)

theorem current_installAll (ps : List Primitive) (e : Environment) :
    (ps.foldl Environment.install e).current = e.current := by
  induction ps generalizing e with
  | nil => rfl
  | cons p ps ih => exact ih (e.install p)

theorem current_assigned (c : Client) (r : Ref .scope) (x : String) (v : Value) :
    (c.assigned (c.env.assignFrom r x v)).env.current = c.env.current := by
  cases hassign : c.env.assignFrom r x v with
  | error cause => rfl
  | ok e =>
    obtain ⟨owner, _, _, _, rfl⟩ := Environment.assignFrom_eq_ok_iff.mp hassign
    rfl

theorem current_apply {op : ScopeOp} (h : Stays op) (c : Client) :
    (c.apply op).env.current = c.env.current := by
  cases op with
  | push | pop | enter | restore | clear => cases h
  | assign x v => exact current_assigned c c.env.current x v
  | assignFrom k x v => exact current_assigned c (c.handle k) x v
  | loadPrelude => exact current_installAll Environment.standardPrimitives c.env
  | define | defineGlobal | keep | root | child | guarded | defineIn => rfl

/-- A scope that was pushed is popped to where it was pushed, whatever has been done in between, as
soon as it is the current one again. It is never the global one, since it lies in another. -/
theorem Sound.current_pop (h : c.Sound) {between : List ScopeOp}
    (hback : ((c.apply .push).run between).env.current = (c.apply .push).env.current) :
    (c.run (.push :: between ++ [.pop])).env.current = c.env.current := by
  have hpushed := h.keeps_apply .push
  have hran := hpushed.sound.keeps_run between
  rw [List.cons_append, run, run_append]
  generalize (c.apply .push).run between = c' at hback hran
  have hlies : c'.env.parent? c'.env.current = some c.env.current := by
    rw [hback, hran.continues.parent hpushed.sound.nested.current]
    exact (Environment.parent?_newScope c.env _ _).trans (if_pos rfl)
  have hglobal : ¬ c'.env.atGlobal = true := by
    intro hat
    rw [of_decide_eq_true hat, hran.sound.nested.top] at hlies
    cases hlies
  show c'.env.pop.current = c.env.current
  unfold Environment.pop
  rw [if_neg hglobal, hlies]
  rfl

theorem Balanced.current_run {ops : List ScopeOp} (hops : c.Balanced ops) (h : c.Sound) :
    (c.run ops).env.current = c.env.current := by
  induction hops with
  | nil => rfl
  | @stays c op ops hstays _ ih =>
    exact (ih (h.keeps_apply op).sound).trans (current_apply hstays c)
  | @pushed c between ops _ _ ihbetween ih =>
    rw [run_append, ih (h.keeps_run _).sound]
    exact h.current_pop (ihbetween (h.keeps_apply .push).sound)
  | @restored c between ops k hk _ ih =>
    rw [run_append, ih (h.keeps_run _).sound, run_append]
    exact hk

/-- At any time the scopes that someone can name exist, and the environment is a chain of ordered
maps from each of them. An assignment that is refused changes nothing. What is pushed is popped to
where it was pushed. -/
structure RefinesChains (c : Client) : Prop where
  chains : c.env.RefinesChains
  globals : c.env.globals.index < c.env.scopes.size
  current : c.env.current.index < c.env.scopes.size
  handle (k : Nat) : (c.handle k).index < c.env.scopes.size
  refused {x : String} {v : Value} {cause : Cause} : c.env.assign x v = .error cause →
    c.apply (.assign x v) = c
  refusedFrom {k : Nat} {x : String} {v : Value} {cause : Cause} :
    c.env.assignFrom (c.handle k) x v = .error cause → c.apply (.assignFrom k x v) = c
  popped {between : List ScopeOp} : (c.apply .push).Balanced between →
    (c.run (.push :: between ++ [.pop])).env.current = c.env.current

end Client

/-- After any operations the environment is a chain of ordered maps from each of its scopes
outward. -/
theorem environment_refines_chains (limit : Nat) (ops : List ScopeOp) :
    ((Client.new limit).run ops).RefinesChains := by
  have hsound := ((Client.sound_new limit).keeps_run ops).sound
  generalize (Client.new limit).run ops = c at hsound
  refine ⟨hsound.nested.refinesChains, hsound.nested.globals, hsound.nested.current, hsound.handle,
    fun hassign => ?_, fun hassign => ?_, fun hbetween => ?_⟩
  · exact congrArg c.assigned hassign
  · exact congrArg c.assigned hassign
  · exact hsound.current_pop (hbetween.current_run (hsound.keeps_apply .push).sound)

theorem environment_refines_chains_sample :
    let c := (Client.new 10).run [.define "x" (.integer 1) .mutable, .push,
      .define "k" (.integer 2) .constant, .keep, .pop]
    (∃ owner b, c.env.Binds (c.handle 0) "x" owner b ∧ b.value = .integer 1) ∧
      c.apply (.assign "k" .null) = c ∧ c.apply (.assignFrom 0 "k" .null) = c ∧
      (c.run (.push :: ((.push :: [.assign "x" .null] ++ [.pop]) ++ (([.enter 0, .clear] ++
        [.restore 1]) ++ [.guarded none [.restore 0]])) ++ [.pop])).env.current = c.env.current := by
  intro c
  have h := environment_refines_chains 10 [.define "x" (.integer 1) .mutable, .push,
    .define "k" (.integer 2) .constant, .keep, .pop]
  refine ⟨h.chains.found.mp rfl, h.refused rfl, h.refusedFrom rfl, h.popped ?_⟩
  exact .pushed (.stays trivial .nil) (.restored rfl (.stays trivial .nil))

end Scriptlet
