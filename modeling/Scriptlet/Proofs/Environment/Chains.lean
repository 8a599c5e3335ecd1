import Scriptlet.Proofs.Eval.Bindings
import Scriptlet.Proofs.Value.Contents

/-!
# An environment is a chain of ordered maps

Where every scope lies in an older one (`Environment.Nested`), the scopes from a scope outward are
a finite list, up to one that lies in no other (`Environment.IsChain`). A name is looked up in the
ordered maps of this list: what is found is the binding of the first one that has the name
(`find?_eq_some_iff`), an assignment replaces that very binding (`assignFrom_eq_ok_iff`), and a
binding that is made in any scope is found from everywhere where no scope before it has the name
(`defined_defineIn`). `Environment.RefinesChains` gathers these laws.
-/

namespace Scriptlet

/-- Replacing the value of a key that a map has leaves all else in its place. -/
theorem OrderedMap.entries_insert_of_mem {α : Type} {m : OrderedMap α} {key : String}
    (h : key ∈ m.keys) (a : α) : (m.insert key a).entries =
      m.entries.map fun e => if e.1 = key then (key, a) else e := by
  obtain ⟨entries, hnodup⟩ := m
  unfold OrderedMap.keys at h
  unfold OrderedMap.insert
  dsimp only at h ⊢
  induction entries with
  | nil => cases h
  | cons e rest ih =>
    obtain ⟨k, b⟩ := e
    rw [List.map_cons, List.nodup_cons] at hnodup
    rw [insertEntry, List.map_cons]
    by_cases hk : k = key
    · have hrest : rest.map (fun e => if e.1 = key then (key, a) else e) = rest := by
        refine (List.map_congr_left fun e he => if_neg fun hkey => ?_).trans (List.map_id rest)
        have hmem : e.1 ∈ rest.map Prod.fst := List.mem_map_of_mem he
        exact hnodup.1 (by rwa [hk, ← hkey])
      rw [if_pos hk, if_pos hk, hrest, hk]
    · rw [if_neg hk, if_neg hk]
      refine congrArg _ (ih hnodup.2 ?_)
      exact (List.mem_cons.mp h).resolve_left fun hkey => hk hkey.symm

/-! ## The first place in a list -/

section

variable {α β : Type} {f g : α → Option β} {a : α}

/-- If `g` has something at `a`, and differs from `f` nowhere else, the search with `g` ends at
`a` if `f` has nothing before it. -/
theorem findSome?_of_first {b : β} (ha : g a = some b) (hother : ∀ {c}, c ≠ a → g c = f c)
    {l : List α} (h : ∃ before behind, l = before ++ a :: behind ∧ ∀ c ∈ before, f c = none) :
    l.findSome? g = some b := by
  obtain ⟨before, behind, rfl, hbefore⟩ := h
  induction before with
  | nil => rw [List.nil_append, List.findSome?_cons, ha]
  | cons c before ih =>
    rw [List.cons_append, List.findSome?_cons]
    by_cases hc : c = a
    · rw [hc, ha]
    · rw [hother hc, hbefore c List.mem_cons_self]
      exact ih fun d hd => hbefore d (List.mem_cons_of_mem c hd)

/-- If the search with `f` ends before `a`, or `a` is not in the list, it does not matter what there
is at `a`. -/
theorem findSome?_of_not_first (hother : ∀ {c}, c ≠ a → g c = f c) {l : List α}
    (h : ¬ ∃ before behind, l = before ++ a :: behind ∧ ∀ c ∈ before, f c = none) :
    l.findSome? g = l.findSome? f := by
  induction l with
  | nil => rfl
  | cons c rest ih =>
    have hc : c ≠ a := by
      rintro rfl
      exact h ⟨[], rest, rfl, nofun⟩
    rw [List.findSome?_cons, List.findSome?_cons, hother hc]
    cases hf : f c with
    | some b => rfl
    | none =>
      refine ih fun ⟨before, behind, hsplit, hbefore⟩ => h ⟨c :: before, behind, ?_, ?_⟩
      · rw [hsplit, List.cons_append]
      · exact List.forall_mem_cons.mpr ⟨hf, hbefore⟩

end

namespace Environment

/-- Every scope lies in an older one, the global scope in none, and the current scope exists. -/
structure Nested (e : Environment) : Prop where
  current : e.current.index < e.scopes.size
  globals : e.globals.index < e.scopes.size
  top : e.parent? e.globals = none
  older {r p : Ref .scope} : e.parent? r = some p → p.index < r.index

/-- The scopes from `r` outward are those of the list, and the last of them lies in no other. -/
inductive IsChain (e : Environment) : Ref .scope → List (Ref .scope) → Prop
  | last {r : Ref .scope} : e.parent? r = none → IsChain e r [r]
  | outward {r p : Ref .scope} {rs : List (Ref .scope)} : e.parent? r = some p → IsChain e p rs →
    IsChain e r (r :: rs)

variable {e e' : Environment} {r s owner : Ref .scope} {x y : String} {b : Binding} {v : Value}
  {mode : Mode}

theorem Nested.isChain_chainWithin (h : e.Nested) {fuel : Nat} (hfuel : r.index < fuel) :
    e.IsChain r (e.chainWithin fuel r) := by
  induction fuel generalizing r with
  | zero => cases hfuel
  | succ fuel ih =>
    rw [chainWithin]
    cases hp : e.parent? r with
    | none => exact .last hp
    | some p => exact .outward hp (ih (Nat.lt_of_lt_of_le (h.older hp) (Nat.le_of_lt_succ hfuel)))

/-- A chain is finite, and leads to a scope that lies in no other. -/
theorem Nested.isChain (h : e.Nested) (hr : r.index < e.scopes.size) : e.IsChain r (e.chain r) :=
  h.isChain_chainWithin hr

theorem IsChain.unique {rs rs' : List (Ref .scope)} (h : e.IsChain r rs) (h' : e.IsChain r rs') :
    rs = rs' := by
  induction h generalizing rs' with
  | last hp =>
    cases h' with
    | last => rfl
    | outward hp' => exact nomatch hp.symm.trans hp'
  | outward hp _ ih =>
    cases h' with
    | last hp' => exact nomatch hp.symm.trans hp'
    | outward hp' hrest =>
      cases hp.symm.trans hp'
      rw [ih hrest]

/-- Chains depend on nothing but where the scopes lie. -/
theorem IsChain.of_parents {rs : List (Ref .scope)} (h : e.IsChain r rs)
    (hparent : ∀ s ∈ rs, e'.parent? s = e.parent? s) : e'.IsChain r rs := by
  induction h with
  | last hp => exact .last ((hparent _ List.mem_cons_self).trans hp)
  | outward hp _ ih =>
    exact .outward ((hparent _ List.mem_cons_self).trans hp)
      (ih fun s hs => hparent s (List.mem_cons_of_mem _ hs))

/-! ## What is seen from a scope -/

/-- From the scope `s` the name `x` is seen in the scope `r`, if it is bound there: `r` is on the
chain of `s`, and no scope before it has the name. -/
def Sees (e : Environment) (s : Ref .scope) (x : String) (r : Ref .scope) : Prop :=
  ∃ before behind, e.chain s = before ++ r :: behind ∧ ∀ t ∈ before, (e.bindings t).get? x = none

/-- The first scope of the chain of `r` that has the name `x` is `owner`, which binds it as `b`. -/
structure Binds (e : Environment) (r : Ref .scope) (x : String) (owner : Ref .scope) (b : Binding) :
    Prop where
  sees : e.Sees r x owner
  bound : (e.bindings owner).get? x = some b

/-- A search goes through the scopes of a chain one after the other. -/
theorem findWithin_eq (e : Environment) (x : String) (fuel : Nat) (r : Ref .scope) :
    e.findWithin x fuel r =
      (e.chainWithin fuel r).findSome? fun s => ((e.bindings s).get? x).map (s, ·) := by
  induction fuel generalizing r with
  | zero => rfl
  | succ fuel ih =>
    rw [findWithin, chainWithin]
    cases hb : (e.bindings r).get? x with
    | some b => cases e.parent? r <;> simp [hb]
    | none =>
      cases e.parent? r with
      | some p => simp [hb, ih]
      | none => simp [hb]

theorem find?_eq_none_iff :
    e.find? r x = none ↔ ∀ s ∈ e.chain r, (e.bindings s).get? x = none := by
  unfold find? chain
  rw [findWithin_eq, List.findSome?_eq_none_iff]
  simp only [Option.map_eq_none_iff]

theorem find?_eq_some_iff : e.find? r x = some (owner, b) ↔ e.Binds r x owner b := by
  unfold find?
  rw [findWithin_eq, List.findSome?_eq_some_iff]
  simp only [Option.map_eq_some_iff, Option.map_eq_none_iff, Prod.mk.injEq]
  constructor
  · rintro ⟨before, _, behind, hsplit, ⟨_, hbound, rfl, rfl⟩, hbefore⟩
    exact ⟨⟨before, behind, hsplit, hbefore⟩, hbound⟩
  · rintro ⟨⟨before, behind, hsplit, hbefore⟩, hbound⟩
    exact ⟨before, owner, behind, hsplit, ⟨b, hbound, rfl, rfl⟩, hbefore⟩

theorem Binds.find? (h : e.Binds r x owner b) : e.find? r x = some (owner, b) :=
  find?_eq_some_iff.mpr h

theorem lookupFrom?_eq_some_iff :
    e.lookupFrom? r x = some v ↔ ∃ owner b, e.Binds r x owner b ∧ b.value = v := by
  simp only [lookupFrom?, Option.map_eq_some_iff, Prod.exists, find?_eq_some_iff]

theorem lookupFrom?_eq_none_iff :
    e.lookupFrom? r x = none ↔ ∀ s ∈ e.chain r, (e.bindings s).get? x = none := by
  rw [lookupFrom?, Option.map_eq_none_iff, find?_eq_none_iff]

/-- A scope that binds something exists. -/
theorem stored_of_bound (h : (e.bindings owner).get? x = some b) :
    owner.index < e.scopes.size := by
  unfold bindings at h
  cases hs : e.scopes.get? owner with
  | some s => exact (Array.getElem?_eq_some_iff.mp hs).1
  | none =>
    rw [hs] at h
    cases h

/-! ## Binding a name -/

theorem chainWithin_congr (hparent : ∀ r, e'.parent? r = e.parent? r) (fuel : Nat)
    (r : Ref .scope) : e'.chainWithin fuel r = e.chainWithin fuel r := by
  induction fuel generalizing r with
  | zero => rfl
  | succ fuel ih =>
    rw [chainWithin, chainWithin, hparent]
    cases e.parent? r with
    | some p => exact congrArg _ (ih p)
    | none => rfl

theorem chain_defineIn (e : Environment) (r : Ref .scope) (x : String) (v : Value) (mode : Mode)
    (s : Ref .scope) : (e.defineIn r x v mode).chain s = e.chain s := by
  unfold chain
  rw [size_defineIn]
  exact chainWithin_congr (parent?_defineIn e r x v mode) _ s

/-- Binding a name changes nothing for other names. -/
theorem get?_bindings_defineIn_of_ne (hr : r.index < e.scopes.size) (hxy : y ≠ x)
    (s : Ref .scope) :
    ((e.defineIn r x v mode).bindings s).get? y = (e.bindings s).get? y := by
  rw [bindings_defineIn e hr]
  split
  · rename_i hs
    rw [OrderedMap.get?_insert, if_neg hxy, hs]
  · rfl

theorem lookupFrom?_eq (e : Environment) (s : Ref .scope) (x : String) : e.lookupFrom? s x =
    ((e.chain s).findSome? fun t => (e.bindings t).get? x).map Binding.value := by
  unfold lookupFrom? find? chain
  rw [findWithin_eq]
  induction e.chainWithin e.scopes.size s with
  | nil => rfl
  | cons t rest ih =>
    rw [List.findSome?_cons, List.findSome?_cons]
    cases (e.bindings t).get? x with
    | some b => rfl
    | none => exact ih

/-- `x` is bound to `v` in the scope `r`, in its old place if it was bound there already. From a
scope the new binding is found if it is seen from there, and nothing else changes. -/
structure Defined (e e' : Environment) (r : Ref .scope) (x : String) (v : Value) (mode : Mode) :
    Prop where
  here : e'.bindings r = (e.bindings r).insert x ⟨v, mode⟩
  others {s : Ref .scope} : s ≠ r → e'.bindings s = e.bindings s
  chain (s : Ref .scope) : e'.chain s = e.chain s
  seen {s : Ref .scope} : e.Sees s x r → e'.lookupFrom? s x = some v
  unseen {s : Ref .scope} : ¬ e.Sees s x r → e'.lookupFrom? s x = e.lookupFrom? s x
  other {s : Ref .scope} {y : String} : y ≠ x → e'.lookupFrom? s y = e.lookupFrom? s y

theorem defined_defineIn (hr : r.index < e.scopes.size) (x : String) (v : Value) (mode : Mode) :
    e.Defined (e.defineIn r x v mode) r x v mode := by
  have hhere : ((e.defineIn r x v mode).bindings r).get? x = some ⟨v, mode⟩ := by
    rw [bindings_defineIn e hr, if_pos rfl, OrderedMap.get?_insert, if_pos rfl]
  have hother {t : Ref .scope} (ht : t ≠ r) :
      ((e.defineIn r x v mode).bindings t).get? x = (e.bindings t).get? x := by
    rw [bindings_defineIn e hr, if_neg ht]
  refine ⟨?_, fun hs => ?_, chain_defineIn e r x v mode, fun hsees => ?_, fun hsees => ?_,
    fun hxy => ?_⟩
  · rw [bindings_defineIn e hr, if_pos rfl]
  · rw [bindings_defineIn e hr, if_neg hs]
  · have hfirst := findSome?_of_first (g := fun t => ((e.defineIn r x v mode).bindings t).get? x)
      hhere hother hsees
    rw [lookupFrom?_eq, chain_defineIn, hfirst]
    rfl
  · rw [lookupFrom?_eq, chain_defineIn, findSome?_of_not_first hother hsees, ← lookupFrom?_eq]
  · rw [lookupFrom?_eq, lookupFrom?_eq, chain_defineIn]
    simp only [get?_bindings_defineIn_of_ne hr hxy]

/-! ## Assigning to a name -/

theorem unbound_or_binds (e : Environment) (r : Ref .scope) (x : String) :
    (∀ s ∈ e.chain r, (e.bindings s).get? x = none) ∨ ∃ owner b, e.Binds r x owner b := by
  cases hfind : e.find? r x with
  | none => exact .inl (find?_eq_none_iff.mp hfind)
  | some found => exact .inr ⟨found.1, found.2, find?_eq_some_iff.mp hfind⟩

theorem assignFrom_of_unbound (h : ∀ s ∈ e.chain r, (e.bindings s).get? x = none) (v : Value) :
    e.assignFrom r x v = .error (.undefinedVariable x) := by
  unfold assignFrom assignable
  rw [find?_eq_none_iff.mpr h]
  rfl

theorem Binds.assignFrom_of_constant (h : e.Binds r x owner b) (hmode : b.mode = .constant)
    (v : Value) : e.assignFrom r x v = .error (.immutableBinding x) := by
  obtain ⟨u, mode⟩ := b
  cases hmode
  unfold assignFrom assignable
  rw [h.find?]
  rfl

theorem Binds.assignFrom_of_mutable (h : e.Binds r x owner b) (hmode : b.mode = .mutable)
    (v : Value) : e.assignFrom r x v = .ok (e.defineIn owner x v .mutable) := by
  obtain ⟨u, mode⟩ := b
  cases hmode
  unfold assignFrom assignable
  rw [h.find?]
  rfl

/-- An assignment is refused if the name is bound nowhere, or bound as a constant where it is found
first. -/
theorem assignFrom_eq_error_iff {c : Cause} : e.assignFrom r x v = .error c ↔
    c = .undefinedVariable x ∧ (∀ s ∈ e.chain r, (e.bindings s).get? x = none) ∨
      c = .immutableBinding x ∧ ∃ owner b, e.Binds r x owner b ∧ b.mode = .constant := by
  constructor
  · intro h
    rcases unbound_or_binds e r x with hunbound | ⟨owner, b, hbinds⟩
    · rw [assignFrom_of_unbound hunbound] at h
      cases h
      exact .inl ⟨rfl, hunbound⟩
    · cases hmode : b.mode with
      | constant =>
        rw [hbinds.assignFrom_of_constant hmode] at h
        cases h
        exact .inr ⟨rfl, owner, b, hbinds, hmode⟩
      | mutable =>
        rw [hbinds.assignFrom_of_mutable hmode] at h
        cases h
  · rintro (⟨rfl, hunbound⟩ | ⟨rfl, owner, b, hbinds, hmode⟩)
    · exact assignFrom_of_unbound hunbound v
    · exact hbinds.assignFrom_of_constant hmode v

/-- An assignment binds the name in the scope where it is found first, if it is mutable there. -/
theorem assignFrom_eq_ok_iff : e.assignFrom r x v = .ok e' ↔
    ∃ owner b, e.Binds r x owner b ∧ b.mode = .mutable ∧ e' = e.defineIn owner x v .mutable := by
  constructor
  · intro h
    rcases unbound_or_binds e r x with hunbound | ⟨owner, b, hbinds⟩
    · rw [assignFrom_of_unbound hunbound] at h
      cases h
    · cases hmode : b.mode with
      | constant =>
        rw [hbinds.assignFrom_of_constant hmode] at h
        cases h
      | mutable =>
        rw [hbinds.assignFrom_of_mutable hmode] at h
        cases h
        exact ⟨owner, b, hbinds, hmode, rfl⟩
  · rintro ⟨owner, b, hbinds, hmode, rfl⟩
    exact hbinds.assignFrom_of_mutable hmode v

/-- The value that `owner` binds to `x` is replaced by `v`. The binding keeps its mode and its
place, and everything else is as it was. -/
structure Replaced (e e' : Environment) (owner : Ref .scope) (x : String) (v : Value) : Prop where
  entries : (e'.bindings owner).entries =
    (e.bindings owner).entries.map fun n => if n.1 = x then (x, ⟨v, n.2.mode⟩) else n
  others {r : Ref .scope} : r ≠ owner → e'.bindings r = e.bindings r
  parent (r : Ref .scope) : e'.parent? r = e.parent? r
  size : e'.scopes.size = e.scopes.size
  rest : e' = { e with scopes := e'.scopes }

theorem replaced_defineIn (h : (e.bindings owner).get? x = some b) (hmode : b.mode = .mutable)
    (v : Value) : e.Replaced (e.defineIn owner x v .mutable) owner x v where
  entries := by
    rw [bindings_defineIn e (stored_of_bound h), if_pos rfl,
      OrderedMap.entries_insert_of_mem (OrderedMap.mem_keys h)]
    refine List.map_congr_left fun n hn => ?_
    split
    · next hx =>
      have hvalue := OrderedMap.get?_of_mem hn
      rw [hx, h] at hvalue
      cases hvalue
      rw [hmode]
    · rfl
  others hr := by rw [bindings_defineIn e (stored_of_bound h), if_neg hr]
  parent := parent?_defineIn e owner x v .mutable
  size := size_defineIn e owner x v .mutable
  rest := rfl

/-! ## Environments that stay nested -/

/-- Scopes are only added: those that there are stay where they are. -/
structure Continues (e e' : Environment) : Prop where
  size : e.scopes.size ≤ e'.scopes.size
  parent {r : Ref .scope} : r.index < e.scopes.size → e'.parent? r = e.parent? r

theorem Continues.refl (e : Environment) : e.Continues e := ⟨Nat.le_refl _, fun _ => rfl⟩

theorem Continues.trans {e'' : Environment} (h : e.Continues e') (h' : e'.Continues e'') :
    e.Continues e'' where
  size := Nat.le_trans h.size h'.size
  parent hr := (h'.parent (Nat.lt_of_lt_of_le hr h.size)).trans (h.parent hr)

theorem continues_defineIn (e : Environment) (r : Ref .scope) (x : String) (v : Value)
    (mode : Mode) : e.Continues (e.defineIn r x v mode) where
  size := Nat.le_of_eq (size_defineIn e r x v mode).symm
  parent _ := parent?_defineIn e r x v mode _

theorem continues_newScope (e : Environment) (parent : Option (Ref .scope)) :
    e.Continues (e.newScope parent).2 where
  size := by
    rw [size_newScope]
    exact Nat.le_succ _
  parent {r} hr := by
    rw [parent?_newScope, if_neg]
    rintro rfl
    exact Nat.lt_irrefl _ hr

theorem nested_new (limit : Nat) : (new limit).Nested where
  current := Nat.zero_lt_one
  globals := Nat.zero_lt_one
  top := rfl
  older {r p} hp := by
    obtain ⟨_ | _⟩ := r <;> cases hp

namespace Nested

theorem defineIn (h : e.Nested) (r : Ref .scope) (x : String) (v : Value) (mode : Mode) :
    (e.defineIn r x v mode).Nested where
  current := by
    rw [size_defineIn]
    exact h.current
  globals := by
    rw [size_defineIn]
    exact h.globals
  top := (parent?_defineIn e r x v mode _).trans h.top
  older hp := h.older ((parent?_defineIn e r x v mode _).symm.trans hp)

theorem newScope (h : e.Nested) {parent : Option (Ref .scope)}
    (hparent : ∀ p, parent = some p → p.index < e.scopes.size) : (e.newScope parent).2.Nested where
  current := Nat.lt_of_lt_of_le h.current (continues_newScope e parent).size
  globals := Nat.lt_of_lt_of_le h.globals (continues_newScope e parent).size
  top := ((continues_newScope e parent).parent h.globals).trans h.top
  older {r p} hp := by
    rw [parent?_newScope] at hp
    split at hp
    · next hr =>
      rw [hr]
      exact hparent p hp
    · exact h.older hp

theorem enter (h : e.Nested) (hr : r.index < e.scopes.size) : (e.enter r).Nested :=
  ⟨hr, h.globals, h.top, h.older⟩

theorem pop (h : e.Nested) : e.pop.Nested := by
  unfold Environment.pop
  split
  · exact h
  · split
    · next p hp => exact h.enter (Nat.lt_trans (h.older hp) h.current)
    · exact h

theorem clear (h : e.Nested) : e.clear.Nested where
  current := Nat.lt_of_lt_of_eq (Nat.lt_succ_self _) (size_newScope e none).symm
  globals := Nat.lt_of_lt_of_eq (Nat.lt_succ_self _) (size_newScope e none).symm
  top := (parent?_newScope e none _).trans (if_pos rfl)
  older hp := by
    have hnew : (e.newScope none).2.Nested := h.newScope nofun
    exact hnew.older hp

theorem installAll (h : e.Nested) (ps : List Primitive) :
    (ps.foldl install e).Nested ∧ e.Continues (ps.foldl install e) := by
  induction ps generalizing e with
  | nil => exact ⟨h, .refl e⟩
  | cons p ps ih =>
    have htaken : e.takeNumber.2.Nested := ⟨h.current, h.globals, h.top, h.older⟩
    have hrest := ih (htaken.defineIn e.globals p.name (.builtin ⟨p, e.numbered⟩) .mutable)
    have hbound :=
      continues_defineIn e.takeNumber.2 e.globals p.name (.builtin ⟨p, e.numbered⟩) .mutable
    have hcontinues : e.Continues (e.install p) := ⟨hbound.size, hbound.parent⟩
    exact ⟨hrest.1, hcontinues.trans hrest.2⟩

theorem stored_of_mem_chain (h : e.Nested) (hr : r.index < e.scopes.size)
    {rs : List (Ref .scope)} (hchain : e.IsChain r rs) : ∀ s ∈ rs, s.index < e.scopes.size := by
  induction hchain with
  | last => exact List.forall_mem_singleton.mpr hr
  | outward hp _ ih => exact List.forall_mem_cons.mpr ⟨hr, ih (Nat.lt_trans (h.older hp) hr)⟩

/-- What a scope lies in does not change. -/
theorem chain_eq (h : e.Nested) (h' : e'.Nested) (hcontinues : e.Continues e')
    (hr : r.index < e.scopes.size) : e'.chain r = e.chain r := by
  have hchain := h.isChain hr
  have hkept : e'.IsChain r (e.chain r) :=
    hchain.of_parents fun s hs => hcontinues.parent (h.stored_of_mem_chain hr hchain s hs)
  exact (h'.isChain (Nat.lt_of_lt_of_le hr hcontinues.size)).unique hkept

end Nested

/-- `r` is a new scope in `parent`, or in none. It binds nothing, and all others are as before. -/
structure Added (e e' : Environment) (parent : Option (Ref .scope)) (r : Ref .scope) : Prop where
  new : ¬ r.index < e.scopes.size
  empty : e'.bindings r = .empty
  chain : e'.chain r = r :: parent.elim [] e.chain
  others {s : Ref .scope} : s.index < e.scopes.size →
    e'.bindings s = e.bindings s ∧ e'.chain s = e.chain s

theorem Nested.added_newScope (h : e.Nested) {parent : Option (Ref .scope)}
    (hparent : ∀ p, parent = some p → p.index < e.scopes.size) :
    e.Added (e.newScope parent).2 parent (e.newScope parent).1 where
  new := Nat.lt_irrefl _
  empty := by
    rw [bindings_newScope]
    unfold bindings
    rw [show e.scopes.get? (e.newScope parent).1 = none from get?_next e]
    rfl
  chain := by
    have hnew := h.newScope hparent
    have hchain := hnew.isChain (r := (e.newScope parent).1)
      (Nat.lt_of_lt_of_eq (Nat.lt_succ_self _) (size_newScope e parent).symm)
    have hlies : (e.newScope parent).2.parent? (e.newScope parent).1 = parent :=
      (parent?_newScope e parent _).trans (if_pos rfl)
    refine hchain.unique ?_
    cases parent with
    | none => exact .last hlies
    | some p =>
      have hp := hparent p rfl
      rw [Option.elim_some, ← h.chain_eq hnew (continues_newScope e _) hp]
      exact .outward hlies (hnew.isChain (Nat.lt_of_lt_of_le hp (continues_newScope e _).size))
  others hs :=
    ⟨bindings_newScope e parent _, h.chain_eq (h.newScope hparent) (continues_newScope e parent) hs⟩

/-- The environment is a chain of ordered maps from each of its scopes outward: what is read and
written is what the first one of the chain has that has the name. -/
structure RefinesChains (e : Environment) : Prop where
  chain {r : Ref .scope} : r.index < e.scopes.size → e.IsChain r (e.chain r)
  depth {rs : List (Ref .scope)} : e.IsChain e.current rs → e.depth = rs.length
  found {r : Ref .scope} {x : String} {v : Value} :
    e.lookupFrom? r x = some v ↔ ∃ owner b, e.Binds r x owner b ∧ b.value = v
  missing {r : Ref .scope} {x : String} :
    e.lookupFrom? r x = none ↔ ∀ s ∈ e.chain r, (e.bindings s).get? x = none
  refused {r : Ref .scope} {x : String} {v : Value} {c : Cause} : e.assignFrom r x v = .error c ↔
    c = .undefinedVariable x ∧ (∀ s ∈ e.chain r, (e.bindings s).get? x = none) ∨
      c = .immutableBinding x ∧ ∃ owner b, e.Binds r x owner b ∧ b.mode = .constant
  assigned {r : Ref .scope} {x : String} {v : Value} {e' : Environment} :
    e.assignFrom r x v = .ok e' ↔
      ∃ owner b, e.Binds r x owner b ∧ b.mode = .mutable ∧ e' = e.defineIn owner x v .mutable
  replaced {r owner : Ref .scope} {x : String} {b : Binding} (v : Value) : e.Binds r x owner b →
    b.mode = .mutable → e.Replaced (e.defineIn owner x v .mutable) owner x v
  defined {r : Ref .scope} (x : String) (v : Value) (mode : Mode) : r.index < e.scopes.size →
    e.Defined (e.defineIn r x v mode) r x v mode
  added {parent : Option (Ref .scope)} : (∀ p, parent = some p → p.index < e.scopes.size) →
    e.Added (e.newScope parent).2 parent (e.newScope parent).1

theorem Nested.refinesChains (h : e.Nested) : e.RefinesChains where
  chain := h.isChain
  depth hchain := congrArg _ ((h.isChain h.current).unique hchain)
  found := lookupFrom?_eq_some_iff
  missing := lookupFrom?_eq_none_iff
  refused := assignFrom_eq_error_iff
  assigned := assignFrom_eq_ok_iff
  replaced v hbinds hmode := replaced_defineIn hbinds.bound hmode v
  defined x v mode hr := defined_defineIn hr x v mode
  added := h.added_newScope

end Environment

end Scriptlet
