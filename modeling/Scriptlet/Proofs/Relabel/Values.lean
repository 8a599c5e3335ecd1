import Mathlib.Data.List.Forall2
import Scriptlet.Proofs.Eval.Routines
import Scriptlet.Proofs.Layout.Values
import Scriptlet.Proofs.Value.Comparison
import Scriptlet.Proofs.Value.Contents
import Scriptlet.Machine

/-!
# Two runs whose things are labelled differently

Two runs may differ in what nothing in the language shows: which cells hold an array or a scope,
which number a program or a built-in function got, where in the text the code stands, and what was
logged before. A `Relabeling` says how the things of the first run are called in the second, and
`Relabeling.Relates` when a value of the second run stands for one of the first. Such values have
the same texts (`Heaps.render`) and compare alike (`Heaps.equal`).

The second run may have older cells, which the first has not. A reference to an instance that does
not exist is taken for one of the first class, so if there are older classes, an instance must
exist: `Relates n` is about values that refer to the first `n` instances only.
-/

namespace Scriptlet

/-! ## Maps, lists and stores -/

namespace OrderedMap

variable {α β : Type} {R : α → β → Prop}

/-- The maps have the same names in the same order, with related values. -/
def Matches (R : α → β → Prop) (m : OrderedMap α) (m' : OrderedMap β) : Prop :=
  List.Forall₂ (fun e e' => e'.1 = e.1 ∧ R e.2 e'.2) m.entries m'.entries

namespace Matches

variable {m : OrderedMap α} {m' : OrderedMap β}

theorem empty : Matches R OrderedMap.empty OrderedMap.empty := .nil

theorem mono {R' : α → β → Prop} (h : Matches R m m') (hR : ∀ a b, R a b → R' a b) :
    Matches R' m m' :=
  List.Forall₂.imp (fun _ _ he => ⟨he.1, hR _ _ he.2⟩) h

theorem keys (h : Matches R m m') : m'.keys = m.keys := by
  unfold Matches at h
  unfold OrderedMap.keys
  generalize m.entries = es at h
  generalize m'.entries = es' at h
  induction h with
  | nil => rfl
  | cons he _ ih => rw [List.map_cons, List.map_cons, he.1, ih]

theorem size (h : Matches R m m') : m'.size = m.size := (List.Forall₂.length_eq h).symm

theorem get? (h : Matches R m m') (x : String) : Option.Rel R (m.get? x) (m'.get? x) := by
  unfold Matches at h
  unfold OrderedMap.get?
  generalize m.entries = es at h
  generalize m'.entries = es' at h
  induction h with
  | nil => exact .none
  | @cons e e' _ _ he _ ih =>
    obtain ⟨key, a⟩ := e
    obtain ⟨key', a'⟩ := e'
    obtain ⟨rfl, ha⟩ := he
    rw [List.lookup_cons, List.lookup_cons]
    cases x == key' with
    | true => exact .some ha
    | false => exact ih

theorem insert (h : Matches R m m') (x : String) {a : α} {b : β} (hab : R a b) :
    Matches R (m.insert x a) (m'.insert x b) := by
  show List.Forall₂ _ (insertEntry x a m.entries) (insertEntry x b m'.entries)
  unfold Matches at h
  generalize m.entries = es at h
  generalize m'.entries = es' at h
  induction h with
  | nil => exact .cons ⟨rfl, hab⟩ .nil
  | @cons e e' _ _ he hes ih =>
    obtain ⟨key, c⟩ := e
    obtain ⟨key', c'⟩ := e'
    obtain ⟨rfl, hc⟩ := he
    unfold insertEntry
    split
    · exact .cons ⟨rfl, hab⟩ hes
    · exact .cons ⟨rfl, hc⟩ ih

theorem ofList {pairs : List (String × α)} {pairs' : List (String × β)}
    (h : List.Forall₂ (fun e e' => e'.1 = e.1 ∧ R e.2 e'.2) pairs pairs') :
    Matches R (OrderedMap.ofList pairs) (OrderedMap.ofList pairs') := by
  have from_map {m : OrderedMap α} {m' : OrderedMap β} (hm : Matches R m m') :
      Matches R (pairs.foldl (fun m p => m.insert p.1 p.2) m)
        (pairs'.foldl (fun m p => m.insert p.1 p.2) m') := by
    induction h generalizing m m' with
    | nil => exact hm
    | cons he _ ih =>
      rw [List.foldl_cons, List.foldl_cons, he.1]
      exact ih (hm.insert _ he.2)
  exact from_map empty

end Matches

end OrderedMap

section

variable {α β : Type} {R : α → β → Prop} {as : List α} {bs : List β}

theorem forall₂_getElem? (h : List.Forall₂ R as bs) (i : Nat) : Option.Rel R as[i]? bs[i]? := by
  induction h generalizing i with
  | nil => exact .none
  | cons hab _ ih =>
    cases i with
    | zero => exact .some hab
    | succ i => exact ih i

theorem forall₂_set (h : List.Forall₂ R as bs) (i : Nat) {a : α} {b : β} (hab : R a b) :
    List.Forall₂ R (as.set i a) (bs.set i b) := by
  induction h generalizing i with
  | nil => exact .nil
  | cons hcd htail ih =>
    cases i with
    | zero => exact .cons hab htail
    | succ i => exact .cons hcd (ih i)

theorem forall₂_concat (h : List.Forall₂ R as bs) {a : α} {b : β} (hab : R a b) :
    List.Forall₂ R (as ++ [a]) (bs ++ [b]) :=
  List.rel_append h (.cons hab .nil)

theorem map_eq_map_of_forall₂ {γ : Type} {f : α → γ} {g : β → γ} (h : List.Forall₂ R as bs)
    (hfg : ∀ a b, R a b → f a = g b) : as.map f = bs.map g := by
  rw [← List.forall₂_eq_eq_eq, List.forall₂_map_left_iff, List.forall₂_map_right_iff]
  exact h.imp hfg

theorem all_zip_eq_of_forall₂ {cs : List α} {ds : List β} {p : α × α → Bool} {q : β × β → Bool}
    (h : List.Forall₂ R as bs) (h' : List.Forall₂ R cs ds)
    (hpq : ∀ a b c d, R a b → R c d → p (a, c) = q (b, d)) :
    (as.zip cs).all p = (bs.zip ds).all q := by
  induction h generalizing cs ds with
  | nil => rfl
  | cons hab _ ih =>
    cases h' with
    | nil => rfl
    | cons hcd hrest =>
      rw [List.zip_cons_cons, List.zip_cons_cons, List.all_cons, List.all_cons, hpq _ _ _ _ hab hcd,
        ih hrest]

theorem all_eq_of_forall₂ {p : α → Bool} {q : β → Bool} (h : List.Forall₂ R as bs)
    (hpq : ∀ a b, R a b → p a = q b) : as.all p = bs.all q := by
  induction h with
  | nil => rfl
  | cons hab _ ih => rw [List.all_cons, List.all_cons, hpq _ _ hab, ih]

end

namespace Store

variable {s : CellSort} {α β : Type} {R : α → β → Prop}

/-- The second store has `older` cells more, and behind them what corresponds to the first. -/
structure Matches (older : Nat) (R : α → β → Prop) (st : Store s α) (st' : Store s β) : Prop where
  size : st'.size = older + st.size
  cell (i : Nat) : Option.Rel R (st.get? ⟨i⟩) (st'.get? ⟨older + i⟩)

namespace Matches

variable {older : Nat} {st : Store s α} {st' : Store s β}

theorem mono {R' : α → β → Prop} (h : Matches older R st st') (hR : ∀ a b, R a b → R' a b) :
    Matches older R' st st' where
  size := h.size
  cell i := option_rel_imp (h.cell i) hR

theorem alloc (h : Matches older R st st') {a : α} {b : β} (hab : R a b) :
    Matches older R (st.alloc a) (st'.alloc b) where
  size := by
    rw [size_alloc, size_alloc, h.size]
    rfl
  cell i := by
    have hnext : st'.next = ⟨older + st.size⟩ := congrArg Ref.mk h.size
    have hfirst : st.next = ⟨st.size⟩ := rfl
    rw [get?_alloc, get?_alloc, hnext, hfirst]
    by_cases hi : i = st.size
    · subst hi
      rw [if_pos rfl, if_pos rfl]
      exact .some hab
    · rw [if_neg (fun he => hi (Ref.mk.inj he)),
        if_neg (fun he => hi (Nat.add_left_cancel (Ref.mk.inj he)))]
      exact h.cell i

theorem modify (h : Matches older R st st') (r : Ref s) {f : α → α} {f' : β → β}
    (hf : ∀ a b, R a b → R (f a) (f' b)) :
    Matches older R (st.modify r f) (st'.modify ⟨older + r.index⟩ f') where
  size := by rw [size_modify, size_modify, h.size]
  cell i := by
    rw [get?_modify, get?_modify]
    by_cases hi : i = r.index
    · subst hi
      rw [if_pos rfl, if_pos rfl]
      exact option_rel_map (h.cell r.index) hf
    · rw [if_neg (fun he => hi (congrArg Ref.index he)),
        if_neg (fun he => hi (Nat.add_left_cancel (Ref.mk.inj he)))]
      exact h.cell i

end Matches

end Store

/-! ## Relabelings -/

/-- The events say the same but for positions, which are related. -/
inductive Event.Matches (P : Position → Position → Prop) : Event → Event → Prop
  | same {e : Event} : (∀ kind p, e ≠ .statement kind p) → Matches P e e
  | statement {kind : String} {p p' : Position} : P p p' →
    Matches P (.statement kind p) (.statement kind p')

/-- How the things of a first run are called in a second one. -/
structure Relabeling where
  /-- The settings of both runs. -/
  settings : Settings
  /-- How many calls may be in progress in them. -/
  limit : Nat
  /-- How many cells of a sort the second run has that the first has not. They come first. -/
  older : CellSort → Nat
  /-- The number of the program with the number `n`. -/
  number (n : Nat) : Nat
  /-- Where in the text of the program with the number `n` a position is. -/
  place (n : Nat) : Position → Position
  /-- The number of a built-in function. -/
  ident : Nat → Nat
  /-- The expressions and statements of the program with the number `n`. -/
  node (n : Nat) : Node → Prop
  /-- The routines of the program with the number `n`. -/
  routine (n : Nat) : Routine → Prop
  /-- The values that functions may be bound to. -/
  bindable : Value → Prop
  /-- The logs that may be there. -/
  logs : Array Event → Array Event → Prop
  /-- How many programs and built-in functions may have been numbered. -/
  numbered : Nat → Nat → Prop
  made {n : Nat} {x : Node} : node n x → ∀ r ∈ x.routines, routine n r
  body {n : Nat} {r : Routine} : routine n r → ∀ x ∈ stmtsNodes r.body, node n x
  /-- The evaluator binds methods to instances. -/
  bindable_inst (r : Ref .inst) : bindable (.inst r)
  ident_injective : Function.Injective ident
  /-- Routines that are not the same stay apart. -/
  apart {n n' : Nat} {r r' : Routine} : routine n r → routine n' r' → number n = number n' →
    place n r.position = place n' r'.position → n = n' ∧ r.position = r'.position
  logged {es es' : Array Event} {e e' : Event} : logs es es' →
    e.Matches (fun p p' => ∃ n x, node n x ∧ x.position = p ∧ p' = place n p) e' →
    logs (es.push e) (es'.push e')

namespace Relabeling

variable (κ : Relabeling)

/-- The cell in the second run. -/
def ref {s : CellSort} (r : Ref s) : Ref s := ⟨κ.older s + r.index⟩

theorem ref_injective {s : CellSort} : Function.Injective (κ.ref (s := s)) := by
  rintro ⟨i⟩ ⟨j⟩ h
  exact congrArg Ref.mk (Nat.add_left_cancel (Ref.mk.inj h))

/-- The second function stands for the first, but for the value that it is bound to. -/
structure Code (f f' : Function) : Prop where
  allowed : κ.routine f.program f.routine
  bindable (v : Value) : f.receiver = some v → κ.bindable v
  program : f'.program = κ.number f.program
  routine : f'.routine = move (κ.place f.program) f.routine
  scope : f'.scope = κ.ref f.scope
  mark : f'.mark = f.mark

theorem Code.name {f f' : Function} (h : κ.Code f f') : f'.routine.name = f.routine.name := by
  rw [h.routine]
  exact f.routine.name_move _

/-- The instance is one of the first `n`, or it does not matter whether it is. -/
def Exists (n : Nat) (r : Ref .inst) : Prop := κ.older .klass = 0 ∨ r.index < n

/-- The second value stands for the first, which refers to no instances but the first `n`. -/
inductive Relates (n : Nat) : Value → Value → Prop
  | undefined : Relates n .undefined .undefined
  | null : Relates n .null .null
  | boolean (b : Bool) : Relates n (.boolean b) (.boolean b)
  | integer (i : Int64) : Relates n (.integer i) (.integer i)
  | float (x : Float) : Relates n (.float x) (.float x)
  | string (s : String) : Relates n (.string s) (.string s)
  | array (r : Ref .array) : Relates n (.array r) (.array (κ.ref r))
  | object (r : Ref .object) : Relates n (.object r) (.object (κ.ref r))
  | inst {r : Ref .inst} : κ.Exists n r → Relates n (.inst r) (.inst (κ.ref r))
  | unbound {f f' : Function} : κ.Code f f' → f.receiver = none → f'.receiver = none →
    Relates n (.function f) (.function f')
  | bound {f f' : Function} {v v' : Value} : κ.Code f f' → f.receiver = some v →
    f'.receiver = some v' → Relates n v v' → Relates n (.function f) (.function f')
  | builtin (p : Primitive) (i : Nat) :
    Relates n (.builtin ⟨p, i⟩) (.builtin ⟨p, κ.ident i⟩)
  | klass (r : Ref .klass) : Relates n (.klass r) (.klass (κ.ref r))

variable {κ} {n n' : Nat} {v v' w w' : Value}

theorem Exists.mono {r : Ref .inst} (h : κ.Exists n r) (hn : n ≤ n') : κ.Exists n' r :=
  h.imp_right fun hr => Nat.lt_of_lt_of_le hr hn

namespace Relates

theorem mono (h : κ.Relates n v v') (hn : n ≤ n') : κ.Relates n' v v' := by
  induction h with
  | undefined => exact .undefined
  | null => exact .null
  | boolean b => exact .boolean b
  | integer i => exact .integer i
  | float x => exact .float x
  | string s => exact .string s
  | array r => exact .array r
  | object r => exact .object r
  | inst hr => exact .inst (hr.mono hn)
  | unbound hcode hf hf' => exact .unbound hcode hf hf'
  | bound hcode hf hf' _ ih => exact .bound hcode hf hf' ih
  | builtin p i => exact .builtin p i
  | klass r => exact .klass r

theorem typeName (h : κ.Relates n v v') : v'.typeName = v.typeName := by cases h <;> rfl

theorem truthy (h : κ.Relates n v v') : v'.truthy = v.truthy := by cases h <;> rfl

theorem function {f f' : Function} (hcode : κ.Code f f')
    (hreceiver : Option.Rel (κ.Relates n) f.receiver f'.receiver) :
    κ.Relates n (.function f) (.function f') := by
  obtain ⟨hf, hf'⟩ | ⟨v, v', hf, hf', hv⟩ := option_rel_cases hreceiver
  · exact .unbound hcode hf hf'
  · exact .bound hcode hf hf' hv

/-- What stands for a function is a function. -/
theorem of_function {f : Function} (h : κ.Relates n (.function f) w) : ∃ f', w = .function f' ∧
    κ.Code f f' ∧ Option.Rel (κ.Relates n) f.receiver f'.receiver := by
  cases h with
  | unbound hcode hf hf' =>
    refine ⟨_, rfl, hcode, ?_⟩
    rw [hf, hf']
    exact .none
  | bound hcode hf hf' hv =>
    refine ⟨_, rfl, hcode, ?_⟩
    rw [hf, hf']
    exact .some hv

/-- A value that is no function stands for one that is none. -/
theorem ne_function (h : κ.Relates n v v') (hv : ∀ f, v ≠ .function f) (f : Function) :
    v' ≠ .function f := by
  rintro rfl
  cases h <;> exact hv _ rfl

end Relates

/-! ## Heaps -/

/-- An instance in the second run. -/
structure Instances (κ : Relabeling) (n : Nat) (i i' : Instance) : Prop where
  klass : i'.klass = κ.ref i.klass
  fields : i.fields.Matches (κ.Relates n) i'.fields

/-- A class in the second run. -/
structure Classes (κ : Relabeling) (c c' : Class) : Prop where
  name : c'.name = c.name
  methods : c.methods.Matches (fun r r' => κ.routine c.program r ∧
    r' = move (κ.place c.program) r ∧ c'.program = κ.number c.program) c'.methods
  scope : c'.scope = κ.ref c.scope

/-- The heaps hold the same, but for older cells. -/
structure Heaps (κ : Relabeling) (n : Nat) (h h' : Heap) : Prop where
  arrays : h.arrays.Matches (κ.older .array)
    (fun items items' => List.Forall₂ (κ.Relates n) items.toList items'.toList) h'.arrays
  objects : h.objects.Matches (κ.older .object) (OrderedMap.Matches (κ.Relates n)) h'.objects
  instances : h.instances.Matches (κ.older .inst) (κ.Instances n) h'.instances
  classes : h.classes.Matches (κ.older .klass) κ.Classes h'.classes

namespace Heaps

variable {h h' : Heap}

theorem mono (hh : κ.Heaps n h h') (hn : n ≤ n') : κ.Heaps n' h h' where
  arrays := hh.arrays.mono fun _ _ hitems => hitems.imp fun _ _ hv => hv.mono hn
  objects := hh.objects.mono fun _ _ hm => hm.mono fun _ _ hv => hv.mono hn
  instances := hh.instances.mono fun _ _ hi => ⟨hi.klass, hi.fields.mono fun _ _ hv => hv.mono hn⟩
  classes := hh.classes

theorem items (hh : κ.Heaps n h h') (r : Ref .array) :
    List.Forall₂ (κ.Relates n) (h.items r).toList (h'.items (κ.ref r)).toList :=
  option_rel_getD (R := fun items items' : Array Value =>
    List.Forall₂ (κ.Relates n) items.toList items'.toList) (hh.arrays.cell r.index) .nil

theorem size_items (hh : κ.Heaps n h h') (r : Ref .array) :
    (h'.items (κ.ref r)).size = (h.items r).size := (hh.items r).length_eq.symm

theorem entries (hh : κ.Heaps n h h') (r : Ref .object) :
    (h.entries r).Matches (κ.Relates n) (h'.entries (κ.ref r)) :=
  option_rel_getD (hh.objects.cell r.index) .empty

theorem fields (hh : κ.Heaps n h h') (r : Ref .inst) :
    (h.inst r).fields.Matches (κ.Relates n) (h'.inst (κ.ref r)).fields :=
  option_rel_getD (R := fun i i' : Instance => i.fields.Matches (κ.Relates n) i'.fields)
    (option_rel_imp (hh.instances.cell r.index) fun _ _ hi => hi.fields) .empty

/-- The class that an existing instance is of. -/
theorem ownClass (hh : κ.Heaps n h h') (hn : n ≤ h.instances.size) {r : Ref .inst}
    (hr : κ.Exists n r) : (h'.inst (κ.ref r)).klass = κ.ref (h.inst r).klass := by
  have hcell := hh.instances.cell r.index
  have hcell' : Option.Rel (κ.Instances n) (h.instances.get? r) (h'.instances.get? (κ.ref r)) :=
    hcell
  unfold Heap.inst
  cases hi : h.instances.get? r with
  | some i =>
    rw [hi] at hcell'
    cases hi' : h'.instances.get? (κ.ref r) with
    | none =>
      rw [hi'] at hcell'
      cases hcell'
    | some i' =>
      rw [hi'] at hcell'
      cases hcell' with
      | some hrel => exact hrel.klass
  | none =>
    -- The instance does not exist, so there are no older classes.
    have hold : κ.older .klass = 0 := by
      refine hr.resolve_right fun hlt => ?_
      have hmissing := Array.getElem?_eq_none_iff.mp hi
      exact Nat.not_le.mpr (Nat.lt_of_lt_of_le hlt hn) hmissing
    rw [hi] at hcell'
    cases hi' : h'.instances.get? (κ.ref r) with
    | none =>
      show (⟨0⟩ : Ref .klass) = ⟨κ.older .klass + 0⟩
      rw [hold]
    | some i' =>
      rw [hi'] at hcell'
      cases hcell'

/-- What is known of a class, which perhaps does not exist. -/
theorem klass (hh : κ.Heaps n h h') (r : Ref .klass) :
    (h'.klass (κ.ref r)).name = (h.klass r).name ∧ ∀ x,
      Option.Rel (fun m m' => κ.routine (h.klass r).program m ∧
        m' = move (κ.place (h.klass r).program) m ∧
        (h'.klass (κ.ref r)).program = κ.number (h.klass r).program ∧
        (h'.klass (κ.ref r)).scope = κ.ref (h.klass r).scope)
        ((h.klass r).methods.get? x) ((h'.klass (κ.ref r)).methods.get? x) := by
  have hcell : Option.Rel κ.Classes (h.classes.get? r) (h'.classes.get? (κ.ref r)) :=
    hh.classes.cell r.index
  unfold Heap.klass
  generalize h.classes.get? r = c at hcell
  generalize h'.classes.get? (κ.ref r) = c' at hcell
  cases hcell with
  | none => exact ⟨rfl, fun _ => .none⟩
  | @some c c' hc =>
    refine ⟨hc.name, fun x => ?_⟩
    have hmethod := hc.methods.get? x
    show Option.Rel _ (c.methods.get? x) (c'.methods.get? x)
    generalize c.methods.get? x = m at hmethod
    generalize c'.methods.get? x = m' at hmethod
    cases hmethod with
    | none => exact .none
    | some hm => exact .some ⟨hm.1, hm.2.1, hm.2.2, hc.scope⟩

theorem method? (hh : κ.Heaps n h h') (r : Ref .klass) (x : String) (hv : κ.Relates n v v')
    (hbindable : κ.bindable v) :
    Option.Rel (fun f f' => κ.Relates n (.function f) (.function f'))
      ((h.klass r).method? x v) ((h'.klass (κ.ref r)).method? x v') := by
  have hmethod := (hh.klass r).2 x
  unfold Class.method?
  generalize (h.klass r).methods.get? x = m at hmethod
  generalize (h'.klass (κ.ref r)).methods.get? x = m' at hmethod
  cases hmethod with
  | none => exact .none
  | @some m m' hm =>
    obtain ⟨hroutine, hmoved, hprogram, hscope⟩ := hm
    have hcode : κ.Code ⟨(h.klass r).program, m, (h.klass r).scope, some v, 0⟩
        ⟨(h'.klass (κ.ref r)).program, m', (h'.klass (κ.ref r)).scope, some v', 0⟩ :=
      { allowed := hroutine
        bindable := fun _ hw => Option.some.inj hw ▸ hbindable
        program := hprogram
        routine := hmoved
        scope := hscope
        mark := rfl }
    exact .some (.function hcode (.some hv))

theorem ownerName (hh : κ.Heaps n h h') (hn : n ≤ h.instances.size) (hv : κ.Relates n v v') :
    h'.ownerName v' = h.ownerName v := by
  cases hv with
  | @inst r hr =>
    show (h'.klass (h'.inst (κ.ref r)).klass).name = (h.klass (h.inst r).klass).name
    rw [hh.ownClass hn hr]
    exact (hh.klass _).1
  | _ => rfl

/-! ### Texts -/

theorem render (hh : κ.Heaps n h h') (hn : n ≤ h.instances.size) (levels : Nat)
    (hv : κ.Relates n v v') : h'.render levels v' = h.render levels v := by
  -- The texts of these values are the same at all levels.
  have inst_text (k : Nat) {r : Ref .inst} (hr : κ.Exists n r) :
      h'.render k (.inst (κ.ref r)) = h.render k (.inst r) := by
    have hname := hh.ownerName hn (.inst hr)
    cases k <;> exact congrArg (fun name => "<" ++ name ++ " instance>") hname
  have function_text (k : Nat) {f f' : Function} (hcode : κ.Code f f') :
      h'.render k (.function f') = h.render k (.function f) := by
    have hname := hcode.name
    cases k <;> exact congrArg (fun name => "<function " ++ name ++ ">") hname
  have class_text (k : Nat) (r : Ref .klass) :
      h'.render k (.klass (κ.ref r)) = h.render k (.klass r) := by
    cases k <;> exact congrArg (fun name => "<class " ++ name ++ ">") (hh.klass r).1
  induction levels generalizing v v' with
  | zero =>
    cases hv with
    | inst hr => exact inst_text 0 hr
    | unbound hcode _ _ | bound hcode _ _ _ => exact function_text 0 hcode
    | klass r => exact class_text 0 r
    | _ => rfl
  | succ k ih =>
    cases hv with
    | inst hr => exact inst_text (k + 1) hr
    | unbound hcode _ _ | bound hcode _ _ _ => exact function_text (k + 1) hcode
    | klass r => exact class_text (k + 1) r
    | array r =>
      exact congrArg (fun texts => "[" ++ String.intercalate ", " texts ++ "]")
        (map_eq_map_of_forall₂ (hh.items r) fun _ _ hv => (ih hv).symm).symm
    | object r =>
      have hentries := hh.entries r
      unfold OrderedMap.Matches at hentries
      unfold Heap.render
      generalize (h.entries r).entries = es at hentries
      generalize (h'.entries (κ.ref r)).entries = es' at hentries
      cases hentries with
      | nil => rfl
      | cons he hes =>
        refine congrArg (fun texts => "\x7b " ++ String.intercalate ", " texts ++ " \x7d") ?_
        rw [List.map_cons, List.map_cons, he.1, ih he.2]
        refine congrArg (_ :: ·) (map_eq_map_of_forall₂ hes fun e e' he => ?_).symm
        rw [he.1, ih he.2]
    | _ => rfl

theorem inspect (hh : κ.Heaps n h h') (hn : n ≤ h.instances.size) (hv : κ.Relates n v v') :
    h'.inspect v' = h.inspect v := hh.render hn displayLevels hv

theorem display (hh : κ.Heaps n h h') (hn : n ≤ h.instances.size) (hv : κ.Relates n v v') :
    h'.display v' = h.display v := by
  cases hv with
  | string s => rfl
  | unbound hcode hf hf' => exact hh.inspect hn (.unbound hcode hf hf')
  | bound hcode hf hf' hv => exact hh.inspect hn (.bound hcode hf hf' hv)
  | _ => exact hh.inspect hn (by constructor <;> assumption)

/-! ### Unfoldings -/

theorem label (hh : κ.Heaps n h h') (hn : n ≤ h.instances.size) (hv : κ.Relates n v v') :
    h'.label v' = h.label v := by
  cases hv with
  | array r => exact congrArg Label.array (hh.size_items r)
  | object r => exact congrArg Label.object (hh.entries r).keys
  | inst hr => exact congrArg Label.inst (hh.ownerName hn (.inst hr))
  | unbound hcode _ _ | bound hcode _ _ _ => exact congrArg Label.function hcode.name
  | klass r => exact congrArg Label.klass (hh.klass r).1
  | _ => rfl

theorem parts (hh : κ.Heaps n h h') (hv : κ.Relates n v v') :
    List.Forall₂ (κ.Relates n) (h.parts v) (h'.parts v') := by
  cases hv with
  | array r => exact hh.items r
  | object r =>
    exact List.forall₂_map_left_iff.mpr (List.forall₂_map_right_iff.mpr
      ((hh.entries r).imp fun _ _ he => he.2))
  | _ => exact .nil

theorem reached? (hh : κ.Heaps n h h') (path : List Nat) (hv : κ.Relates n v v') :
    Option.Rel (κ.Relates n) (h.reached? path v) (h'.reached? path v') := by
  induction path generalizing v v' with
  | nil => exact .some hv
  | cons i path ih =>
    unfold Heap.reached?
    obtain ⟨hw, hw'⟩ | ⟨w, w', hw, hw', hrel⟩ :=
      option_rel_cases (forall₂_getElem? (hh.parts hv) i)
    · rw [hw, hw']
      exact .none
    · rw [hw, hw']
      exact ih hrel

theorem sight (hh : κ.Heaps n h h') (hn : n ≤ h.instances.size) (hv : κ.Relates n v v') :
    h'.sight v' = h.sight v := by
  have hunfolding : h'.unfolding v' = h.unfolding v := by
    funext path
    unfold Heap.unfolding
    obtain ⟨hw, hw'⟩ | ⟨w, w', hw, hw', hrel⟩ := option_rel_cases (hh.reached? path hv)
    · rw [hw, hw']
      rfl
    · rw [hw, hw']
      exact congrArg some (hh.label hn hrel)
  unfold Heap.sight
  rw [hh.label hn hv, hunfolding, hh.inspect hn hv, hh.display hn hv]

theorem yielded (hh : κ.Heaps n h h') {args args' : List Value}
    (ha : List.Forall₂ (κ.Relates n) args args') (y : Yield) :
    κ.Relates n (h.yielded args y) (h'.yielded args' y) := by
  cases y with
  | datum d => cases d <;> constructor
  | part i path =>
    show κ.Relates n ((args[i]?.bind (h.reached? path)).getD .undefined)
      ((args'[i]?.bind (h'.reached? path)).getD .undefined)
    obtain ⟨hv, hv'⟩ | ⟨v, v', hv, hv', hrel⟩ := option_rel_cases (forall₂_getElem? ha i)
    · rw [hv, hv']
      exact .undefined
    · rw [hv, hv']
      exact option_rel_getD (hh.reached? path hrel) .undefined

/-! ### Comparisons -/

/-- A pair of cells in the second run. -/
def pair (κ : Relabeling) : CellPair → CellPair
  | .arrays l r => .arrays (κ.ref l) (κ.ref r)
  | .objects l r => .objects (κ.ref l) (κ.ref r)

theorem pair_injective : Function.Injective (pair κ) := by
  intro a b h
  cases a with
  | arrays l r =>
    cases b with
    | arrays l' r' =>
      obtain ⟨hl, hr⟩ := CellPair.arrays.inj h
      rw [κ.ref_injective hl, κ.ref_injective hr]
    | objects l' r' => cases h
  | objects l r =>
    cases b with
    | arrays l' r' => cases h
    | objects l' r' =>
      obtain ⟨hl, hr⟩ := CellPair.objects.inj h
      rw [κ.ref_injective hl, κ.ref_injective hr]

theorem contains_pair (path : List CellPair) (p : CellPair) :
    (path.map (pair κ)).contains (pair κ p) = path.contains p := by
  rw [Bool.eq_iff_iff, List.contains_iff_mem, List.contains_iff_mem,
    List.mem_map_of_injective pair_injective]

theorem decide_ref {s : CellSort} (a b : Ref s) : decide (κ.ref a = κ.ref b) = decide (a = b) :=
  decide_eq_decide.mpr κ.ref_injective.eq_iff

theorem alike {f f' g g' : Function} (hf : κ.Code f f') (hg : κ.Code g g') :
    f'.alike g' = f.alike g := by
  have hcode : (decide (κ.number f.program = κ.number g.program) &&
      decide (κ.place f.program f.routine.position = κ.place g.program g.routine.position)) =
      (decide (f.program = g.program) && decide (f.routine.position = g.routine.position)) := by
    rw [← Bool.decide_and, ← Bool.decide_and, decide_eq_decide]
    refine ⟨fun h => κ.apart hf.allowed hg.allowed h.1 h.2, fun h => ?_⟩
    rw [h.1, h.2]
    exact ⟨rfl, rfl⟩
  unfold Function.alike
  rw [hf.program, hg.program, hf.routine, hg.routine, hf.scope, hg.scope, decide_ref,
    Routine.position_move, Routine.position_move, hcode]

theorem boundAs {f f' g g' : Function} {test test' : Value → Value → Bool}
    (hf : Option.Rel (fun v v' => ∀ {w w'}, κ.Relates n w w' → test' v' w' = test v w)
      f.receiver f'.receiver)
    (hg : Option.Rel (κ.Relates n) g.receiver g'.receiver) :
    f'.boundAs g' test' = f.boundAs g test := by
  unfold Function.boundAs
  obtain ⟨hv, hv'⟩ | ⟨v, v', hv, hv', htest⟩ := option_rel_cases hf <;>
    obtain ⟨hw, hw'⟩ | ⟨w, w', hw, hw', hrel⟩ := option_rel_cases hg <;> rw [hv, hv', hw, hw']
  exact htest hrel

theorem identical (hv : κ.Relates n v v') (hw : κ.Relates n w w') :
    v'.identical w' = v.identical w := by
  have functions {f f' : Function} {u u' : Value} (hcode : κ.Code f f')
      (hbound : Option.Rel (fun v v' => ∀ {w w'}, κ.Relates n w w' →
        v'.identical w' = v.identical w) f.receiver f'.receiver) (hu : κ.Relates n u u') :
      (Value.function f').identical u' = (Value.function f).identical u := by
    by_cases hfunction : ∃ g, u = .function g
    · obtain ⟨g, rfl⟩ := hfunction
      obtain ⟨g', rfl, hcode', hreceiver⟩ := hu.of_function
      rw [Value.identical_function, Value.identical_function, alike hcode hcode', hcode.mark,
        hcode'.mark, boundAs hbound hreceiver]
    · have hother : ∀ g, u ≠ .function g := fun g hg => hfunction ⟨g, hg⟩
      rw [Value.identical_function_other f hother,
        Value.identical_function_other f' (hu.ne_function hother)]
  induction hv generalizing w w' with
  | unbound hcode hf hf' => exact functions hcode (by rw [hf, hf']; exact .none) hw
  | bound hcode hf hf' _ ih => exact functions hcode (by rw [hf, hf']; exact .some ih) hw
  | array | object | klass => cases hw <;> first | rfl | exact decide_ref _ _
  | inst => cases hw <;> first | rfl | exact decide_ref _ _
  | builtin => cases hw <;> first | rfl | exact decide_eq_decide.mpr κ.ident_injective.eq_iff
  | _ => cases hw <;> rfl

theorem equalBy (hh : κ.Heaps n h h') {inner inner' : List CellPair → Value → Value → Bool}
    (hinner : ∀ (path : List CellPair) {v v' w w' : Value}, κ.Relates n v v' → κ.Relates n w w' →
      inner' (path.map (pair κ)) v' w' = inner path v w)
    (path : List CellPair) (hv : κ.Relates n v v') (hw : κ.Relates n w w') :
    h'.equalBy inner' (path.map (pair κ)) v' w' = h.equalBy inner path v w := by
  have functions {f f' : Function} {u u' : Value} (hf : κ.Relates n (.function f) (.function f'))
      (hbound : Option.Rel (fun v v' => ∀ {w w'}, κ.Relates n w w' →
        h'.equalBy inner' (path.map (pair κ)) v' w' = h.equalBy inner path v w)
        f.receiver f'.receiver) (hu : κ.Relates n u u') :
      h'.equalBy inner' (path.map (pair κ)) (.function f') u' =
        h.equalBy inner path (.function f) u := by
    by_cases hfunction : ∃ g, u = .function g
    · obtain ⟨g, rfl⟩ := hfunction
      obtain ⟨_, heq, hcode, -⟩ := hf.of_function
      cases heq
      obtain ⟨g', rfl, hcode', hreceiver⟩ := hu.of_function
      rw [Heap.equalBy_function, Heap.equalBy_function, identical hf hu, alike hcode hcode',
        boundAs hbound hreceiver]
    · have hother : ∀ g, u ≠ .function g := fun g hg => hfunction ⟨g, hg⟩
      rw [h.equalBy_function_other inner path f hother,
        h'.equalBy_function_other inner' _ f' (hu.ne_function hother)]
  induction hv generalizing w w' with
  | unbound hcode hf hf' =>
    exact functions (.unbound hcode hf hf') (by rw [hf, hf']; exact .none) hw
  | bound hcode hf hf' hrel ih =>
    exact functions (.bound hcode hf hf' hrel) (by rw [hf, hf']; exact .some ih) hw
  | array a =>
    cases hw with
    | array b =>
      have hall : ((h.items a).toList.zip (h.items b).toList).all
            (fun p => inner (.arrays a b :: path) p.1 p.2) =
          ((h'.items (κ.ref a)).toList.zip (h'.items (κ.ref b)).toList).all fun p =>
            inner' (pair κ (.arrays a b) :: path.map (pair κ)) p.1 p.2 :=
        all_zip_eq_of_forall₂ (hh.items a) (hh.items b) fun _ _ _ _ hv hw =>
          (hinner (.arrays a b :: path) hv hw).symm
      have hmet : (decide (κ.ref a = κ.ref b) ||
            (path.map (pair κ)).contains (.arrays (κ.ref a) (κ.ref b))) =
          (decide (a = b) || path.contains (.arrays a b)) :=
        congrArg₂ _ (decide_ref a b) (contains_pair path (.arrays a b))
      unfold Heap.equalBy
      dsimp only
      rw [hmet, hall, hh.size_items, hh.size_items]
      rfl
    | _ => rfl
  | object a =>
    cases hw with
    | object b =>
      have hmet : (decide (κ.ref a = κ.ref b) ||
            (path.map (pair κ)).contains (.objects (κ.ref a) (κ.ref b))) =
          (decide (a = b) || path.contains (.objects a b)) :=
        congrArg₂ _ (decide_ref a b) (contains_pair path (.objects a b))
      unfold Heap.equalBy
      dsimp only
      rw [hmet, (hh.entries a).size, (hh.entries b).size]
      split
      · rfl
      · refine congrArg (decide _ && ·) (all_eq_of_forall₂ (hh.entries a) fun e e' he => ?_).symm
        have hfound := (hh.entries b).get? e.1
        rw [he.1]
        generalize (h.entries b).get? e.1 = y at hfound
        generalize (h'.entries (κ.ref b)).get? e.1 = y' at hfound
        cases hfound with
        | none => rfl
        | some hy => exact (hinner (.objects a b :: path) he.2 hy).symm
    | _ => rfl
  | inst | klass => cases hw <;> first | rfl | exact decide_ref _ _
  | builtin => cases hw <;> first | rfl | exact decide_eq_decide.mpr κ.ident_injective.eq_iff
  | _ => cases hw <;> rfl

theorem equalAlong (hh : κ.Heaps n h h') (fuel : Nat) (path : List CellPair)
    (hv : κ.Relates n v v') (hw : κ.Relates n w w') :
    h'.equalAlong fuel (path.map (pair κ)) v' w' = h.equalAlong fuel path v w := by
  induction fuel generalizing path v v' w w' with
  | zero => rfl
  | succ fuel ih => exact hh.equalBy (fun path => ih path) path hv hw

theorem equal (hh : κ.Heaps n h h') (hv : κ.Relates n v v') (hw : κ.Relates n w w') :
    h'.equal v' w' = h.equal v w := by
  have hbound : h.pairBound ≤ h'.pairBound := by
    have harrays : h.arrays.size ≤ h'.arrays.size := by
      rw [hh.arrays.size]
      exact Nat.le_add_left _ _
    have hobjects : h.objects.size ≤ h'.objects.size := by
      rw [hh.objects.size]
      exact Nat.le_add_left _ _
    unfold Heap.pairBound
    exact Nat.succ_le_succ
      (Nat.add_le_add (Nat.mul_le_mul harrays harrays) (Nat.mul_le_mul hobjects hobjects))
  rw [← h.equalAlong_of_le hbound]
  exact hh.equalAlong _ [] hv hw

end Heaps

end Relabeling

end Scriptlet
