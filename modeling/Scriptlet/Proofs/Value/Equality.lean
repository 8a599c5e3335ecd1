import Mathlib
import Scriptlet.Operator
import Scriptlet.Proofs.Value.Comparison
import Scriptlet.Proofs.Value.Contents

/-!
# Equality is bisimilarity

A relation between values is a bisimulation if values that it relates are the same, or have one
shape and what they hold is related by it again (`Heap.Corresponds`). Two values are equal exactly
if some bisimulation relates them (`equal_iff_bisimilar`). In one direction, a comparison of related
values meets related values only. In the other, values that are equal agree to every depth
(`Heap.AgreesTo`): a comparison takes a pair of cells for equal while the pair is on its path, and
to a given depth that is justified, since the pair was met at least one level above.

Agreement to a depth is symmetric, and transitive where there are no floating point numbers;
so equality is as well (`Heap.equal_comm`, `Heap.equivalence_equal`). Functions may be bound to any
value, and are equal if what they are bound to is; so a floating point number counts there, too
(`not_trans_of_bound`).
-/

namespace Scriptlet

/-- The two functions come from one declaration: from the program that was run under one number, and
from one place in its text. There stands one declaration at most
(`Program.HasRoutine.eq_of_position`). -/
def Function.SameDeclaration (f g : Function) : Prop :=
  f.program = g.program ∧ f.routine.position = g.routine.position

/-- The two values that are being compared. -/
def CellPair.values : CellPair → Value × Value
  | .arrays l r => (.array l, .array r)
  | .objects l r => (.object l, .object r)

/-- The two values are equal whatever any cell holds: they are one value, or stand for one number. -/
inductive Value.Same : Value → Value → Prop
  | undefined : Same .undefined .undefined
  | null : Same .null .null
  | boolean (b : Bool) : Same (.boolean b) (.boolean b)
  | integer (n : Int64) : Same (.integer n) (.integer n)
  | float {x y : Float} : x == y → Same (.float x) (.float y)
  | integerFloat {n : Int64} {x : Float} : n.toFloat == x → Same (.integer n) (.float x)
  | floatInteger {x : Float} {n : Int64} : x == n.toFloat → Same (.float x) (.integer n)
  | string (s : String) : Same (.string s) (.string s)
  | array (r : Ref .array) : Same (.array r) (.array r)
  | object (r : Ref .object) : Same (.object r) (.object r)
  | inst (r : Ref .inst) : Same (.inst r) (.inst r)
  | klass (r : Ref .klass) : Same (.klass r) (.klass r)
  | builtin {a b : Builtin} : a.ident = b.ident → Same (.builtin a) (.builtin b)
  | function {f g : Function} : (Value.function f).identical (.function g) = true →
    Same (.function f) (.function g)

/-! ## Identity -/

theorem Function.boundAs_iff {f g : Function} {test : Value → Value → Bool} :
    f.boundAs g test = true ↔ Option.Rel (fun x y => test x y = true) f.receiver g.receiver := by
  unfold boundAs
  cases f.receiver with
  | none =>
    cases g.receiver with
    | none => exact iff_of_true rfl .none
    | some y => exact iff_of_false Bool.false_ne_true nofun
  | some x =>
    cases g.receiver with
    | none => exact iff_of_false Bool.false_ne_true nofun
    | some y => exact ⟨fun h => .some h, fun h => by cases h; assumption⟩

theorem Function.alike_iff {f g : Function} :
    f.alike g = true ↔ f.SameDeclaration g ∧ f.scope = g.scope := by
  unfold alike SameDeclaration
  simp only [Bool.and_eq_true, decide_eq_true_eq]

namespace Value

theorem identical_functions_iff {f g : Function} :
    (function f).identical (.function g) = true ↔ f.alike g = true ∧ f.mark = g.mark ∧
      Option.Rel (fun x y => x.identical y = true) f.receiver g.receiver := by
  rw [identical_function, Bool.and_eq_true, Bool.and_eq_true, decide_eq_true_eq,
    Function.boundAs_iff, and_assoc]

theorem identical_refl (v : Value) : v.identical v = true := by
  induction v using inductionOnReceiver with
  | function f ih =>
    refine identical_functions_iff.mpr ⟨Function.alike_iff.mpr ⟨⟨rfl, rfl⟩, rfl⟩, rfl, ?_⟩
    cases hf : f.receiver with
    | none => exact .none
    | some x => exact .some (ih x hf)
  | other v hv =>
    cases v with
    | function f => exact absurd rfl (hv f)
    | undefined | null => rfl
    | _ => exact decide_eq_true rfl

/-- Values that nothing tells apart are one, unless they are functions, or hold a built-in function. -/
theorem identical_cases {l r : Value} (h : l.identical r = true) :
    (∃ f g, l = .function f ∧ r = .function g) ∨
      (∃ a b, l = .builtin a ∧ r = .builtin b ∧ a.ident = b.ident) ∨ l = r := by
  cases l with
  | function f =>
    by_cases hr : ∃ g, r = .function g
    · obtain ⟨g, rfl⟩ := hr
      exact .inl ⟨f, g, rfl, rfl⟩
    · rw [identical_function_other f fun g hg => hr ⟨g, hg⟩] at h
      cases h
  | builtin a =>
    cases r with
    | builtin b => exact .inr (.inl ⟨a, b, rfl, rfl, of_decide_eq_true h⟩)
    | _ => cases h
  | undefined => cases r with | undefined => exact .inr (.inr rfl) | _ => cases h
  | null => cases r with | null => exact .inr (.inr rfl) | _ => cases h
  | boolean b =>
    cases r with | boolean _ => exact .inr (.inr (of_decide_eq_true h ▸ rfl)) | _ => cases h
  | integer n =>
    cases r with | integer _ => exact .inr (.inr (of_decide_eq_true h ▸ rfl)) | _ => cases h
  | float x => cases r with | float _ => exact .inr (.inr (of_decide_eq_true h ▸ rfl)) | _ => cases h
  | string s =>
    cases r with | string _ => exact .inr (.inr (of_decide_eq_true h ▸ rfl)) | _ => cases h
  | array a => cases r with | array _ => exact .inr (.inr (of_decide_eq_true h ▸ rfl)) | _ => cases h
  | object a =>
    cases r with | object _ => exact .inr (.inr (of_decide_eq_true h ▸ rfl)) | _ => cases h
  | inst a => cases r with | inst _ => exact .inr (.inr (of_decide_eq_true h ▸ rfl)) | _ => cases h
  | klass a => cases r with | klass _ => exact .inr (.inr (of_decide_eq_true h ▸ rfl)) | _ => cases h

theorem identical_symm {l r : Value} (h : l.identical r = true) : r.identical l = true := by
  induction l using inductionOnReceiver generalizing r with
  | function f ih =>
    obtain ⟨_, g, hf, rfl⟩ | ⟨a, b, ha, -⟩ | rfl := identical_cases h
    · obtain ⟨halike, hmark, hreceiver⟩ := identical_functions_iff.mp h
      obtain ⟨⟨hprogram, hposition⟩, hscope⟩ := Function.alike_iff.mp halike
      refine identical_functions_iff.mpr ⟨?_, hmark.symm, ?_⟩
      · exact Function.alike_iff.mpr ⟨⟨hprogram.symm, hposition.symm⟩, hscope.symm⟩
      · obtain ⟨hf, hg⟩ | ⟨x, y, hf, hg, hxy⟩ := option_rel_cases hreceiver
        · rw [hf, hg]
          exact .none
        · rw [hf, hg]
          exact .some (ih x hf hxy)
    · cases ha
    · exact h
  | other l hl =>
    obtain ⟨f, _, rfl, -⟩ | ⟨a, b, rfl, rfl, hident⟩ | rfl := identical_cases h
    · exact absurd rfl (hl f)
    · exact decide_eq_true hident.symm
    · exact h

/-- Every value is the same as itself, but for floating point numbers: one that is no number is not
even equal to itself. -/
theorem same_self {v : Value} (hfloat : ∀ x, v ≠ .float x) : v.Same v := by
  cases v with
  | undefined => exact .undefined
  | null => exact .null
  | boolean b => exact .boolean b
  | integer n => exact .integer n
  | float x => exact absurd rfl (hfloat x)
  | string s => exact .string s
  | array r => exact .array r
  | object r => exact .object r
  | inst r => exact .inst r
  | function f => exact .function (identical_refl _)
  | builtin b => exact .builtin rfl
  | klass r => exact .klass r

theorem same_of_identical {l r : Value} (hfloat : ∀ x, l ≠ .float x) (h : l.identical r = true) :
    l.Same r := by
  obtain ⟨f, g, rfl, rfl⟩ | ⟨a, b, rfl, rfl, hident⟩ | rfl := identical_cases h
  · exact .function h
  · exact .builtin hident
  · exact same_self hfloat

end Value

theorem Value.Same.symm {l r : Value} (hlr : l.Same r) : r.Same l := by
  cases hlr with
  | undefined => exact .undefined
  | null => exact .null
  | boolean b => exact .boolean b
  | integer n => exact .integer n
  | float hxy => exact .float (BEq.symm hxy)
  | integerFloat hnx => exact .floatInteger (BEq.symm hnx)
  | floatInteger hxn => exact .integerFloat (BEq.symm hxn)
  | string s => exact .string s
  | array r => exact .array r
  | object r => exact .object r
  | inst r => exact .inst r
  | klass r => exact .klass r
  | builtin hident => exact .builtin hident.symm
  | function hidentical => exact .function (Value.identical_symm hidentical)

/-! ## Correspondence -/

namespace Heap

/-- `l` and `r` are the same, or they have one shape and `R` relates what they hold: the items at
each position, the values of each key, or the receivers. -/
inductive Corresponds (h : Heap) (R : Value → Value → Prop) : Value → Value → Prop
  | same {l r : Value} : l.Same r → Corresponds h R l r
  | arrays {a b : Ref .array} : (∀ i : Nat, Option.Rel R (h.items a)[i]? (h.items b)[i]?) →
    Corresponds h R (.array a) (.array b)
  | objects {a b : Ref .object} :
    (∀ key, Option.Rel R ((h.entries a).get? key) ((h.entries b).get? key)) →
    Corresponds h R (.object a) (.object b)
  | functions {f g : Function} : f.SameDeclaration g → f.scope = g.scope →
    Option.Rel R f.receiver g.receiver → Corresponds h R (.function f) (.function g)

/-- Values that `R` relates correspond, with `R` between what they hold. -/
def IsBisimulation (h : Heap) (R : Value → Value → Prop) : Prop :=
  ∀ l r, R l r → h.Corresponds R l r

/-- The values correspond, what they hold does so too, and so on `depth` levels deep. -/
def AgreesTo (h : Heap) : (depth : Nat) → Value → Value → Prop
  | 0 => fun _ _ => True
  | depth + 1 => h.Corresponds (h.AgreesTo depth)

variable {h : Heap}

theorem Corresponds.mono {R S : Value → Value → Prop} (hRS : ∀ x y, R x y → S x y) {l r : Value}
    (hlr : h.Corresponds R l r) : h.Corresponds S l r := by
  cases hlr with
  | same hsame => exact .same hsame
  | arrays hitems => exact .arrays fun i => option_rel_imp (hitems i) hRS
  | objects hvalues => exact .objects fun key => option_rel_imp (hvalues key) hRS
  | functions hdecl hscope hreceiver =>
    exact .functions hdecl hscope (option_rel_imp hreceiver hRS)

theorem agreesTo_of_succ {depth : Nat} {l r : Value} (hlr : h.AgreesTo (depth + 1) l r) :
    h.AgreesTo depth l r := by
  induction depth generalizing l r with
  | zero => trivial
  | succ depth ih => exact Corresponds.mono (fun _ _ => ih) hlr

/-! ## Equality -/

/-- Values that are equal without another comparison correspond. -/
theorem corresponds_of_atOnce {R : Value → Value → Prop} {path : List CellPair} {l r : Value}
    (hnest : ¬ l.Nest r) (heq : h.equalAlong 1 path l r = true) : h.Corresponds R l r := by
  by_cases hfunctions : ∃ f g, l = .function f ∧ r = .function g
  · obtain ⟨f, g, rfl, rfl⟩ := hfunctions
    cases hidentical : (Value.function f).identical (.function g) with
    | true => exact .same (.function hidentical)
    | false =>
      rw [equalAlong, equalBy_function, hidentical, Bool.false_or, Bool.and_eq_true,
        Function.boundAs_iff] at heq
      obtain ⟨halike, hreceiver⟩ := heq
      obtain ⟨hdecl, hscope⟩ := Function.alike_iff.mp halike
      obtain ⟨hf, hg⟩ | ⟨x, y, hf, hg, -⟩ := option_rel_cases hreceiver
      · refine .functions hdecl hscope ?_
        rw [hf, hg]
        exact .none
      · exact absurd (.bound ⟨hidentical, halike, hf, hg⟩) hnest
  · unfold equalAlong equalBy at heq
    split at heq
    · exact .same .undefined
    · exact .same .null
    · exact of_decide_eq_true heq ▸ .same (.boolean _)
    · exact of_decide_eq_true heq ▸ .same (.integer _)
    · exact .same (.float heq)
    · exact .same (.integerFloat heq)
    · exact .same (.floatInteger (BEq.symm heq))
    · exact of_decide_eq_true heq ▸ .same (.string _)
    · exact absurd (.arrays _ _) hnest
    · exact absurd (.objects _ _) hnest
    · exact of_decide_eq_true heq ▸ .same (.inst _)
    · exact of_decide_eq_true heq ▸ .same (.klass _)
    · exact absurd ⟨_, _, rfl, rfl⟩ hfunctions
    · exact .same (.builtin (of_decide_eq_true heq))
    · cases heq

theorem atOnce_of_same {l r : Value} (hnest : ¬ l.Nest r) (hlr : l.Same r) (path : List CellPair) :
    h.equalAlong 1 path l r = true := by
  cases hlr with
  | undefined | null => rfl
  | boolean | integer | string | inst | klass => exact decide_eq_true rfl
  | float hxy => exact hxy
  | integerFloat hnx => exact hnx
  | floatInteger hxn => exact BEq.symm hxn
  | array => exact absurd (.arrays _ _) hnest
  | object => exact absurd (.objects _ _) hnest
  | builtin hident => exact decide_eq_true hident
  | function hidentical =>
    rw [equalAlong, equalBy_function, hidentical]
    rfl

/-- Values that correspond are equal without another comparison, unless there is one to make. -/
theorem atOnce_of_corresponds {R : Value → Value → Prop} {l r : Value} (hnest : ¬ l.Nest r)
    (hlr : h.Corresponds R l r) (path : List CellPair) : h.equalAlong 1 path l r = true := by
  cases hlr with
  | same hsame => exact atOnce_of_same hnest hsame path
  | arrays => exact absurd (.arrays _ _) hnest
  | objects => exact absurd (.objects _ _) hnest
  | @functions f g hdecl hscope hreceiver =>
    have halike := Function.alike_iff.mpr ⟨hdecl, hscope⟩
    rw [equalAlong, equalBy_function, halike, Bool.true_and]
    cases hidentical : (Value.function f).identical (.function g) with
    | true => rfl
    | false =>
      obtain ⟨hf, hg⟩ | ⟨x, y, hf, hg, -⟩ := option_rel_cases hreceiver
      · rw [Bool.false_or, Function.boundAs, hf, hg]
      · exact absurd (.bound ⟨hidentical, halike, hf, hg⟩) hnest

/-- A comparison of related values finds them equal. -/
theorem Settles.of_bisimulation {R : Value → Value → Prop} (hR : h.IsBisimulation R)
    {path : List CellPair} {l r : Value} {b : Bool} (hb : h.Settles path l r b) (hlr : R l r) :
    b = true := by
  induction hb with
  | atOnce hnest => exact atOnce_of_corresponds hnest (hR _ _ hlr) _
  | arraysMet | objectsMet => rfl
  | arrays hnew _ ih =>
    cases hR _ _ hlr with
    | same hsame =>
      cases hsame
      exact absurd (.inl rfl) hnew
    | arrays hitems =>
      obtain ⟨hsize, hpairs⟩ := array_rel_iff.mp hitems
      refine Bool.and_eq_true_iff.mpr ⟨decide_eq_true hsize, List.all_eq_true.mpr fun p hp => ?_⟩
      exact ih p hp (hpairs p hp)
  | objects hnew _ ih =>
    cases hR _ _ hlr with
    | same hsame =>
      cases hsame
      exact absurd (.inl rfl) hnew
    | objects hvalues =>
      obtain ⟨hsize, hkeys⟩ := OrderedMap.rel_iff.mp hvalues
      refine Bool.and_eq_true_iff.mpr ⟨decide_eq_true hsize, List.all_eq_true.mpr fun e he => ?_⟩
      obtain ⟨y, hy, hxy⟩ := hkeys e he
      refine Bool.and_eq_true_iff.mpr ⟨?_, ih e he y hy hxy⟩
      rw [OrderedMap.contains, hy]
      rfl
  | bound hdefers _ ih =>
    cases hR _ _ hlr with
    | same hsame =>
      cases hsame with
      | function hidentical =>
        rw [hdefers.distinct] at hidentical
        cases hidentical
    | functions _ _ hreceiver =>
      rw [hdefers.left, hdefers.right] at hreceiver
      cases hreceiver with
      | some hxy => exact ih hxy

/-- Values that a comparison finds equal agree as deep as the pairs that are being compared do. -/
theorem Settles.agreesTo {depth : Nat} {path : List CellPair} {l r : Value} {b : Bool}
    (hlr : h.Settles path l r b) (hb : b = true)
    (hpath : ∀ p ∈ path, h.AgreesTo depth p.values.1 p.values.2) : h.AgreesTo depth l r := by
  induction depth generalizing path l r b with
  | zero => trivial
  | succ depth ih =>
    have hpath' : ∀ p ∈ path, h.AgreesTo depth p.values.1 p.values.2 :=
      fun p hp => agreesTo_of_succ (hpath p hp)
    -- One level below, `l` and `r` are a pair of the path themselves.
    have hpair : h.AgreesTo depth l r := ih hlr hb hpath'
    cases hlr with
    | atOnce hnest => exact corresponds_of_atOnce hnest hb
    | arraysMet hmet =>
      rcases hmet with rfl | hmem
      · exact .same (.array _)
      · exact hpath _ hmem
    | arrays hnew hitems =>
      obtain ⟨hsize, hall⟩ := Bool.and_eq_true_iff.mp hb
      refine .arrays (array_rel_iff.mpr ⟨of_decide_eq_true hsize, fun p hp => ?_⟩)
      have hp' := List.all_eq_true.mp hall p hp
      exact ih (hitems p hp) hp' (List.forall_mem_cons.mpr ⟨hpair, hpath'⟩)
    | objectsMet hmet =>
      rcases hmet with rfl | hmem
      · exact .same (.object _)
      · exact hpath _ hmem
    | objects hnew hvalues =>
      obtain ⟨hsize, hall⟩ := Bool.and_eq_true_iff.mp hb
      refine .objects (OrderedMap.rel_iff.mpr ⟨of_decide_eq_true hsize, fun e he => ?_⟩)
      obtain ⟨hkey, he'⟩ := Bool.and_eq_true_iff.mp (List.all_eq_true.mp hall e he)
      obtain ⟨y, hy⟩ := Option.isSome_iff_exists.mp hkey
      exact ⟨y, hy, ih (hvalues e he y hy) he' (List.forall_mem_cons.mpr ⟨hpair, hpath'⟩)⟩
    | bound hdefers hinner =>
      obtain ⟨hdecl, hscope⟩ := Function.alike_iff.mp hdefers.alike
      refine .functions hdecl hscope ?_
      rw [hdefers.left, hdefers.right]
      exact .some (ih hinner hb hpath')

/-- Values that correspond at all depths correspond by a relation for all depths. -/
theorem corresponds_forall {R : Nat → Value → Value → Prop} {l r : Value}
    (hlr : ∀ n, h.Corresponds (R n) l r) : h.Corresponds (fun x y => ∀ n, R n x y) l r := by
  by_cases hsame : l.Same r
  · exact .same hsame
  cases hlr 0 with
  | same hsame' => exact absurd hsame' hsame
  | arrays =>
    refine .arrays fun i => option_rel_forall fun n => ?_
    cases hlr n with
    | same hsame' => exact absurd hsame' hsame
    | arrays hitems => exact hitems i
  | objects =>
    refine .objects fun key => option_rel_forall fun n => ?_
    cases hlr n with
    | same hsame' => exact absurd hsame' hsame
    | objects hvalues => exact hvalues key
  | functions hdecl hscope =>
    refine .functions hdecl hscope (option_rel_forall fun n => ?_)
    cases hlr n with
    | same hsame' => exact absurd hsame' hsame
    | functions _ _ hreceiver => exact hreceiver

theorem isBisimulation_agreesTo :
    h.IsBisimulation fun l r => ∀ depth, h.AgreesTo depth l r :=
  fun _ _ hlr => corresponds_forall fun depth => hlr (depth + 1)

/-- Two values are equal exactly if they agree to every depth. -/
theorem equal_iff_agreesTo {l r : Value} :
    h.equal l r = true ↔ ∀ depth, h.AgreesTo depth l r := by
  constructor
  · intro heq depth
    exact ((settles_iff l r true).mpr heq).agreesTo rfl (List.forall_mem_nil _)
  · intro hlr
    have hsettles : h.Settles [] l r (h.equal l r) := (settles_iff l r _).mpr rfl
    exact hsettles.of_bisimulation isBisimulation_agreesTo hlr

end Heap

/-- A comparison comes to one result, which is whether some bisimulation relates the two values. -/
theorem equal_iff_bisimilar (h : Heap) (l r : Value) :
    (∀ b, h.Settles [] l r b ↔ h.equal l r = b) ∧
      (h.equal l r = true ↔ ∃ R, h.IsBisimulation R ∧ R l r) := by
  refine ⟨Heap.settles_iff l r, fun heq => ?_, ?_⟩
  · exact ⟨_, Heap.isBisimulation_agreesTo, Heap.equal_iff_agreesTo.mp heq⟩
  · rintro ⟨R, hR, hlr⟩
    have hsettles : h.Settles [] l r (h.equal l r) := (Heap.settles_iff l r _).mpr rfl
    exact hsettles.of_bisimulation hR hlr

-- Of two arrays that hold each other, one equals an array that holds itself.
example :
    ({ arrays := ⟨#[#[.array ⟨1⟩], #[.array ⟨0⟩], #[.array ⟨2⟩]]⟩ } : Heap).equal
      (.array ⟨0⟩) (.array ⟨2⟩) = true := by decide

/-! ## Symmetry and transitivity -/

namespace Heap

variable {h : Heap}

theorem Corresponds.swap {R S : Value → Value → Prop} (hRS : ∀ x y, R x y → S y x) {l r : Value}
    (hlr : h.Corresponds R l r) : h.Corresponds S r l := by
  cases hlr with
  | same hsame => exact .same hsame.symm
  | arrays hitems => exact .arrays fun i => option_rel_swap (hitems i) hRS
  | objects hvalues => exact .objects fun key => option_rel_swap (hvalues key) hRS
  | functions hdecl hscope hreceiver =>
    refine .functions ⟨hdecl.1.symm, hdecl.2.symm⟩ hscope.symm ?_
    exact option_rel_swap hreceiver hRS

theorem AgreesTo.symm {depth : Nat} {l r : Value} (hlr : h.AgreesTo depth l r) :
    h.AgreesTo depth r l := by
  induction depth generalizing l r with
  | zero => trivial
  | succ depth ih => exact Corresponds.swap (fun _ _ => ih) hlr

/-- `w` is `v`, or can be reached from `v` through arrays and objects. -/
inductive Contains (h : Heap) : Value → Value → Prop
  | refl (v : Value) : Contains h v v
  | item {r : Ref .array} {i : Nat} {v w : Value} : (h.items r)[i]? = some v → Contains h v w →
    Contains h (.array r) w
  | value {r : Ref .object} {key : String} {v w : Value} : (h.entries r).get? key = some v →
    Contains h v w → Contains h (.object r) w

/-- `w` is `v`, or can be reached from `v`: through arrays and objects, and from a function to the
value that it is bound to. -/
inductive Reaches (h : Heap) : Value → Value → Prop
  | refl (v : Value) : Reaches h v v
  | item {r : Ref .array} {i : Nat} {v w : Value} : (h.items r)[i]? = some v → Reaches h v w →
    Reaches h (.array r) w
  | value {r : Ref .object} {key : String} {v w : Value} : (h.entries r).get? key = some v →
    Reaches h v w → Reaches h (.object r) w
  | receiver {f : Function} {v w : Value} : f.receiver = some v → Reaches h v w →
    Reaches h (.function f) w

/-- No floating point number can be reached from `v`, be it through arrays and objects or through
values that functions are bound to. -/
def FloatFree (h : Heap) (v : Value) : Prop :=
  ∀ x, ¬ h.Reaches v (.float x)

/-- All bound functions in the value are bound to instances, as are those that a program makes. -/
def BindsInstances (h : Heap) (v : Value) : Prop :=
  ∀ f u, h.Contains v (.function f) → f.receiver = some u → ∃ r, u = .inst r

theorem Contains.reaches {v w : Value} (hvw : h.Contains v w) : h.Reaches v w := by
  induction hvw with
  | refl v => exact .refl v
  | item hv _ ih => exact .item hv ih
  | value hv _ ih => exact .value hv ih

/-- Behind an instance there is nothing, so arrays and objects are all that matters if functions are
bound to instances. -/
theorem Reaches.contains {v w : Value} (hvw : h.Reaches v w) (hv : h.BindsInstances v)
    (hw : ∀ r, w ≠ .inst r) : h.Contains v w := by
  induction hvw with
  | refl v => exact .refl v
  | item hu _ ih => exact .item hu (ih (fun f u hf => hv f u (.item hu hf)) hw)
  | value hu _ ih => exact .value hu (ih (fun f u hf => hv f u (.value hu hf)) hw)
  | receiver hu hreaches =>
    obtain ⟨r, rfl⟩ := hv _ _ (.refl _) hu
    cases hreaches
    exact absurd rfl (hw r)

theorem BindsInstances.floatFree_iff {v : Value} (hv : h.BindsInstances v) :
    h.FloatFree v ↔ ∀ x, ¬ h.Contains v (.float x) :=
  ⟨fun hfree x hx => hfree x hx.reaches, fun hfree x hx => hfree x (hx.contains hv nofun)⟩

namespace FloatFree

theorem not_float {x : Float} : ¬ h.FloatFree (.float x) :=
  fun hfree => hfree x (.refl _)

theorem ne_float {v : Value} (hfree : h.FloatFree v) (x : Float) : v ≠ .float x := by
  rintro rfl
  exact not_float hfree

theorem item {r : Ref .array} (hfree : h.FloatFree (.array r)) {i : Nat} (v : Value)
    (hv : (h.items r)[i]? = some v) : h.FloatFree v :=
  fun x hx => hfree x (.item hv hx)

theorem value {r : Ref .object} (hfree : h.FloatFree (.object r)) {key : String} (v : Value)
    (hv : (h.entries r).get? key = some v) : h.FloatFree v :=
  fun x hx => hfree x (.value hv hx)

theorem receiver {f : Function} (hfree : h.FloatFree (.function f)) (v : Value)
    (hv : f.receiver = some v) : h.FloatFree v :=
  fun x hx => hfree x (.receiver hv hx)

theorem agreesTo_of_identical {v w : Value} (hfree : h.FloatFree v) (hvw : v.identical w = true)
    (depth : Nat) : h.AgreesTo depth v w := by
  cases depth with
  | zero => trivial
  | succ depth => exact .same (Value.same_of_identical hfree.ne_float hvw)

theorem agreesTo_self {v : Value} (hfree : h.FloatFree v) (depth : Nat) : h.AgreesTo depth v v :=
  hfree.agreesTo_of_identical v.identical_refl depth

end FloatFree

section

variable {R : Value → Value → Prop}

/-- Without floating point numbers, functions correspond only if they come from one declaration and
one scope and are bound to related values. -/
theorem Corresponds.of_functions (hR : ∀ x y, h.FloatFree x → x.identical y = true → R x y)
    {f g : Function} (hf : h.FloatFree (.function f))
    (hfg : h.Corresponds R (.function f) (.function g)) :
    f.SameDeclaration g ∧ f.scope = g.scope ∧ Option.Rel R f.receiver g.receiver := by
  cases hfg with
  | functions hdecl hscope hreceiver => exact ⟨hdecl, hscope, hreceiver⟩
  | same hsame =>
    cases hsame with
    | function hidentical =>
      obtain ⟨halike, -, hreceiver⟩ := Value.identical_functions_iff.mp hidentical
      obtain ⟨hdecl, hscope⟩ := Function.alike_iff.mp halike
      refine ⟨hdecl, hscope, ?_⟩
      obtain ⟨hx, hy⟩ | ⟨x, y, hx, hy, hxy⟩ := option_rel_cases hreceiver
      · rw [hx, hy]
        exact .none
      · rw [hx, hy]
        exact .some (hR x y (hf.receiver x hx) hxy)

/-- Without floating point numbers, correspondence is transitive if the relation is, and relates what
nothing tells apart. -/
theorem Corresponds.trans (hidentical : ∀ x y, h.FloatFree x → x.identical y = true → R x y)
    (hR : ∀ x y z, h.FloatFree x → h.FloatFree y → h.FloatFree z → R x y → R y z → R x z)
    {u v w : Value} (hu : h.FloatFree u) (hv : h.FloatFree v) (hw : h.FloatFree w)
    (huv : h.Corresponds R u v) (hvw : h.Corresponds R v w) : h.Corresponds R u w := by
  have functions {f g k : Function} (hf : h.FloatFree (.function f))
      (hg : h.FloatFree (.function g)) (hk : h.FloatFree (.function k))
      (hfg : h.Corresponds R (.function f) (.function g))
      (hgk : h.Corresponds R (.function g) (.function k)) :
      h.Corresponds R (.function f) (.function k) := by
    obtain ⟨hdecl, hscope, hreceiver⟩ := hfg.of_functions hidentical hf
    obtain ⟨hdecl', hscope', hreceiver'⟩ := hgk.of_functions hidentical hg
    refine .functions ⟨hdecl.1.trans hdecl'.1, hdecl.2.trans hdecl'.2⟩ (hscope.trans hscope') ?_
    exact option_rel_trans hR hf.receiver hg.receiver hk.receiver hreceiver hreceiver'
  cases huv with
  | same hsame =>
    cases hsame with
    | float | floatInteger => exact absurd hu FloatFree.not_float
    | integerFloat => exact absurd hv FloatFree.not_float
    | builtin hident =>
      cases hvw with
      | same hsame' =>
        cases hsame' with
        | builtin hident' => exact .same (.builtin (hident.trans hident'))
    | function hfg =>
      cases hvw with
      | same hsame' =>
        cases hsame' with
        | function hgk => exact functions hu hv hw (.same (.function hfg)) (.same (.function hgk))
      | functions hdecl hscope hreceiver =>
        exact functions hu hv hw (.same (.function hfg)) (.functions hdecl hscope hreceiver)
    | _ => exact hvw
  | arrays huv =>
    cases hvw with
    | same hvw =>
      cases hvw
      exact .arrays huv
    | arrays hvw => exact .arrays fun i => option_rel_trans hR hu.item hv.item hw.item (huv i) (hvw i)
  | objects huv =>
    cases hvw with
    | same hvw =>
      cases hvw
      exact .objects huv
    | objects hvw =>
      exact .objects fun key => option_rel_trans hR hu.value hv.value hw.value (huv key) (hvw key)
  | functions hdecl hscope hreceiver =>
    cases hvw with
    | same hsame =>
      cases hsame with
      | function hgk =>
        exact functions hu hv hw (.functions hdecl hscope hreceiver) (.same (.function hgk))
    | functions hdecl' hscope' hreceiver' =>
      exact functions hu hv hw (.functions hdecl hscope hreceiver)
        (.functions hdecl' hscope' hreceiver')

end

theorem AgreesTo.trans {depth : Nat} {u v w : Value} (hu : h.FloatFree u) (hv : h.FloatFree v)
    (hw : h.FloatFree w) (huv : h.AgreesTo depth u v) (hvw : h.AgreesTo depth v w) :
    h.AgreesTo depth u w := by
  induction depth generalizing u v w with
  | zero => trivial
  | succ depth ih =>
    exact Corresponds.trans (fun _ _ hx hxy => hx.agreesTo_of_identical hxy depth)
      (fun _ _ _ => ih) hu hv hw huv hvw

/-- Two values may be compared either way. -/
theorem equal_comm (h : Heap) (l r : Value) : h.equal l r = h.equal r l := by
  have hsymm {l r : Value} (heq : h.equal l r = true) : h.equal r l = true :=
    equal_iff_agreesTo.mpr fun depth => (equal_iff_agreesTo.mp heq depth).symm
  exact Bool.eq_iff_iff.mpr ⟨hsymm, hsymm⟩

/-- Among the values from which no floating point number can be reached, equality is an equivalence
relation. -/
theorem equivalence_equal (h : Heap) :
    Equivalence fun u v : {v // h.FloatFree v} => h.equal u v = true := by
  constructor
  · rintro ⟨v, hv⟩
    exact equal_iff_agreesTo.mpr hv.agreesTo_self
  · rintro ⟨u, hu⟩ ⟨v, hv⟩ huv
    exact (h.equal_comm v u).trans huv
  · rintro ⟨u, hu⟩ ⟨v, hv⟩ ⟨w, hw⟩ huv hvw
    refine equal_iff_agreesTo.mpr fun depth => ?_
    have huv' := equal_iff_agreesTo.mp huv depth
    have hvw' := equal_iff_agreesTo.mp hvw depth
    exact huv'.trans hu hv hw hvw'

end Heap

/-- Arrays and objects alone would not do. Of three functions bound to two integers and to the
floating point number that stands for both, the one in the middle equals the other two, and these
are not equal. -/
theorem not_trans_of_bound (h : Heap) (f : Function) {n m : Int64} {x : Float}
    (hn : (n.toFloat == x) = true) (hm : (m.toFloat == x) = true) (hne : n ≠ m) :
    h.equal (.function { f with receiver := some (.integer n) })
        (.function { f with receiver := some (.float x) }) = true ∧
      h.equal (.function { f with receiver := some (.float x) })
        (.function { f with receiver := some (.integer m) }) = true ∧
      h.equal (.function { f with receiver := some (.integer n) })
        (.function { f with receiver := some (.integer m) }) = false := by
  have compared {v w : Value} (hvw : v.identical w = false) :
      h.equal (.function { f with receiver := some v }) (.function { f with receiver := some w }) =
        h.equal v w := by
    refine Heap.equalAlong_bound ⟨?_, Function.alike_iff.mpr ⟨⟨rfl, rfl⟩, rfl⟩, rfl, rfl⟩
    rw [Value.identical_function, Function.boundAs]
    simp only [hvw, Bool.and_false]
  have hnm : (Value.integer n).identical (.integer m) = false := decide_eq_false hne
  rw [compared rfl, compared rfl, compared hnm]
  exact ⟨hn, hm, decide_eq_false hne⟩

end Scriptlet
