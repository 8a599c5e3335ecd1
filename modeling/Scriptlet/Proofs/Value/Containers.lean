import Mathlib.Data.List.Nodup
import Scriptlet.Access
import Scriptlet.Proofs.Number.Whole
import Scriptlet.Proofs.Value.Contents

/-!
# Reading and writing containers

A part of a container is reached by an index or by a member access. Both name a `Slot` of the
container, and two accesses may name the same one. A write that succeeds is read through all
accesses to its slot, and leaves all other slots of all containers as they were (`Heap.Put`).
`Heap.Lawful` gathers what holds of a container, with the indices that are in bounds and what a loop
visits; it holds of every container that exists (`Heap.Stores.lawful`).
-/

namespace Scriptlet

/-! ## Keys that are whole numbers -/

/-- The key is the whole number: as an integer, or as a floating point number. -/
def Value.IsWhole : Value → Int → Prop
  | .integer n, z => n.toInt = z
  | .float x, z => Number.rational? x = some (z : ℚ)
  | _, _ => False

/-- The greatest integer of a program. -/
def maxInteger : Nat := 2 ^ 63 - 1

section

variable {key v : Value} {z z' : Int} {p : Int64} {n i : Nat}

theorem Value.IsWhole.unique (h : key.IsWhole z) (h' : key.IsWhole z') : z = z' := by
  cases key with
  | integer n => exact Eq.trans (Eq.symm h) h'
  | float x => exact_mod_cast Option.some_inj.mp (Eq.trans (Eq.symm h) h')
  | _ => cases h

/-- Cutting off at the ends only gives other integers than these at the ends. -/
theorem ofIntClamp_eq_iff (hlow : 0 ≤ p.toInt) (hhigh : p.toInt < maxInteger) :
    Int64.ofIntClamp z = p ↔ z = p.toInt := by
  constructor
  · rintro rfl
    unfold Int64.ofIntClamp maxInteger at *
    have hmin : Int64.minValue.toInt = -2 ^ 63 := rfl
    have hmax : Int64.maxValue.toInt = 2 ^ 63 - 1 := rfl
    split at hlow
    · next hleast =>
      rw [dif_pos hleast] at hhigh ⊢
      split at hhigh
      · next hmost => rw [dif_pos hmost, Int64.toInt_ofIntLE]
      · omega
    · omega
  · rintro rfl
    exact Int64.ofIntClamp_toInt p

/-- A key stands for a position, if not for the last one, exactly if it is this whole number. -/
theorem indexPosition?_eq_some_iff (hlow : 0 ≤ p.toInt) (hhigh : p.toInt < maxInteger) :
    indexPosition? key = some p ↔ key.IsWhole p.toInt := by
  cases key with
  | integer n => exact Option.some_inj.trans Int64.toInt_inj.symm
  | float x =>
    have hwhole (z : Int) : (Number.Binary64.ofFloat x).whole? = some z ∧ Int64.ofIntClamp z = p ↔
        Number.rational? x = some (z : ℚ) ∧ z = p.toInt :=
      and_congr Number.whole?_ofFloat_eq_some_iff (ofIntClamp_eq_iff hlow hhigh)
    rw [indexPosition?, Option.map_eq_some_iff, exists_congr hwhole, exists_eq_right]
    rfl
  | _ => exact iff_of_false nofun nofun

theorem Value.isWhole_ofNat (hi : i < maxInteger) : (Value.integer (Int64.ofNat i)).IsWhole i :=
  Int64.toInt_ofNat_of_lt (Nat.lt_of_lt_of_le hi (Nat.sub_le _ _))

theorem Value.IsWhole.exists_position (h : key.IsWhole i) (hi : i < maxInteger) :
    ∃ p, indexPosition? key = some p ∧ p.toInt = i := by
  have hp : (Int64.ofNat i).toInt = i := Value.isWhole_ofNat hi
  refine ⟨Int64.ofNat i, (indexPosition?_eq_some_iff ?_ ?_).mpr (hp ▸ h), hp⟩
  · omega
  · omega

/-- A key stands for a position in bounds exactly if it is this whole number. -/
theorem positionIn_eq_ok_iff (hn : n ≤ maxInteger) :
    positionIn v key n = .ok i ↔ key.IsWhole i ∧ i < n := by
  unfold positionIn
  constructor
  · intro h
    split at h
    · cases h
    · next p hp =>
      split at h
      · next hbounds =>
        cases h
        have hi : (p.toInt.toNat : Int) = p.toInt := Int.toNat_of_nonneg hbounds.1
        rw [indexPosition?_eq_some_iff hbounds.1 (by omega)] at hp
        exact ⟨hi ▸ hp, by omega⟩
      · cases h
  · rintro ⟨hwhole, hi⟩
    obtain ⟨p, hp, htoInt⟩ := hwhole.exists_position (Nat.lt_of_lt_of_le hi hn)
    rw [hp]
    dsimp only
    rw [htoInt, if_pos ⟨Int.natCast_nonneg i, Int.ofNat_lt.mpr hi⟩, Int.toNat_natCast]

/-- With one place more, only the key that stands for this place stands for another one. -/
theorem positionIn_succ (hn : n < maxInteger) (hkey : ¬ key.IsWhole n) :
    positionIn v key (n + 1) = positionIn v key n ∨
      ∃ p, positionIn v key n = .error (.indexOutOfBounds p n) ∧
        positionIn v key (n + 1) = .error (.indexOutOfBounds p (n + 1)) := by
  unfold positionIn
  cases hp : indexPosition? key with
  | none => exact .inl rfl
  | some p =>
    dsimp only
    by_cases hbounds : 0 ≤ p.toInt ∧ p.toInt < n
    · rw [if_pos hbounds, if_pos ⟨hbounds.1, by omega⟩]
      exact .inl rfl
    · have hlast : p.toInt ≠ n := by
        intro heq
        rw [indexPosition?_eq_some_iff (by omega) (by omega), heq] at hp
        exact hkey hp
      rw [if_neg hbounds, if_neg fun hmore => hbounds ⟨hmore.1, by omega⟩]
      exact .inr ⟨p, rfl, rfl⟩

end

/-! ## Cells that change -/

theorem Store.getD_modify {s : CellSort} {α : Type} {st : Store s α} {r : Ref s}
    (hr : r.index < st.size) (f : α → α) (a : α) (r' : Ref s) :
    ((st.modify r f).get? r').getD a =
      if r' = r then f ((st.get? r).getD a) else (st.get? r').getD a := by
  rw [Store.get?_modify]
  split
  · next h =>
    have hcell : st.get? r = some st.cells[r.index] := Array.getElem?_eq_getElem hr
    rw [h, hcell]
    rfl
  · rfl

namespace Heap

variable {h : Heap}

theorem items_modifyArray {r : Ref .array} (hr : r.index < h.arrays.size)
    (f : Array Value → Array Value) (r' : Ref .array) :
    (h.modifyArray r f).items r' = if r' = r then f (h.items r) else h.items r' :=
  Store.getD_modify hr f #[] r'

theorem entries_setEntry {r : Ref .object} (hr : r.index < h.objects.size) (s : String) (x : Value)
    (r' : Ref .object) :
    (h.setEntry r s x).entries r' = if r' = r then (h.entries r).insert s x else h.entries r' :=
  Store.getD_modify hr _ .empty r'

theorem inst_setField {r : Ref .inst} (hr : r.index < h.instances.size) (s : String) (x : Value)
    (r' : Ref .inst) : (h.setField r s x).inst r' =
      if r' = r then { h.inst r with fields := (h.inst r).fields.insert s x } else h.inst r' :=
  Store.getD_modify hr _ default r'

end Heap

/-! ## Accesses and slots -/

/-- A way to a part of a container. -/
inductive Access where
  | index (key : Value)
  | member (name : String)

/-- A part of a container: the item at a position, or what a name stands for. -/
inductive Slot where
  | item (i : Nat)
  | name (s : String)

/-- The slot of a container that an access names. The length of an array is none. -/
inductive Access.Names : Value → Access → Slot → Prop
  | item {r : Ref .array} {key : Value} {i : Nat} : key.IsWhole i →
    Names (.array r) (.index key) (.item i)
  | key (r : Ref .object) (s : String) : Names (.object r) (.index (.string s)) (.name s)
  | entry (r : Ref .object) (s : String) : Names (.object r) (.member s) (.name s)
  | field (r : Ref .inst) (s : String) : Names (.inst r) (.member s) (.name s)

/-- Two accesses to a container name one slot. -/
def Access.Same (v : Value) (a b : Access) : Prop := ∃ slot, a.Names v slot ∧ b.Names v slot

theorem Access.Names.unique {v : Value} {a : Access} {slot slot' : Slot} (h : a.Names v slot)
    (h' : a.Names v slot') : slot = slot' := by
  cases h with
  | item hi =>
    cases h' with
    | item hj => rw [Int.ofNat_inj.mp (hi.unique hj)]
  | key | entry | field =>
    cases h'
    rfl

theorem Access.Names.same_iff {v : Value} {a b : Access} {slot : Slot} (h : a.Names v slot) :
    a.Same v b ↔ b.Names v slot := by
  constructor
  · rintro ⟨slot', ha, hb⟩
    rwa [h.unique ha]
  · exact fun hb => ⟨slot, h, hb⟩

namespace Heap

/-- Reads a part of a container. -/
def get (h : Heap) (v : Value) : Access → Except Cause Value
  | .index key => h.getIndex v key
  | .member s => h.getMember v s

/-- Writes to a part of a container. -/
def put (h : Heap) (v : Value) (a : Access) (x : Value) : Except Cause Heap :=
  match a with
  | .index key => h.setIndex v key x
  | .member s => h.setMember v s x

/-- The cell of a container exists. -/
def Stores (h : Heap) : Value → Prop
  | .array r => r.index < h.arrays.size
  | .object r => r.index < h.objects.size
  | .inst r => r.index < h.instances.size
  | _ => True

/-- The positions in an array or a text are integers, and the one behind the last is. No memory
could hold more. -/
def Counts (h : Heap) : Value → Prop
  | .array r => (h.items r).size < maxInteger
  | .string s => s.length < maxInteger
  | _ => True

/-- The place in the heap that an access to a container leads to for a write. -/
inductive Leads (h : Heap) : Value → Access → Place → Prop
  | item {r : Ref .array} {key : Value} {i : Nat} : key.IsWhole i → i < (h.items r).size →
    Leads h (.array r) (.index key) (.item r i)
  | behind {r : Ref .array} {key : Value} : key.IsWhole (h.items r).size →
    Leads h (.array r) (.index key) (.behind r)
  | key (r : Ref .object) (s : String) : Leads h (.object r) (.index (.string s)) (.entry r s)
  | entry (r : Ref .object) (s : String) : Leads h (.object r) (.member s) (.entry r s)
  | field (r : Ref .inst) (s : String) : Leads h (.inst r) (.member s) (.field r s)

variable {h h' : Heap} {v x : Value} {key : Value} {r : Ref .array}

theorem indexPlace_array_eq_ok_iff (hn : (h.items r).size < maxInteger) {place : Place} :
    h.indexPlace (.array r) key = .ok place ↔
      (∃ i : Nat, key.IsWhole i ∧ i < (h.items r).size ∧ place = .item r i) ∨
        key.IsWhole (h.items r).size ∧ place = .behind r := by
  unfold indexPlace
  dsimp only
  constructor
  · intro hplace
    split at hplace
    · cases hplace
    · next p hp =>
      split at hplace
      · next hbounds =>
        cases hplace
        have hi : (p.toInt.toNat : Int) = p.toInt := Int.toNat_of_nonneg hbounds.1
        rw [indexPosition?_eq_some_iff hbounds.1 (by omega)] at hp
        exact .inl ⟨p.toInt.toNat, hi ▸ hp, by omega, rfl⟩
      · split at hplace
        · next hlast =>
          cases hplace
          rw [indexPosition?_eq_some_iff (by omega) (by omega), hlast] at hp
          exact .inr ⟨hp, rfl⟩
        · cases hplace
  · rintro (⟨i, hwhole, hi, rfl⟩ | ⟨hwhole, rfl⟩)
    · obtain ⟨p, hp, htoInt⟩ := hwhole.exists_position (Nat.lt_trans hi hn)
      rw [hp]
      dsimp only
      rw [htoInt, if_pos ⟨Int.natCast_nonneg i, Int.ofNat_lt.mpr hi⟩, Int.toNat_natCast]
    · obtain ⟨p, hp, htoInt⟩ := hwhole.exists_position hn
      rw [hp]
      dsimp only
      rw [htoInt, if_neg fun hbounds => Int.lt_irrefl _ hbounds.2, if_pos rfl]

/-- Where a write to a container goes. -/
def place (h : Heap) (v : Value) : Access → Except Cause Place
  | .index key => h.indexPlace v key
  | .member s => memberPlace v s

theorem put_eq (h : Heap) (v : Value) (a : Access) (x : Value) :
    h.put v a x = (h.place v a).map fun place => h.write place x := by
  cases a <;> rfl

theorem place_eq_ok_iff (hcount : h.Counts v) {a : Access} {place : Place} :
    h.place v a = .ok place ↔ h.Leads v a place := by
  constructor
  · intro hplace
    cases a with
    | member s =>
      cases v with
      | object r =>
        cases hplace
        exact .entry r s
      | inst r =>
        cases hplace
        exact .field r s
      | _ => cases hplace
    | index key =>
      cases v with
      | array r =>
        obtain ⟨i, hwhole, hi, rfl⟩ | ⟨hwhole, rfl⟩ :=
          (indexPlace_array_eq_ok_iff hcount).mp hplace
        · exact .item hwhole hi
        · exact .behind hwhole
      | object r =>
        cases key with
        | string s =>
          cases hplace
          exact .key r s
        | _ => cases hplace
      | _ => cases hplace
  · rintro (⟨hwhole, hi⟩ | hwhole | _ | _ | _)
    · exact (indexPlace_array_eq_ok_iff hcount).mpr (.inl ⟨_, hwhole, hi, rfl⟩)
    · exact (indexPlace_array_eq_ok_iff hcount).mpr (.inr ⟨hwhole, rfl⟩)
    · rfl
    · rfl
    · rfl

/-- A write that succeeds is a write to the place that the access leads to. -/
theorem put_eq_ok_iff (hcount : h.Counts v) {a : Access} :
    h.put v a x = .ok h' ↔ ∃ place, h.Leads v a place ∧ h.write place x = h' := by
  simp only [put_eq, ← place_eq_ok_iff hcount]
  cases h.place v a with
  | error c => exact iff_of_false nofun nofun
  | ok place =>
    constructor
    · rintro ⟨⟩
      exact ⟨place, rfl, rfl⟩
    · rintro ⟨_, ⟨⟩, rfl⟩
      rfl

/-! ## What a write leaves to be read -/

/-- What an index of an array reads is an item. -/
theorem getIndex_array_eq (h : Heap) (r : Ref .array) (key : Value) : h.getIndex (.array r) key =
    (positionIn (.array r) key (h.items r).size).map fun i => (h.items r).getD i .undefined := by
  show (positionIn (.array r) key (h.items r).size).bind _ = _
  cases positionIn (.array r) key (h.items r).size <;> rfl

theorem getMember_array_eq (h : Heap) (r : Ref .array) (s : String) : h.getMember (.array r) s =
    if s = "length" then .ok (.integer (Int64.ofNat (h.items r).size))
    else .error (.undefinedField "array" s) := by
  unfold getMember
  by_cases hs : s = "length"
  · simp only [if_pos hs]
  · simp only [if_neg hs]
    rfl

/-- A key of an object reads as a member of that name. -/
theorem getIndex_object_string (h : Heap) (r : Ref .object) (s : String) :
    h.getIndex (.object r) (.string s) = h.getMember (.object r) s := rfl

theorem getMember_object_eq (h : Heap) (r : Ref .object) (s : String) :
    h.getMember (.object r) s = match (h.entries r).get? s with
      | some x => .ok x
      | none => .error (.undefinedField "object" s) := rfl

theorem getMember_inst_eq (h : Heap) (r : Ref .inst) (s : String) : h.getMember (.inst r) s =
    match ((h.inst r).fields.get? s).or
      (((h.klass (h.inst r).klass).method? s (.inst r)).map Value.function) with
    | some x => .ok x
    | none => .error (.undefinedField (h.klass (h.inst r).klass).name s) := rfl

/-- Reads of a container depend on nothing but its cell, and on the classes. -/
theorem get_congr (h h' : Heap) (harray : ∀ r, v = .array r → h'.items r = h.items r)
    (hobject : ∀ r, v = .object r → h'.entries r = h.entries r)
    (hinst : ∀ r, v = .inst r → h'.inst r = h.inst r) (hklass : h'.klass = h.klass)
    (a : Access) : h'.get v a = h.get v a := by
  cases v with
  | array r =>
    cases a with
    | index key => simp only [get, getIndex_array_eq, harray r rfl]
    | member s => simp only [get, getMember_array_eq, harray r rfl]
  | object r =>
    cases a with
    | index key =>
      cases key with
      | string s => simp only [get, getIndex_object_string, getMember_object_eq, hobject r rfl]
      | _ => rfl
    | member s => simp only [get, getMember_object_eq, hobject r rfl]
  | inst r =>
    cases a with
    | index key => rfl
    | member s => simp only [get, getMember_inst_eq, hinst r rfl, hklass]
  | _ => cases a <;> rfl

/-- What holds after `x` was written to a part of a container: through any access to its slot, `x`
is read; through any other access, and from any other container, what was read before. Only the
length of an array may be another one, also in the error for an index that is out of bounds. -/
structure Put (h h' : Heap) (v : Value) (a : Access) (x : Value) : Prop where
  read : h'.get v a = .ok x
  same {b : Access} : a.Same v b → h'.get v b = .ok x
  other {b : Access} : ¬ a.Same v b → (∀ r, v = .array r → b ≠ .member "length") →
    h'.get v b = h.get v b ∨ ∃ r p, v = .array r ∧
      h.get v b = .error (.indexOutOfBounds p (h.items r).size) ∧
      h'.get v b = .error (.indexOutOfBounds p (h'.items r).size)
  elsewhere {w : Value} (b : Access) : w ≠ v → h'.get w b = h.get w b
  size {r : Ref .array} {key : Value} {i : Nat} : v = .array r → a = .index key → key.IsWhole i →
    (h'.items r).size =
      if i = (h.items r).size then (h.items r).size + 1 else (h.items r).size

/-- The items of an array are read at their positions. -/
theorem getIndex_item (hn : (h.items r).size ≤ maxInteger) {i : Nat} (hwhole : key.IsWhole i)
    {x : Value} (hx : (h.items r)[i]? = some x) : h.getIndex (.array r) key = .ok x := by
  have hi : i < (h.items r).size := (Array.getElem?_eq_some_iff.mp hx).1
  rw [getIndex_array_eq, (positionIn_eq_ok_iff hn).mpr ⟨hwhole, hi⟩]
  show Except.ok ((h.items r).getD i .undefined) = _
  rw [Array.getD_eq_getD_getElem?, hx]
  rfl

theorem write_array_elsewhere {f : Array Value → Array Value} (hr : r.index < h.arrays.size)
    {w : Value} (b : Access) (hw : w ≠ .array r) : (h.modifyArray r f).get w b = h.get w b := by
  have hitems : ∀ r', w = .array r' → (h.modifyArray r f).items r' = h.items r' := by
    rintro r' rfl
    rw [items_modifyArray hr, if_neg fun hr' => hw (congrArg Value.array hr')]
  exact get_congr h _ hitems (fun _ _ => rfl) (fun _ _ => rfl) rfl b

/-- It is enough to look at the slot that was written. -/
theorem Put.of_names {a : Access} {slot : Slot} (hslot : a.Names v slot)
    (hread : ∀ {b}, b.Names v slot → h'.get v b = .ok x)
    (hother : ∀ {b}, ¬ b.Names v slot → (∀ r, v = .array r → b ≠ .member "length") →
      h'.get v b = h.get v b ∨ ∃ r p, v = .array r ∧
        h.get v b = .error (.indexOutOfBounds p (h.items r).size) ∧
        h'.get v b = .error (.indexOutOfBounds p (h'.items r).size))
    (helsewhere : ∀ {w : Value} (b : Access), w ≠ v → h'.get w b = h.get w b)
    (hsize : ∀ {r i}, v = .array r → slot = .item i → (h'.items r).size =
      if i = (h.items r).size then (h.items r).size + 1 else (h.items r).size) :
    h.Put h' v a x where
  read := hread hslot
  same hb := hread (hslot.same_iff.mp hb)
  other hb := hother fun hnames => hb (hslot.same_iff.mpr hnames)
  elsewhere := helsewhere
  size := by
    rintro r key i rfl rfl hi
    exact hsize rfl (hslot.unique (.item hi))

theorem put_item {i : Nat} (hr : r.index < h.arrays.size) (hn : (h.items r).size < maxInteger)
    (hwhole : key.IsWhole i) (hi : i < (h.items r).size) (x : Value) :
    h.Put (h.write (.item r i) x) (.array r) (.index key) x := by
  have hitems : (h.write (.item r i) x).items r = (h.items r).setIfInBounds i x :=
    (items_modifyArray hr _ r).trans (if_pos rfl)
  have hsize : ((h.write (.item r i) x).items r).size = (h.items r).size := by
    rw [hitems, Array.size_setIfInBounds]
  refine .of_names (.item hwhole) ?_ ?_ (write_array_elsewhere hr) ?_
  · rintro _ (⟨hwhole⟩)
    refine getIndex_item (hsize ▸ Nat.le_of_lt hn) hwhole ?_
    rw [hitems, Array.getElem?_setIfInBounds, if_pos rfl, if_pos hi]
  · intro b hb hlength
    refine .inl ?_
    cases b with
    | member s =>
      have hs : s ≠ "length" := fun hs => hlength r rfl (congrArg Access.member hs)
      simp only [get, getMember_array_eq, if_neg hs]
    | index key' =>
      simp only [get, getIndex_array_eq, hsize]
      cases hposition : positionIn (.array r) key' (h.items r).size with
      | error c => rfl
      | ok j =>
        have hj := ((positionIn_eq_ok_iff (Nat.le_of_lt hn)).mp hposition).1
        have hij : i ≠ j := by
          rintro rfl
          exact hb (.item hj)
        show Except.ok (((h.write (.item r i) x).items r).getD j .undefined) =
          Except.ok ((h.items r).getD j .undefined)
        rw [hitems, Array.getD_eq_getD_getElem?, Array.getD_eq_getD_getElem?,
          Array.getElem?_setIfInBounds, if_neg hij]
  · rintro _ _ ⟨⟩ ⟨⟩
    rw [hsize, if_neg (Nat.ne_of_lt hi)]

theorem put_behind (hr : r.index < h.arrays.size) (hn : (h.items r).size < maxInteger)
    (hwhole : key.IsWhole (h.items r).size) (x : Value) :
    h.Put (h.write (.behind r) x) (.array r) (.index key) x := by
  have hitems : (h.write (.behind r) x).items r = (h.items r).push x :=
    (items_modifyArray hr _ r).trans (if_pos rfl)
  have hsize : ((h.write (.behind r) x).items r).size = (h.items r).size + 1 := by
    rw [hitems, Array.size_push]
  refine .of_names (.item hwhole) ?_ ?_ (write_array_elsewhere hr) ?_
  · rintro _ (⟨hwhole⟩)
    refine getIndex_item (hsize ▸ hn) hwhole ?_
    rw [hitems, Array.getElem?_push, if_pos rfl]
  · intro b hb hlength
    cases b with
    | member s =>
      have hs : s ≠ "length" := fun hs => hlength r rfl (congrArg Access.member hs)
      refine .inl ?_
      simp only [get, getMember_array_eq, if_neg hs]
    | index key' =>
      simp only [get, getIndex_array_eq, hsize]
      obtain hposition | ⟨p, hposition, hmore⟩ :=
        positionIn_succ (v := .array r) hn fun hlast => hb (.item hlast)
      · refine .inl ?_
        rw [hposition]
        cases hposition : positionIn (.array r) key' (h.items r).size with
        | error c => rfl
        | ok j =>
          have hj := ((positionIn_eq_ok_iff (Nat.le_of_lt hn)).mp hposition).2
          show Except.ok (((h.write (.behind r) x).items r).getD j .undefined) =
            Except.ok ((h.items r).getD j .undefined)
          rw [hitems, Array.getD_eq_getD_getElem?, Array.getD_eq_getD_getElem?,
            Array.getElem?_push, if_neg (Nat.ne_of_lt hj)]
      · refine .inr ⟨r, p, rfl, ?_, ?_⟩
        · rw [hposition]
          rfl
        · rw [hmore, hsize]
          rfl
  · rintro _ _ ⟨⟩ ⟨⟩
    rw [hsize, if_pos rfl]

theorem put_entry {r : Ref .object} {a : Access} {s : String} (hr : r.index < h.objects.size)
    (ha : a.Names (.object r) (.name s)) (x : Value) :
    h.Put (h.write (.entry r s) x) (.object r) a x := by
  have hentries : (h.write (.entry r s) x).entries r = (h.entries r).insert s x :=
    (entries_setEntry hr s x r).trans (if_pos rfl)
  have hmember (t : String) : (h.write (.entry r s) x).getMember (.object r) t =
      if t = s then .ok x else h.getMember (.object r) t := by
    rw [getMember_object_eq, hentries, OrderedMap.get?_insert]
    by_cases ht : t = s
    · rw [if_pos ht, if_pos ht]
    · rw [if_neg ht, if_neg ht]
      rfl
  refine .of_names ha ?_ ?_ (fun {w} b hw => ?_) nofun
  · rintro _ (_ | _ | _ | _)
    · exact (hmember s).trans (if_pos rfl)
    · exact (hmember s).trans (if_pos rfl)
  · intro b hb _
    refine .inl ?_
    cases b with
    | member t =>
      refine (hmember t).trans (if_neg ?_)
      rintro rfl
      exact hb (.entry r t)
    | index key =>
      cases key with
      | string t =>
        refine (hmember t).trans (if_neg ?_)
        rintro rfl
        exact hb (.key r t)
      | _ => rfl
  · have hothers : ∀ r', w = .object r' → (h.write (.entry r s) x).entries r' = h.entries r' := by
      rintro r' rfl
      exact (entries_setEntry hr s x r').trans (if_neg fun hr' => hw (congrArg Value.object hr'))
    exact get_congr h (h.write (.entry r s) x) (fun _ _ => rfl) hothers (fun _ _ => rfl) rfl b

theorem put_field {r : Ref .inst} (hr : r.index < h.instances.size) (s : String) (x : Value) :
    h.Put (h.write (.field r s) x) (.inst r) (.member s) x := by
  have hinst : (h.write (.field r s) x).inst r =
      { h.inst r with fields := (h.inst r).fields.insert s x } :=
    (inst_setField hr s x r).trans (if_pos rfl)
  have hmember (t : String) : (h.write (.field r s) x).getMember (.inst r) t =
      if t = s then .ok x else h.getMember (.inst r) t := by
    rw [getMember_inst_eq, hinst, OrderedMap.get?_insert]
    by_cases ht : t = s
    · rw [if_pos ht, if_pos ht]
      rfl
    · rw [if_neg ht, if_neg ht]
      rfl
  refine .of_names (.field r s) ?_ ?_ (fun {w} b hw => ?_) nofun
  · rintro _ (_ | _ | _ | _)
    exact (hmember s).trans (if_pos rfl)
  · intro b hb _
    refine .inl ?_
    cases b with
    | member t =>
      refine (hmember t).trans (if_neg ?_)
      rintro rfl
      exact hb (.field r t)
    | index key => rfl
  · have hothers : ∀ r', w = .inst r' → (h.write (.field r s) x).inst r' = h.inst r' := by
      rintro r' rfl
      exact (inst_setField hr s x r').trans (if_neg fun hr' => hw (congrArg Value.inst hr'))
    exact get_congr h (h.write (.field r s) x) (fun _ _ => rfl) (fun _ _ => rfl) hothers rfl b

/-- A write that succeeds changes the slot that it goes to, and nothing else. -/
theorem Stores.put (hv : h.Stores v) (hcount : h.Counts v) {a : Access}
    (hput : h.put v a x = .ok h') : h.Put h' v a x := by
  obtain ⟨place, hleads, rfl⟩ := (put_eq_ok_iff hcount).mp hput
  cases hleads with
  | item hwhole hi => exact put_item hv hcount hwhole hi x
  | behind hwhole => exact put_behind hv hcount hwhole x
  | key r s => exact put_entry hv (.key r s) x
  | entry r s => exact put_entry hv (.entry r s) x
  | field r s => exact put_field hv s x

/-! ## Indices in bounds -/

theorem exists_getIndex_array_iff (hn : (h.items r).size ≤ maxInteger) :
    (∃ x, h.getIndex (.array r) key = .ok x) ↔
      ∃ i : Nat, key.IsWhole i ∧ i < (h.items r).size := by
  simp only [← positionIn_eq_ok_iff (v := .array r) hn, getIndex_array_eq]
  cases positionIn (.array r) key (h.items r).size with
  | error c => exact iff_of_false nofun nofun
  | ok i => exact iff_of_true ⟨_, rfl⟩ ⟨i, rfl⟩

theorem exists_setIndex_array_iff (hn : (h.items r).size < maxInteger) :
    (∃ h', h.setIndex (.array r) key x = .ok h') ↔
      ∃ i : Nat, key.IsWhole i ∧ i ≤ (h.items r).size := by
  have hplace : (∃ h', h.setIndex (.array r) key x = .ok h') ↔
      ∃ place, h.indexPlace (.array r) key = .ok place := by
    unfold setIndex
    cases h.indexPlace (.array r) key with
    | error c => exact iff_of_false nofun nofun
    | ok place => exact iff_of_true ⟨_, rfl⟩ ⟨place, rfl⟩
  rw [hplace]
  simp only [indexPlace_array_eq_ok_iff hn]
  constructor
  · rintro ⟨_, ⟨i, hwhole, hi, -⟩ | ⟨hwhole, -⟩⟩
    · exact ⟨i, hwhole, Nat.le_of_lt hi⟩
    · exact ⟨_, hwhole, Nat.le_refl _⟩
  · rintro ⟨i, hwhole, hi⟩
    rcases Nat.lt_or_eq_of_le hi with hi | rfl
    · exact ⟨_, .inl ⟨i, hwhole, hi, rfl⟩⟩
    · exact ⟨_, .inr ⟨hwhole, rfl⟩⟩

/-! ## What a loop visits -/

/-- The values are all parts of a container in their order: as many as its length says, and each one
is what its position reads. -/
structure Lists (h : Heap) (v : Value) (items : List Value) : Prop where
  length : ∃ n : Int64, h.getMember v "length" = .ok (.integer n) ∧ n.toInt = items.length
  item {i : Nat} (hi : i < items.length) :
    h.getIndex v (.integer (Int64.ofNat i)) = .ok items[i]

theorem lists_items (hn : (h.items r).size < maxInteger) :
    h.Lists (.array r) (h.items r).toList where
  length := ⟨Int64.ofNat (h.items r).size, rfl, Value.isWhole_ofNat hn⟩
  item {i} hi := by
    refine getIndex_item (Nat.le_of_lt hn) (Value.isWhole_ofNat (Nat.lt_trans hi hn)) ?_
    rw [← Array.getElem?_toList, List.getElem?_eq_getElem hi]

/-- The characters of a text, each one as a text. -/
def pieces (s : String) : List String := s.toList.map fun c => String.ofList [c]

theorem join_pieces (s : String) : String.join (pieces s) = s := by
  rw [← String.toList_inj, String.toList_join]
  unfold pieces
  rw [List.flatMap_map]
  simp only [String.toList_ofList, List.flatMap_singleton']

theorem getIndex_string_eq (h : Heap) (s : String) (key : Value) : h.getIndex (.string s) key =
    (positionIn (.string s) key s.length).map fun i =>
      .string (String.ofList ((s.toList.drop i).take 1)) := by
  show (positionIn (.string s) key s.length).bind _ = _
  cases positionIn (.string s) key s.length <;> rfl

theorem lists_pieces {s : String} (hn : s.length < maxInteger) :
    h.Lists (.string s) ((pieces s).map .string) where
  length := by
    refine ⟨Int64.ofNat s.length, rfl, (Value.isWhole_ofNat hn).trans ?_⟩
    rw [List.length_map, pieces, List.length_map, String.length_toList]
  item {i} hi := by
    have hi : i < s.toList.length := by
      rwa [List.length_map, pieces, List.length_map] at hi
    have hlength : i < s.length := String.length_toList ▸ hi
    have hwhole := Value.isWhole_ofNat (Nat.lt_trans hlength hn)
    rw [getIndex_string_eq, (positionIn_eq_ok_iff (Nat.le_of_lt hn)).mpr ⟨hwhole, hlength⟩]
    show Except.ok (Value.string (String.ofList ((s.toList.drop i).take 1))) = _
    rw [List.drop_eq_getElem_cons hi, List.take_succ_cons, List.take_zero]
    simp only [pieces, List.getElem_map]

/-- The keys of an object, in the order of their entries, each one once. -/
structure ListsKeys (h : Heap) (r : Ref .object) (keys : List String) : Prop where
  entries : keys = (h.entries r).entries.map Prod.fst
  nodup : keys.Nodup
  mem_iff {s : String} : s ∈ keys ↔ ∃ x, h.getMember (.object r) s = .ok x

theorem listsKeys (h : Heap) (r : Ref .object) : h.ListsKeys r (h.entries r).keys where
  entries := rfl
  nodup := (h.entries r).nodup
  mem_iff {s} := by
    rw [OrderedMap.mem_keys_iff, getMember_object_eq]
    cases (h.entries r).get? s with
    | none => exact iff_of_false nofun nofun
    | some x => exact iff_of_true ⟨x, rfl⟩ ⟨x, rfl⟩

/-- What holds of a container: writes change one slot, arrays are read at their positions and
written there or just behind, the two accesses to a key of an object do the same, and a loop visits
the parts of an array or a text, and the keys of an object. -/
structure Lawful (h : Heap) (v : Value) : Prop where
  put {a : Access} {x : Value} {h' : Heap} : h.put v a x = .ok h' → h.Put h' v a x
  read_iff {r : Ref .array} {key : Value} : v = .array r →
    ((∃ x, h.getIndex v key = .ok x) ↔ ∃ i : Nat, key.IsWhole i ∧ i < (h.items r).size)
  write_iff {r : Ref .array} {key x : Value} : v = .array r →
    ((∃ h', h.setIndex v key x = .ok h') ↔ ∃ i : Nat, key.IsWhole i ∧ i ≤ (h.items r).size)
  key_read {r : Ref .object} (s : String) : v = .object r →
    h.getIndex v (.string s) = h.getMember v s
  key_write {r : Ref .object} (s : String) (x : Value) : v = .object r →
    h.setIndex v (.string s) x = h.setMember v s x
  loop_array {r : Ref .array} : v = .array r → ∃ items, h.loopItems v = .ok items ∧ h.Lists v items
  loop_text {s : String} : v = .string s → ∃ pieces : List String,
    h.loopItems v = .ok (pieces.map .string) ∧ h.Lists v (pieces.map .string) ∧
      String.join pieces = s
  loop_object {r : Ref .object} : v = .object r → ∃ keys : List String,
    h.loopItems v = .ok (keys.map .string) ∧ h.ListsKeys r keys

theorem Stores.lawful (hv : h.Stores v) (hcount : h.Counts v) : h.Lawful v where
  put := hv.put hcount
  read_iff := by
    rintro r key rfl
    exact exists_getIndex_array_iff (Nat.le_of_lt hcount)
  write_iff := by
    rintro r key x rfl
    exact exists_setIndex_array_iff hcount
  key_read := by
    rintro r s rfl
    rfl
  key_write := by
    rintro r s x rfl
    rfl
  loop_array := by
    rintro r rfl
    exact ⟨_, rfl, lists_items hcount⟩
  loop_text := by
    rintro s rfl
    have hitems : h.loopItems (.string s) = .ok ((pieces s).map .string) := by
      unfold loopItems pieces
      rw [List.map_map]
      rfl
    exact ⟨pieces s, hitems, lists_pieces hcount, join_pieces s⟩
  loop_object := by
    rintro r rfl
    exact ⟨_, rfl, h.listsKeys r⟩

end Heap

end Scriptlet
