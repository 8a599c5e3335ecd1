import Scriptlet.Proofs.Value.Copies

/-!
# Many insertions into a map

Insertions one after another into an `OrderedMap`. A name keeps the place of its first
insertion, so the names are those of all insertions without repetitions
(`keys_insertAll`), and it has the value of its last one (`get?_insertAll`). `Receives`
says both of the maps before and after, whatever has been done in between.
-/

namespace Scriptlet

/-! ## Lists without repetitions -/

theorem eraseDups_of_nodup {as : List String} (h : as.Nodup) : as.eraseDups = as := by
  induction as with
  | nil => rfl
  | cons a as ih =>
    obtain ⟨ha, has⟩ := List.nodup_cons.mp h
    have hrest : as.filter (fun b => !b == a) = as := by
      refine List.filter_eq_self.mpr fun b hb => ?_
      have hne : b ≠ a := fun heq => ha (heq ▸ hb)
      rw [beq_false_of_ne hne]
      rfl
    rw [List.eraseDups_cons, hrest, ih has]

/-- What occurs already is left out when it comes again. -/
theorem eraseDups_append_cons_of_mem {as : List String} {a : String} (ha : a ∈ as)
    (bs : List String) : (as ++ a :: bs).eraseDups = (as ++ bs).eraseDups := by
  have hskip : (a :: bs).removeAll as = bs.removeAll as := by
    refine List.filter_cons_of_neg ?_
    simpa using ha
  rw [List.eraseDups_append, List.eraseDups_append, hskip]

namespace OrderedMap

variable {α : Type}

/-- The map that results from inserting the pairs of a list from left to right. -/
def insertAll (m : OrderedMap α) (pairs : List (String × α)) : OrderedMap α :=
  pairs.foldl (fun m p => m.insert p.1 p.2) m

@[simp] theorem insertAll_nil (m : OrderedMap α) : m.insertAll [] = m := rfl

theorem insertAll_cons (m : OrderedMap α) (p : String × α) (pairs : List (String × α)) :
    m.insertAll (p :: pairs) = (m.insert p.1 p.2).insertAll pairs := rfl

theorem insertAll_append (m : OrderedMap α) (pairs more : List (String × α)) :
    m.insertAll (pairs ++ more) = (m.insertAll pairs).insertAll more := List.foldl_append

/-- The names stand in the order in which they came first. -/
theorem keys_insertAll (m : OrderedMap α) (pairs : List (String × α)) :
    (m.insertAll pairs).keys = (m.keys ++ pairs.map Prod.fst).eraseDups := by
  induction pairs generalizing m with
  | nil =>
    rw [insertAll_nil, List.map_nil, List.append_nil]
    exact (eraseDups_of_nodup m.nodup).symm
  | cons p pairs ih =>
    rw [insertAll_cons, ih, keys_insert, List.map_cons]
    split
    · next hmem => exact (eraseDups_append_cons_of_mem hmem _).symm
    · rw [List.append_assoc, List.singleton_append]

/-- A name has the value that it was given last. -/
theorem get?_insertAll (m : OrderedMap α) (pairs : List (String × α)) (key : String) :
    (m.insertAll pairs).get? key = (pairs.reverse.lookup key).or (m.get? key) := by
  induction pairs generalizing m with
  | nil => rfl
  | cons p pairs ih =>
    have hone : ([p].lookup key).or (m.get? key) = (m.insert p.1 p.2).get? key := by
      rw [get?_insert, List.lookup_cons]
      by_cases h : key = p.1
      · rw [if_pos h, h, BEq.rfl]
        rfl
      · rw [if_neg h, beq_false_of_ne h]
        rfl
    rw [insertAll_cons, ih, List.reverse_cons, List.lookup_append, Option.or_assoc, hone]

theorem entries_insertAll {m : OrderedMap α} {pairs : List (String × α)}
    (h : ((m.entries ++ pairs).map Prod.fst).Nodup) :
    (m.insertAll pairs).entries = m.entries ++ pairs := by
  induction pairs generalizing m with
  | nil => exact (List.append_nil _).symm
  | cons p pairs ih =>
    have hp : p.1 ∉ m.entries.map Prod.fst := by
      intro hmem
      rw [List.map_append, List.nodup_append] at h
      exact h.2.2 p.1 hmem p.1 List.mem_cons_self rfl
    have hentries : (m.insert p.1 p.2).entries = m.entries ++ [p] := insertEntry_of_not_mem hp p.2
    rw [List.append_cons, ← hentries] at h
    rw [insertAll_cons, ih h, hentries, ← List.append_cons]

/-- The entries of a map make it again. -/
theorem ofList_entries (m : OrderedMap α) : ofList m.entries = m := by
  have hentries : (ofList m.entries).entries = m.entries := entries_insertAll m.nodup
  generalize ofList m.entries = m' at hentries
  obtain ⟨entries, _⟩ := m
  obtain ⟨entries', _⟩ := m'
  cases hentries
  rfl

/-- The pairs have been inserted into the map `m`, one after another, and `m'` is the result. -/
structure Receives (m : OrderedMap α) (pairs : List (String × α)) (m' : OrderedMap α) : Prop where
  distinct : m'.keys.Nodup
  /-- New names stand behind the others, in the order in which they came first. -/
  order : m'.keys = (m.keys ++ pairs.map Prod.fst).eraseDups
  /-- The last pair with a name counts, and without one the name is as before. -/
  latest (key : String) : m'.get? key = (pairs.reverse.lookup key).or (m.get? key)

theorem receives_insertAll (m : OrderedMap α) (pairs : List (String × α)) :
    m.Receives pairs (m.insertAll pairs) where
  distinct := (m.insertAll pairs).nodup
  order := m.keys_insertAll pairs
  latest := m.get?_insertAll pairs

/-- The names from before come first, and then the new ones. -/
theorem Receives.keys_eq {m m' : OrderedMap α} {pairs : List (String × α)}
    (h : m.Receives pairs m') :
    m'.keys = m.keys ++ ((pairs.map Prod.fst).removeAll m.keys).eraseDups := by
  have hkeys : m.keys.eraseDups = m.keys := eraseDups_of_nodup m.nodup
  rw [h.order, List.eraseDups_append, hkeys]

end OrderedMap

end Scriptlet
