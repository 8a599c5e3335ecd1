/-!
# Stores of shared cells

Arrays, objects, instances, classes and scopes are shared: a value holds a
reference, and everyone who holds the same reference sees the same contents. A
`Store` keeps the contents of all cells of one sort, and a `Ref` names one of
them. A reference is made only by `Store.alloc`, so two references are equal
exactly when they were made by the same allocation.
-/

namespace Scriptlet

/-- The sorts of shared cells. -/
inductive CellSort where
  | scope
  | array
  | object
  | inst
  | klass
  deriving DecidableEq, Repr

/-- The name of a cell of sort `s`. -/
structure Ref (s : CellSort) where
  index : Nat
  deriving DecidableEq, Repr, Inhabited

/-- The contents of the cells of sort `s`. -/
structure Store (s : CellSort) (α : Type) where
  cells : Array α
  deriving Inhabited

namespace Store

variable {s : CellSort} {α : Type}

/-- The store without cells. -/
def empty : Store s α := ⟨#[]⟩

/-- The number of cells. -/
def size (st : Store s α) : Nat := st.cells.size

/-- The contents of a cell; `none` if the store has no such cell. -/
def get? (st : Store s α) (r : Ref s) : Option α := st.cells[r.index]?

/-- The name that the next new cell will have. -/
def next (st : Store s α) : Ref s := ⟨st.cells.size⟩

/-- Adds a cell that holds `a`; its name is `st.next`. -/
def alloc (st : Store s α) (a : α) : Store s α := ⟨st.cells.push a⟩

/-- Changes the contents of one cell. -/
def modify (st : Store s α) (r : Ref s) (f : α → α) : Store s α := ⟨st.cells.modify r.index f⟩

theorem get?_alloc (st : Store s α) (a : α) (r : Ref s) :
    (st.alloc a).get? r = if r = st.next then some a else st.get? r := by
  obtain ⟨i⟩ := r
  simp only [get?, alloc, next, Ref.mk.injEq, Array.getElem?_push]

theorem get?_modify (st : Store s α) (r r' : Ref s) (f : α → α) :
    (st.modify r f).get? r' = if r' = r then (st.get? r').map f else st.get? r' := by
  obtain ⟨i⟩ := r
  obtain ⟨j⟩ := r'
  simp only [get?, modify, Ref.mk.injEq, Array.getElem?_modify, eq_comm (a := i)]

@[simp] theorem size_alloc (st : Store s α) (a : α) : (st.alloc a).size = st.size + 1 := by
  simp [size, alloc]

@[simp] theorem size_modify (st : Store s α) (r : Ref s) (f : α → α) :
    (st.modify r f).size = st.size := by
  simp [size, modify]

end Store

end Scriptlet
