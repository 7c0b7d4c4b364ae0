/-!
# Heaps

A table that only grows. Each entry is named by its place, so names are given out in
order, never twice, and an entry can be changed but not removed.

## Main definitions

* `Heap`: The table.
* `Heap.get?`: The entry with a given name.
* `Heap.add`: One entry more, under the next name.
* `Heap.update`: A change to an entry.

## Theorems

* `get?_add`: Adding gives the new entry the next name and keeps the others.
* `get?_update`: Updating changes one entry.
* `size_add`, `size_update`: Only adding makes the table larger.
-/

namespace LiveTemplate

/-- A table whose entries are named by their places. -/
structure Heap (α : Type) where
  /-- The entries in the order in which they were added. -/
  cells : Array α := #[]

namespace Heap

variable {α : Type}

/-- The number of entries, which is also the next name. -/
def size (h : Heap α) : Nat :=
  h.cells.size

/-- The entry called `i`. -/
def get? (h : Heap α) (i : Nat) : Option α :=
  h.cells[i]?

/-- The table with one entry more. -/
def add (h : Heap α) (a : α) : Heap α :=
  ⟨h.cells.push a⟩

/-- The table with the entry called `i` changed. -/
def update (h : Heap α) (i : Nat) (change : α → α) : Heap α :=
  ⟨h.cells.modify i change⟩

theorem get?_add (h : Heap α) (a : α) (i : Nat) :
    (h.add a).get? i = if i = h.size then some a else h.get? i :=
  Array.getElem?_push

theorem size_add (h : Heap α) (a : α) : (h.add a).size = h.size + 1 :=
  Array.size_push a

theorem get?_update (h : Heap α) (i j : Nat) (change : α → α) :
    (h.update i change).get? j = if i = j then (h.get? j).map change else h.get? j := by
  simp only [get?, update, Array.getElem?_modify]

theorem size_update (h : Heap α) (i : Nat) (change : α → α) :
    (h.update i change).size = h.size :=
  Array.size_modify

end Heap

end LiveTemplate
