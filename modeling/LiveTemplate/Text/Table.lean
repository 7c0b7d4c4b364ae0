/-!
# Tables

Entries under text keys, in the order of the keys' code points. Inserting keeps the
order and replaces what was under the key, so a table that is built by inserting has
one entry for each of its keys.

## Main definitions

* `Table`: Entries under keys.
* `Table.find?`: The entry under a key.
* `Table.insert`, `Table.erase`, `Table.update`: Changes to one entry.
* `Table.ofList`: The table of several entries, the last one under each key.
* `Table.keys`: The keys in order.

## Theorems

* `find?_insert`, `find?_update`: What is under a key after a change.
-/

namespace LiveTemplate

/-- Entries under keys, in the order of the keys. -/
abbrev Table (α : Type) := List (String × α)

namespace Table

variable {α : Type}

/-- The first entry under a key. -/
def find? (key : String) : Table α → Option α
  | [] => none
  | (k, a) :: rest => if k = key then some a else find? key rest

/-- Puts an entry under a key, in place of the one that is there. -/
def insert (key : String) (a : α) : Table α → Table α
  | [] => [(key, a)]
  | (k, b) :: rest =>
    if k = key then (key, a) :: rest
    else if key < k then (key, a) :: (k, b) :: rest
    else (k, b) :: insert key a rest

/-- Removes the first entry under a key. -/
def erase (key : String) : Table α → Table α
  | [] => []
  | (k, a) :: rest => if k = key then rest else (k, a) :: erase key rest

/-- Changes the first entry under a key. -/
def update (key : String) (change : α → α) : Table α → Table α
  | [] => []
  | (k, a) :: rest => if k = key then (k, change a) :: rest else (k, a) :: update key change rest

/-- Puts several entries into a table, first to last. -/
def insertAll (entries : List (String × α)) (t : Table α) : Table α :=
  entries.foldl (fun t (key, a) => insert key a t) t

/-- The table of several entries, of which the last one under each key counts. -/
def ofList (entries : List (String × α)) : Table α :=
  insertAll entries []

/-- The keys in order. -/
def keys (t : Table α) : List String :=
  t.map (·.1)

theorem find?_insert (t : Table α) (key k : String) (a : α) :
    find? k (insert key a t) = if key = k then some a else find? k t := by
  induction t with
  | nil => rfl
  | cons entry rest ih =>
      obtain ⟨l, b⟩ := entry
      simp only [insert]
      split
      · next h =>
          subst h
          by_cases hk : l = k
          · simp only [find?, hk, if_true]
          · simp only [find?, hk, if_false]
      · next h =>
          split
          · rfl
          · simp only [find?, ih]
            by_cases hk : l = k
            · have hne : ¬key = k := fun hkey => h (hk.trans hkey.symm)
              simp only [hk, if_true, hne, if_false]
            · simp only [hk, if_false]

theorem find?_update (t : Table α) (key k : String) (change : α → α) :
    find? k (update key change t) = if key = k then (find? k t).map change else find? k t := by
  induction t with
  | nil => simp only [update, find?, Option.map_none, ite_self]
  | cons entry rest ih =>
      obtain ⟨l, b⟩ := entry
      simp only [update]
      split
      · next h =>
          subst h
          by_cases hk : l = k
          · simp only [find?, hk, if_true, Option.map_some]
          · simp only [find?, hk, if_false]
      · next h =>
          simp only [find?, ih]
          by_cases hk : l = k
          · have hne : ¬key = k := fun hkey => h (hk.trans hkey.symm)
            simp only [hk, if_true, hne, if_false]
          · simp only [hk, if_false]

end Table

end LiveTemplate
