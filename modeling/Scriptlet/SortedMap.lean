/-!
# Maps kept in key order

A finite map is a list of entries in increasing order of their keys.  Writing a key replaces the
entry it had, so the last write wins and reading the entries lists the keys in order.
-/

namespace Scriptlet

/-- A finite map from keys to values, as the list of its entries. -/
structure SortedMap (κ α : Type) where
  entries : List (κ × α)
  deriving Repr, BEq, DecidableEq

namespace SortedMap

variable {κ α β : Type}

/-- The map without entries. -/
def empty : SortedMap κ α := ⟨[]⟩

instance : Inhabited (SortedMap κ α) := ⟨empty⟩

/-- Write an entry into a list of entries, before the first larger key. -/
def insertEntry [DecidableEq κ] [LT κ] [DecidableLT κ] (k : κ) (v : α) :
    List (κ × α) → List (κ × α)
  | [] => [(k, v)]
  | (k', v') :: rest =>
    if k = k' then (k, v) :: rest
    else if k < k' then (k, v) :: (k', v') :: rest
    else (k', v') :: insertEntry k v rest

/-- Write a key. -/
def insert [DecidableEq κ] [LT κ] [DecidableLT κ] (m : SortedMap κ α) (k : κ) (v : α) :
    SortedMap κ α :=
  ⟨insertEntry k v m.entries⟩

/-- Read a key. -/
def find? [DecidableEq κ] (m : SortedMap κ α) (k : κ) : Option α := m.entries.lookup k

/-- Write all entries of a list in turn. -/
def ofList [DecidableEq κ] [LT κ] [DecidableLT κ] (entries : List (κ × α)) : SortedMap κ α :=
  entries.foldl (fun m e => m.insert e.1 e.2) empty

/-- Change every value. -/
def map (f : α → β) (m : SortedMap κ α) : SortedMap κ β :=
  ⟨m.entries.map fun e => (e.1, f e.2)⟩

/-- Reading an entry list that starts with a given entry. -/
theorem lookup_entry_cons [DecidableEq κ] (k k' : κ) (v : α) (es : List (κ × α)) :
    ((k, v) :: es).lookup k' = if k' = k then some v else es.lookup k' := by
  by_cases h : k' = k
  · simp [h]
  · have hb : (k' == k) = false := beq_false_of_ne h
    simp [List.lookup_cons, hb, h]

/-- Reading an entry list after a write: the written key gives the written value, and every other
key what it gave before. -/
theorem lookup_insertEntry [DecidableEq κ] [LT κ] [DecidableLT κ] (k k' : κ) (v : α)
    (es : List (κ × α)) :
    (insertEntry k v es).lookup k' = if k' = k then some v else es.lookup k' := by
  induction es with
  | nil => rw [insertEntry, lookup_entry_cons]
  | cons e rest ih =>
    obtain ⟨j, w⟩ := e
    simp only [insertEntry]
    split
    · next hj => grind [lookup_entry_cons]
    · split
      · rw [lookup_entry_cons]
      · grind [lookup_entry_cons]

/-- A write is read back, and leaves every other key alone. -/
@[simp] theorem find?_insert [DecidableEq κ] [LT κ] [DecidableLT κ] (m : SortedMap κ α) (k k' : κ)
    (v : α) : (m.insert k v).find? k' = if k' = k then some v else m.find? k' :=
  lookup_insertEntry k k' v m.entries

end SortedMap

end Scriptlet
