/-!
# Tables

A table is a finite map from strings, held as a list of entries in increasing order of their keys.
The order makes tables canonical: two tables with the same look-ups are equal.
-/

namespace RichStyle

/-- A finite map from strings, its entries in increasing order of keys. -/
structure Table (α : Type) where
  entries : List (String × α)
  sorted : entries.Pairwise fun a b => a.1 < b.1

namespace Table

variable {α : Type}

instance [DecidableEq α] : DecidableEq (Table α) := fun a b =>
  if h : a.entries = b.entries then
    isTrue (by cases a; cases b; simp_all)
  else
    isFalse fun e => h (e ▸ rfl)

def empty : Table α := ⟨[], List.Pairwise.nil⟩

def isEmpty (t : Table α) : Bool :=
  t.entries.isEmpty

/-- The value of the first entry with a key. -/
def lookup (key : String) : List (String × α) → Option α
  | [] => none
  | (k, v) :: entries => if k = key then some v else lookup key entries

def get? (t : Table α) (key : String) : Option α :=
  lookup key t.entries

/-- Puts an entry at its place among sorted ones; an entry with the same key gives way. -/
def insertEntry (key : String) (value : α) : List (String × α) → List (String × α)
  | [] => [(key, value)]
  | (k, v) :: entries =>
      if key < k then (key, value) :: (k, v) :: entries
      else if k < key then (k, v) :: insertEntry key value entries
      else (key, value) :: entries

theorem mem_insertEntry {key : String} {value : α} {entries : List (String × α)}
    {e : String × α} (h : e ∈ insertEntry key value entries) :
    e = (key, value) ∨ e ∈ entries := by
  induction entries with
  | nil => simpa [insertEntry] using h
  | cons head entries ih =>
      obtain ⟨k, v⟩ := head
      unfold insertEntry at h
      split at h
      · simpa using h
      · split at h
        · rcases List.mem_cons.1 h with rfl | h
          · simp
          · rcases ih h with rfl | h
            · simp
            · simp [h]
        · rcases List.mem_cons.1 h with rfl | h
          · simp
          · simp [h]

theorem insertEntry_sorted {key : String} {value : α} {entries : List (String × α)}
    (h : entries.Pairwise fun a b => a.1 < b.1) :
    (insertEntry key value entries).Pairwise fun a b => a.1 < b.1 := by
  induction entries with
  | nil => simp [insertEntry]
  | cons head entries ih =>
      obtain ⟨k, v⟩ := head
      obtain ⟨hhead, htail⟩ := List.pairwise_cons.1 h
      unfold insertEntry
      split
      · next hlt =>
          refine List.pairwise_cons.2 ⟨?_, h⟩
          intro e he
          rcases List.mem_cons.1 he with rfl | he
          · exact hlt
          · exact String.lt_trans hlt (hhead e he)
      · split
        · next hgt =>
            refine List.pairwise_cons.2 ⟨?_, ih htail⟩
            intro e he
            rcases mem_insertEntry he with rfl | he
            · exact hgt
            · exact hhead e he
        · next hnlt hngt =>
            have heq : k = key :=
              String.le_antisymm (String.not_lt.1 hnlt) (String.not_lt.1 hngt)
            subst heq
            exact List.pairwise_cons.2 ⟨hhead, htail⟩

def insert (t : Table α) (key : String) (value : α) : Table α :=
  ⟨insertEntry key value t.entries, insertEntry_sorted t.sorted⟩

/-- The table with all entries of another put into it, one after the other. -/
def merge (t other : Table α) : Table α :=
  other.entries.foldl (fun acc e => acc.insert e.1 e.2) t

end Table

end RichStyle
