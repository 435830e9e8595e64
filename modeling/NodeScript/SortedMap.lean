/-!
Finite maps from words to values, held as a list of entries in ascending order of their keys.
-/
namespace NodeScript

/-- Entries by key. All operations keep the keys in ascending order, each key once. -/
structure SortedMap (κ : Type) (ν : Type) where
  entries : List (κ × ν)

namespace SortedMap

variable {κ ν : Type}

def empty : SortedMap κ ν := ⟨[]⟩

def values (m : SortedMap κ ν) : List ν := m.entries.map (·.2)

def size (m : SortedMap κ ν) : Nat := m.entries.length

variable [DecidableEq κ] [LT κ] [DecidableLT κ]

def find? (m : SortedMap κ ν) (key : κ) : Option ν :=
  (m.entries.find? fun entry => entry.1 == key).map (·.2)

def insertEntry (key : κ) (value : ν) : List (κ × ν) → List (κ × ν)
  | [] => [(key, value)]
  | entry :: rest =>
    if key = entry.1 then (key, value) :: rest
    else if key < entry.1 then (key, value) :: entry :: rest
    else entry :: insertEntry key value rest

/-- Sets the value of a key. -/
def insert (m : SortedMap κ ν) (key : κ) (value : ν) : SortedMap κ ν :=
  ⟨insertEntry key value m.entries⟩

/-- Gives a key a value unless it has one. -/
def supplyEntry (key : κ) (value : ν) : List (κ × ν) → List (κ × ν)
  | [] => [(key, value)]
  | entry :: rest =>
    if key = entry.1 then entry :: rest
    else if key < entry.1 then (key, value) :: entry :: rest
    else entry :: supplyEntry key value rest

/-- The map of entries in any order. Of two with one key the later counts. -/
def ofEntries (entries : List (κ × ν)) : SortedMap κ ν :=
  ⟨entries.foldr (fun entry rest => supplyEntry entry.1 entry.2 rest) []⟩

def erase (m : SortedMap κ ν) (key : κ) : SortedMap κ ν :=
  ⟨m.entries.filter fun entry => entry.1 != key⟩

end SortedMap

end NodeScript
