/-!
# Dictionaries in key order

A dictionary is a list of keys and values in strictly increasing order of the keys, so that
walking it is the same as walking the keys in the order of their code points.
`Dictionary.insert` keeps the order and replaces the value of a key that is already there.
-/

namespace PackageScan

/-- A list of keys and values in increasing order of the keys. -/
abbrev Dictionary (α : Type) := List (String × α)

namespace Dictionary

variable {α : Type}

/-- Sets the value of a key. -/
def insert (key : String) (value : α) : Dictionary α → Dictionary α
  | [] => [(key, value)]
  | (k, v) :: rest =>
    if key = k then (key, value) :: rest
    else if key < k then (key, value) :: (k, v) :: rest
    else (k, v) :: insert key value rest

/-- The value of a key. -/
def find? (d : Dictionary α) (key : String) : Option α :=
  List.lookup key d

/-- Is the key there? -/
def has (d : Dictionary α) (key : String) : Bool := (d.find? key).isSome

/-- Sets one key after another, so that the last value of a key stays. -/
def insertAll (d : Dictionary α) (pairs : List (String × α)) : Dictionary α :=
  pairs.foldl (fun acc pair => insert pair.1 pair.2 acc) d

/-- The dictionary of a list of pairs; the last value of a key stays. -/
def ofPairs (pairs : List (String × α)) : Dictionary α := insertAll [] pairs

end Dictionary

/-- A set of texts, listed in increasing order without repetition. -/
abbrev NameSet := List String

namespace NameSet

/-- Adds a name to the set. -/
def insert (name : String) : NameSet → NameSet
  | [] => [name]
  | n :: rest =>
    if name = n then n :: rest
    else if name < n then name :: n :: rest
    else n :: insert name rest

/-- The set of the names in a list. -/
def ofList (names : List String) : NameSet :=
  names.foldl (fun acc name => insert name acc) []

end NameSet

end PackageScan
