/-!
# Safe entry names

An entry name is read as a path below the place where an archive is unpacked, with the slash and
the backslash as separators. `EntryName.isSafe` holds of the names that stay below it: relative
ones without a drive that never go up.
-/

namespace PackageScan

namespace EntryName

/-- A name with every backslash replaced by a slash. -/
def normalize (name : List Char) : List Char :=
  name.map fun c => if c = '\\' then '/' else c

/-- The parts of a name between slashes; there is always at least one. -/
def segments : List Char → List (List Char)
  | [] => [[]]
  | c :: cs =>
    if c = '/' then [] :: segments cs
    else
      match segments cs with
      | segment :: rest => (c :: segment) :: rest
      | [] => [[c]]

/-- Does the name start with the letter of a drive? -/
def hasDrive : List Char → Bool
  | c :: ':' :: _ => c.isAlpha
  | _ => false

/-- Is the name a relative path that never goes up? -/
def isSafe (name : String) : Bool :=
  let cs := name.toList
  let path := normalize cs
  !cs.isEmpty && !cs.contains '\x00' && path.head? != some '/' && !hasDrive path &&
    !(segments path).contains ['.', '.']

end EntryName

end PackageScan
