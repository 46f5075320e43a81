/-!
# TOML documents

A document is a table. A table remembers how it has come about, because that decides what may
still be added to it: a table under its own header is complete once its lines are over, one that
was only named in the header of another table may still get a header of its own, one that was
named in a dotted key grows by dotted keys, and one in braces never grows.

`Toml.insert?` and `Toml.open?` say what a line and a header add, or that they may not.
-/

namespace PackageScan

/-- How a table has come about. -/
inductive TableOrigin where
  /-- It has a header, or is the document. -/
  | header
  /-- It is named in the header of another table. -/
  | implied
  /-- It is named in a dotted key. -/
  | dotted
  /-- It stands in braces. -/
  | braces
  deriving DecidableEq, Repr

/-- A value. -/
inductive Toml where
  /-- A text. -/
  | text (s : String)
  /-- A whole number. -/
  | integer (n : Int)
  /-- A number that need not be whole, as the bits of a double. -/
  | real (bits : UInt64)
  /-- A truth value. -/
  | boolean (b : Bool)
  /-- A date, a time of day or both, as written. -/
  | time (written : String)
  /-- A list in brackets. -/
  | array (items : List Toml)
  /-- A table. -/
  | table (origin : TableOrigin) (fields : List (String × Toml))
  /-- Tables under headers of one name. -/
  | tables (items : List (List (String × Toml)))

namespace Toml

/-- The fields of a table. -/
abbrev Fields := List (String × Toml)

/-- Sets the value of a key, in its place if it is there, else at the end. -/
def setField (key : String) (value : Toml) : Fields → Fields
  | [] => [(key, value)]
  | (k, v) :: rest => if k = key then (k, value) :: rest else (k, v) :: setField key value rest

/-- Can a table still get a header of its own, or more dotted keys? -/
def isOpen : TableOrigin → Bool
  | .implied | .dotted => true
  | .header | .braces => false

/-- Changes the table at a path below a table. Tables that are missing on the way come about as
the third argument says. A dotted key goes only through tables that are open; a header goes
through all but those in braces, and into the last one of tables that share a header. -/
def modifyAt? (change : TableOrigin → Fields → Option Fields) :
    (path : List String) → (missing : TableOrigin) → TableOrigin → Fields → Option Fields
  | [], _, origin, fields => change origin fields
  | key :: path, missing, _, fields => do
    let value ← match fields.lookup key with
      | none => do
        let below ← modifyAt? change path missing missing []
        some (table missing below)
      | some (table origin below) =>
        if origin = .braces || (missing = .dotted && !isOpen origin) then none
        else do
          let below ← modifyAt? change path missing origin below
          some (table origin below)
      | some (tables items) =>
        match items.getLast? with
        | none => none
        | some below => do
          let below ← modifyAt? change path missing .header below
          some (tables (items.dropLast ++ [below]))
      | some _ => none
    some (setField key value fields)

/-- Adds a key with its value to a table that the dotted key before it has led to. -/
def addField? (dotted : Bool) (key : String) (value : Toml) (origin : TableOrigin)
    (fields : Fields) : Option Fields :=
  if (origin == .dotted) != dotted then none
  else if (fields.lookup key).isSome then none
  else some (fields ++ [(key, value)])

/-- Adds a line with a dotted key to a table. -/
def insert? (path : List String) (key : String) (value : Toml) (origin : TableOrigin)
    (fields : Fields) : Option Fields :=
  modifyAt? (addField? (!path.isEmpty) key value) path .dotted origin fields

/-- Gives a table a header. -/
def giveHeader? (key : String) (_ : TableOrigin) (fields : Fields) : Option Fields :=
  match fields.lookup key with
  | none => some (fields ++ [(key, table .header [])])
  | some (table .implied below) => some (setField key (table .header below) fields)
  | some _ => none

/-- Adds a table to those that share a header. -/
def giveSharedHeader? (key : String) (_ : TableOrigin) (fields : Fields) : Option Fields :=
  match fields.lookup key with
  | none => some (fields ++ [(key, tables [[]])])
  | some (tables items) => some (setField key (tables (items ++ [[]])) fields)
  | some _ => none

/-- Opens the table of a header below the document. -/
def open? (shared : Bool) (path : List String) (key : String) (fields : Fields) : Option Fields :=
  modifyAt? (if shared then giveSharedHeader? key else giveHeader? key) path .implied .header fields

/-- Adds a line below a header. -/
def insertBelow? (here : List String) (path : List String) (key : String) (value : Toml)
    (fields : Fields) : Option Fields :=
  modifyAt? (insert? path key value) here .implied .header fields

end Toml

end PackageScan
