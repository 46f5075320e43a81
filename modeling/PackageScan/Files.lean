/-!
# Files

`Files` tells what is at a path. `Files.ofList` is the working directory that holds the given
files: a path is walked one component after another, empty components and single dots stay where
they are, two dots go up, and every other component has to name something in the directory that
has been reached.
-/

namespace PackageScan

/-- What is at a path. -/
inductive FileNode where
  /-- A regular file with its bytes. -/
  | file (content : ByteArray)
  /-- A directory with what it holds, each under its name. -/
  | directory (children : List (String × FileNode))

namespace FileNode

/-- The path of something in a directory. -/
def joinPath (directory name : String) : String :=
  if directory.endsWith "/" then directory ++ name else directory ++ "/" ++ name

mutual

/-- All regular files at or below a path, each with its path and its bytes. -/
def filesAt (path : String) : FileNode → List (String × ByteArray)
  | .file content => [(path, content)]
  | .directory children => filesIn path children

/-- All regular files in a directory or below it. -/
def filesIn (path : String) : List (String × FileNode) → List (String × ByteArray)
  | [] => []
  | (name, node) :: rest => filesAt (joinPath path name) node ++ filesIn path rest

end

/-- Sets what is under a name. -/
def setChild (name : String) (node : FileNode) :
    List (String × FileNode) → List (String × FileNode)
  | [] => [(name, node)]
  | (n, old) :: rest => if n = name then (n, node) :: rest else (n, old) :: setChild name node rest

/-- Puts a file into a directory, at a path below it, with the directories on the way. -/
def putFile (content : ByteArray) :
    List String → List (String × FileNode) → List (String × FileNode)
  | [], children => children
  | [name], children => setChild name (.file content) children
  | name :: path, children =>
    let below := match children.lookup name with
      | some (.directory below) => below
      | _ => []
    setChild name (.directory (putFile content path below)) children

end FileNode

/-- The files at hand: what is at a path, if there is anything. -/
abbrev Files := String → Option FileNode

namespace Files

/-- Is there anything at the path? -/
def has (files : Files) (path : String) : Bool := (files path).isSome

/-- Is there a directory at the path? -/
def isDirectory (files : Files) (path : String) : Bool :=
  match files path with
  | some (.directory _) => true
  | _ => false

/-- The bytes of the regular file at the path. -/
def read? (files : Files) (path : String) : Option ByteArray :=
  match files path with
  | some (.file content) => some content
  | _ => none

/-! ### Reading and writing text -/

/-- Why a file cannot be read or written as text. -/
inductive Fault where
  /-- There is nothing at the path. -/
  | missing
  /-- There is a directory at the path. -/
  | directory
  /-- The bytes are not UTF-8. -/
  | notText
  deriving DecidableEq, Repr

/-- What is wrong, in words. -/
def Fault.message : Fault → String
  | missing => "No such file or directory (os error 2)"
  | directory => "Is a directory (os error 21)"
  | notText => "stream did not contain valid UTF-8"

/-- The text of the file at the path. -/
def readText (files : Files) (path : String) : Except Fault String :=
  match files path with
  | none => .error .missing
  | some (.directory _) => .error .directory
  | some (.file content) =>
    match String.fromUTF8? content with
    | some text => .ok text
    | none => .error .notText

/-- The components of a path. -/
def components (path : String) : List String := (path.toList.splitOn '/').map String.ofList

/-- The path of the directory that a path leads into, and the name it has there. -/
def split (path : String) : String × String :=
  match (components path).reverse with
  | name :: [] => (".", name)
  | name :: above =>
    let directory := "/".intercalate above.reverse
    (if directory.isEmpty then "/" else directory, name)
  | [] => (".", "")

/-- Why no file can be written at the path, if none can. -/
def writeFault? (files : Files) (path : String) : Option Fault :=
  if files.isDirectory path || (split path).2.isEmpty then some .directory
  else if files.isDirectory (split path).1 then none
  else some .missing

/-! ### A working directory -/

/-- A component that stays in the directory it is in. -/
def stays (component : String) : Bool := component == "" || component == "."

/-- Walks the components of a path from a node; behind the node are those above it. Nothing is
known above the working directory but that there are directories. -/
def walk : List FileNode → List String → Option FileNode
  | place, [] => place.head?
  | place, component :: rest =>
    match place with
    | .directory children :: above =>
      if stays component then walk place rest
      else if component == ".." then
        if above.isEmpty then
          if rest.all fun c => stays c || c == ".." then some (.directory []) else none
        else walk above rest
      else
        match children.lookup component with
        | some node => walk (node :: place) rest
        | none => none
    | _ => none

/-- The directory with the given files; of two files at one path the last one counts. -/
def tree (files : List (String × ByteArray)) : List (String × FileNode) :=
  files.foldl (fun children (path, content) =>
    FileNode.putFile content ((components path).filter fun c => !stays c) children) []

/-- A working directory with the given files. -/
def ofList (files : List (String × ByteArray)) : Files :=
  let root := FileNode.directory (tree files)
  fun path =>
    if path.isEmpty then none
    else if path.startsWith "/" then
      if (components path).all fun c => stays c || c == ".." then some (.directory []) else none
    else walk [root] (components path)

end Files

end PackageScan
