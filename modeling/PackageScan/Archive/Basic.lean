import PackageScan.Archive.EntryName
import PackageScan.Files
import PackageScan.Log.Journal
import PackageScan.Zip.Content

/-!
# Archives

`Archive.openAt` reads and checks the table of entries of an archive once; content is read later,
one entry at a time. What an archive declares about itself is not trusted: an entry is refused
when more bytes than allowed come out of it, and the archive is given up when all content read so
far is more than allowed.

An *entry error* (`ArchiveError.isEntryError`) leaves the other entries readable.
-/

namespace PackageScan

/-- Bounds on an archive. -/
structure ArchiveLimits where
  /-- Most entries. -/
  maxEntries : Nat := 50000
  /-- Most bytes of one entry. -/
  maxEntrySize : Nat := 64 * 1024 * 1024
  /-- Most bytes of all entries. -/
  maxTotalSize : Nat := 512 * 1024 * 1024
  deriving DecidableEq, Repr

/-- The bounds as JSON. -/
def ArchiveLimits.toJson (l : ArchiveLimits) : Json :=
  .obj
    [("max_entries", .nat l.maxEntries), ("max_entry_size", .nat l.maxEntrySize),
      ("max_total_size", .nat l.maxTotalSize)]

/-- Why an archive as a whole cannot be read. -/
inductive Corruption where
  /-- It is no zip archive. -/
  | structure (fault : Zip.StructureFault)
  /-- There is nothing where the content of an entry should be. -/
  | entry (index : Nat) (fault : Zip.StructureFault)
  /-- It has too many entries. -/
  | tooManyEntries (count limit : Nat)
  /-- The name of an entry leads out of the archive. -/
  | unsafeName (name : String)
  /-- It declares too much content. -/
  | declaredSize (size limit : Nat)
  /-- It has too much content. -/
  | contentSize (limit : Nat)
  deriving DecidableEq, Repr

/-- What is wrong, in words. -/
def Corruption.message : Corruption → String
  | .structure fault => fault.message
  | entry index fault => s!"entry {index}: {fault.message}"
  | tooManyEntries count limit => s!"{count} entries exceeds the limit of {limit}"
  | unsafeName name => "unsafe entry name \"" ++ name ++ "\""
  | declaredSize size limit => s!"declared size {size} exceeds the limit of {limit}"
  | contentSize limit => s!"uncompressed content exceeds the limit of {limit}"

/-- Why an archive or an entry cannot be read. -/
inductive ArchiveError where
  /-- There is no file. -/
  | notFound (path : String)
  /-- The archive cannot be read. -/
  | corrupt (path : String) (reason : Corruption)
  /-- The entry cannot be read. -/
  | entryRead (name : String) (reason : Zip.ContentFault)
  /-- The entry is too large. -/
  | entryTooLarge (name : String) (size limit : Nat)
  deriving DecidableEq, Repr

namespace ArchiveError

/-- The error in words. -/
def message : ArchiveError → String
  | notFound path => s!"archive not found or not a readable file: {path}"
  | corrupt path reason => s!"corrupt archive {path}: {reason.message}"
  | entryRead name reason => "failed to read entry \"" ++ name ++ s!"\": {reason.message}"
  | entryTooLarge name size limit => "entry \"" ++ name ++ s!"\" is {size} bytes (max {limit})"

/-- The code under which the error is logged. -/
def code : ArchiveError → Code
  | notFound _ => .archiveNotFound
  | corrupt _ _ => .corruptArchive
  | entryRead _ _ => .entryReadFailure
  | entryTooLarge _ _ _ => .entryTooLarge

/-- Is the rest of the archive still readable? -/
def isEntryError : ArchiveError → Bool
  | entryRead _ _ | entryTooLarge _ _ _ => true
  | _ => false

end ArchiveError

/-- An archive that has been opened. -/
structure Archive where
  /-- Where it was opened. -/
  path : String
  /-- Its bytes. -/
  data : ByteArray
  /-- Its entries in the order of its directory. -/
  entries : List Zip.Record
  /-- Bounds on reading it. -/
  limits : ArchiveLimits
  /-- Number of bytes of content read so far. -/
  bytesRead : Nat := 0

/-- Is the entry a directory? Its name ends with a separator then. -/
def Zip.Record.isDirectory (r : Zip.Record) : Bool :=
  match r.name.toList.getLast? with
  | some c => c = '/' || c = '\\'
  | none => false

/-- Content of an entry, with the name of the entry. -/
structure ArchiveFile where
  /-- The name. -/
  name : String
  /-- The content. -/
  content : ByteArray

namespace Archive

/-- Largest size that is counted. -/
def sizeCap : Nat := 0xffffffffffffffff

/-! ### Opening -/

/-- The first entry, counted from `index` on, that is unacceptable, and why. -/
def firstCorrupt? (data : ByteArray) : Nat → List Zip.Record → Option Corruption
  | _, [] => none
  | index, r :: rest =>
    match Zip.contentStart data r with
    | .error fault => some (.entry index fault)
    | .ok _ =>
      if EntryName.isSafe r.name then firstCorrupt? data (index + 1) rest
      else some (.unsafeName r.name)

/-- The declared size of all content. -/
def declaredSize (entries : List Zip.Record) : Nat :=
  min ((entries.map Zip.Record.size).foldl (· + ·) 0) sizeCap

/-- The entries of an archive, if the archive is acceptable. -/
def readEntries (data : ByteArray) (limits : ArchiveLimits) :
    Except Corruption (List Zip.Record) := do
  let entries ← (Zip.directory data).mapError .structure
  if limits.maxEntries < entries.length then
    .error (.tooManyEntries entries.length limits.maxEntries)
  if let some corruption := firstCorrupt? data 0 entries then .error corruption
  let size := declaredSize entries
  if limits.maxTotalSize < size then .error (.declaredSize size limits.maxTotalSize)
  .ok entries

/-- The archive in a file. -/
def ofBytes (path : String) (data : ByteArray) (limits : ArchiveLimits) :
    Except ArchiveError Archive :=
  match readEntries data limits with
  | .ok entries => .ok { path, data, entries, limits }
  | .error corruption => .error (.corrupt path corruption)

/-- Opens an archive and logs that, or an entry name that leads out of it. -/
def openAt (files : Files) (path : String) (limits : ArchiveLimits) :
    Logged (Except ArchiveError Archive) := do
  match files.read? path with
  | none => return .error (.notFound path)
  | some data =>
    match ofBytes path data limits with
    | .error (.corrupt path (.unsafeName name)) =>
      Log.error .unsafeEntryPath "Archive entry escapes the archive root"
        [("archive", path), ("entry", name)]
      return .error (.corrupt path (.unsafeName name))
    | .error e => return .error e
    | .ok archive =>
      Log.debug "Archive opened"
        [("archive", path), ("entries", toString archive.entries.length),
          ("declared_size", toString (declaredSize archive.entries))]
      return .ok archive

/-! ### Reading -/

/-- What comes out of an entry, at most one byte more than the limit. -/
def pull (a : Archive) (r : Zip.Record) : Except Zip.ContentFault ByteArray :=
  Zip.pull a.data r (a.limits.maxEntrySize + 1)

/-- The content of an entry, and the archive after it has been read. -/
def read (a : Archive) (r : Zip.Record) : Except ArchiveError ByteArray × Archive :=
  let limit := a.limits.maxEntrySize
  if limit < r.size then (.error (.entryTooLarge r.name r.size limit), a)
  else
    match a.pull r with
    | .error fault => (.error (.entryRead r.name fault), a)
    | .ok content =>
      if limit < content.size then (.error (.entryTooLarge r.name content.size limit), a)
      else
        let a := { a with bytesRead := a.bytesRead + content.size }
        if a.limits.maxTotalSize < a.bytesRead then
          (.error (.corrupt a.path (.contentSize a.limits.maxTotalSize)), a)
        else (.ok content, a)

/-- The content of some entries one after another, directories left out. The first error that is
no entry error ends the walk. -/
def readAll : List Zip.Record → Archive → List (Except ArchiveError ArchiveFile) × Archive
  | [], a => ([], a)
  | r :: rest, a =>
    if r.isDirectory then readAll rest a
    else
      match a.read r with
      | (.ok content, a) =>
        let (files, a) := readAll rest a
        (.ok ⟨r.name, content⟩ :: files, a)
      | (.error e, a) =>
        if e.isEntryError then
          let (files, a) := readAll rest a
          (.error e :: files, a)
        else ([.error e], a)

/-- The content of all entries, directories left out. -/
def files (a : Archive) : List (Except ArchiveError ArchiveFile) × Archive :=
  readAll a.entries a

/-- Logs that the archive is not needed any more. -/
def close (a : Archive) : Logged Unit :=
  Log.debug "Archive closed" [("archive", a.path), ("bytes_read", toString a.bytesRead)]

end Archive

end PackageScan
