import PackageScan.Proofs.Archive.Sweeping
import PackageScan.Proofs.Log.Notices

/-!
# Entry names in the log of a sweep

A sweep quotes the names of entries in three places (`Archive.quotedNames`): the name for which an
archive is refused, that of an entry which cannot be read, and that of an entry which is not UTF-8.
Everything else that it logs is text of its own, a number, or the path of the archive.

A name is quoted as it is, and the check of names lets line breaks pass. So the events of a sweep
are on single lines unless a name with a line break is quoted, and then an event has all of that
name in it (`events_of_sweepArchive`): what follows the line break in the name starts a line of the
log.
-/

namespace PackageScan

open Logged

/-! ### Errors about entries -/

private theorem Zip.StructureFault.isSingleLine_message (fault : Zip.StructureFault) :
    IsSingleLine fault.message := by
  cases fault <;> decide

private theorem Zip.ContentFault.isSingleLine_message : (fault : Zip.ContentFault) →
    IsSingleLine fault.message
  | .structure fault => fault.isSingleLine_message
  | .encrypted => by decide
  | .unknownMethod => by decide
  | .corruptStream => by decide
  | .wrongChecksum => by decide

namespace ArchiveError

variable {e : ArchiveError} {name : String}

/-- The name of the entry that an error is about. -/
def entryName? : ArchiveError → Option String
  | entryRead name _ => some name
  | entryTooLarge name _ _ => some name
  | notFound _ => none
  | corrupt _ _ => none

/-- The name for which an archive is refused. -/
def refusedName? : ArchiveError → Option String
  | corrupt _ (.unsafeName name) => some name
  | _ => none

private theorem exists_entryName (h : e.isEntryError = true) :
    ∃ name, e.entryName? = some name := by
  cases e with
  | entryRead name _ | entryTooLarge name _ _ => exact ⟨name, rfl⟩
  | notFound _ | corrupt _ _ => exact absurd h Bool.false_ne_true

private theorem entryName?_eq_none (h : e.isEntryError = false) : e.entryName? = none := by
  cases e with
  | entryRead _ _ | entryTooLarge _ _ _ => exact absurd h.symm Bool.false_ne_true
  | notFound _ | corrupt _ _ => rfl

/-- An error about an entry is written with the name of the entry between plain texts. -/
private theorem exists_message_eq (h : e.entryName? = some name) :
    ∃ front back, IsSingleLine front ∧ IsSingleLine back ∧ e.message = front ++ name ++ back := by
  cases e with
  | notFound _ | corrupt _ _ => exact nomatch h
  | entryRead n fault =>
    obtain rfl := Option.some.inj h
    refine ⟨_, _, ?_, ?_, rfl⟩
    · decide
    · exact isSingleLine_append.mpr ⟨by decide, fault.isSingleLine_message⟩
  | entryTooLarge n size limit =>
    obtain rfl := Option.some.inj h
    refine ⟨_, _, ?_, ?_, rfl⟩
    · decide
    · simp only [isSingleLine_append]
      exact ⟨⟨⟨⟨by decide, isSingleLine_toString _⟩, by decide⟩, isSingleLine_toString _⟩,
        by decide⟩

private theorem isInfix_message (h : e.entryName? = some name) :
    name.toList <:+: e.message.toList := by
  obtain ⟨front, back, -, -, hmessage⟩ := exists_message_eq h
  rw [hmessage, String.toList_append, String.toList_append]
  exact List.infix_append _ _ _

private theorem isSingleLine_message (h : e.entryName? = some name) (hname : IsSingleLine name) :
    IsSingleLine e.message := by
  obtain ⟨front, back, hfront, hback, hmessage⟩ := exists_message_eq h
  rw [hmessage, isSingleLine_append, isSingleLine_append]
  exact ⟨⟨hfront, hname⟩, hback⟩

private theorem isSingleLine_code : (e : ArchiveError) → IsSingleLine e.code.text
  | notFound _ => (by decide : IsSingleLine Code.archiveNotFound.text)
  | corrupt _ _ => (by decide : IsSingleLine Code.corruptArchive.text)
  | entryRead _ _ => (by decide : IsSingleLine Code.entryReadFailure.text)
  | entryTooLarge _ _ _ => (by decide : IsSingleLine Code.entryTooLarge.text)

end ArchiveError

/-! ### Names that are quoted -/

namespace Archive

open Notice (isSingleLine_nil isSingleLine_cons)

/-- The name that is quoted when an entry has been read: that of an entry which cannot be read, or
is not UTF-8. -/
def quotedName? : Except ArchiveError ArchiveFile → Option String
  | .ok file => if Utf8.isWellFormed file.content then none else some file.name
  | .error e => e.entryName?

/-- The names that are quoted in the log when the archive at a path is swept. -/
def quotedNames (files : Files) (path : String) (limits : ArchiveLimits) : List String :=
  match files.read? path with
  | none => []
  | some data =>
    match ofBytes path data limits with
    | .ok a => a.files.1.filterMap quotedName?
    | .error e => e.refusedName?.toList

variable {a : Archive} {files : Files} {path : String} {limits : ArchiveLimits} {data : ByteArray}
variable {e : ArchiveError}

/-- An archive that is opened is told by its path and by numbers. -/
private theorem tells_opened (hpath : IsSingleLine path) (entries size : Nat) :
    Tells (Log.debug "Archive opened"
      [("archive", path), ("entries", toString entries), ("declared_size", toString size)]) [] := by
  refine ⟨_, logs_debug _ _, Notice.tell_plain (Notice.isPlain_mk rfl (by decide) (by decide) ?_)⟩
  exact isSingleLine_cons (by decide) hpath
    (isSingleLine_cons (by decide) (isSingleLine_toString _)
      (isSingleLine_cons (by decide) (isSingleLine_toString _) isSingleLine_nil))

/-- So is one that is closed. -/
private theorem tells_close (ha : IsSingleLine a.path) : Tells a.close [] := by
  refine ⟨_, logs_debug _ _, Notice.tell_plain (Notice.isPlain_mk rfl (by decide) (by decide) ?_)⟩
  exact isSingleLine_cons (by decide) ha
    (isSingleLine_cons (by decide) (isSingleLine_toString _) isSingleLine_nil)

/-- An archive that is refused for a name is told by its path and the name. -/
private theorem tells_refused (hpath : IsSingleLine path) (name : String) :
    Tells (Log.error .unsafeEntryPath "Archive entry escapes the archive root"
      [("archive", path), ("entry", name)]) [name] := by
  refine ⟨_, logs_emit nofun, Notice.tell_name ?_ fun hname =>
    Notice.isPlain_mk rfl (by decide) (by decide) ?_⟩
  · exact ⟨rfl, Nat.zero_le _, "entry", name, rfl, List.infix_refl _⟩
  · exact isSingleLine_cons (by decide) hpath
      (isSingleLine_cons (by decide) hname isSingleLine_nil)

/-- Reading entries leaves an archive where it is. -/
private theorem path_readAll (rs : List Zip.Record) (a : Archive) :
    (readAll rs a).2.path = a.path := by
  induction rs generalizing a with
  | nil => rfl
  | cons r rest ih =>
    have hread : (a.read r).2.path = a.path := by
      rw [read_eq]
      cases a.contentOf r <;> rfl
    rw [readAll]
    split_ifs
    · exact ih a
    · rw [← hread]
      rcases a.read r with ⟨e | content, a⟩
      · dsimp only
        split_ifs
        · exact ih a
        · rfl
      · exact ih a

private theorem tells_openAt_of_ok (hpath : IsSingleLine path)
    (hread : files.read? path = some data)
    (h : ofBytes path data limits = .ok a) : Tells (openAt files path limits) [] := by
  rw [openAt, hread]
  dsimp only
  rw [h]
  exact (tells_opened hpath _ _).before (tells_pure _)

/-- An archive in a file is refused for what is corrupt in it. -/
private theorem exists_eq_corrupt (h : ofBytes path data limits = .error e) :
    ∃ reason, e = .corrupt path reason := by
  rw [ofBytes] at h
  cases hentries : readEntries data limits with
  | ok entries =>
    rw [hentries] at h
    cases h
  | error reason =>
    rw [hentries] at h
    exact ⟨reason, (Except.error.inj h).symm⟩

private theorem tells_openAt_of_error (hpath : IsSingleLine path)
    (hread : files.read? path = some data)
    (h : ofBytes path data limits = .error e) :
    Tells (openAt files path limits) e.refusedName?.toList := by
  obtain ⟨reason, rfl⟩ := exists_eq_corrupt h
  rw [openAt, hread]
  dsimp only
  rw [h]
  cases reason with
  | unsafeName name => exact (tells_refused hpath name).before (tells_pure _)
  | _ => exact tells_pure _

end Archive

/-! ### Sweeps -/

namespace Sweep

open Archive (quotedName?)
open Notice (isSingleLine_nil isSingleLine_cons)

variable {e : ArchiveError} {name : String}

/-- An entry that is left out is told by the error about it. -/
private theorem tells_skipped (h : e.entryName? = some name) :
    Tells (Log.error e.code "Skipping unreadable archive entry" [("error", e.message)]) [name] := by
  refine ⟨_, logs_emit nofun, Notice.tell_name ?_ fun hname =>
    Notice.isPlain_mk rfl e.isSingleLine_code ?_ ?_⟩
  · exact ⟨rfl, Nat.zero_le _, "error", e.message, rfl, ArchiveError.isInfix_message h⟩
  · exact (by decide : IsSingleLine "Skipping unreadable archive entry")
  · exact isSingleLine_cons (by decide) (ArchiveError.isSingleLine_message h hname)
      isSingleLine_nil

/-- An entry that is not UTF-8 is told by its name. -/
private theorem tells_undecodable (name : String) :
    Tells (Log.codedWarning .decodeReplacement "Entry is not valid UTF-8; matched as raw bytes"
      [("entry", name)]) [name] := by
  refine ⟨_, logs_emit nofun, Notice.tell_name ?_ fun hname =>
    Notice.isPlain_mk rfl (by decide) (by decide) ?_⟩
  · exact ⟨rfl, Nat.le_refl _, "entry", name, rfl, List.infix_refl _⟩
  · exact isSingleLine_cons (by decide) hname isSingleLine_nil

private theorem tells_addLogged (rules : RuleSet) (s : Sweep) (file : ArchiveFile) :
    Tells (s.addLogged rules file) (quotedName? (.ok file)).toList := by
  rw [addLogged, quotedName?]
  cases Utf8.isWellFormed file.content with
  | true => exact tells_pure _
  | false => exact (tells_undecodable file.name).before (tells_pure _)

/-- **A run.** Adding what an archive gives tells the names of the entries that cannot be read or
are not UTF-8. -/
theorem tells_addAll (rules : RuleSet) (rs : List Zip.Record) (a : Archive) (s : Sweep) :
    Tells (addAll rules (Archive.readAll rs a).1 s)
      ((Archive.readAll rs a).1.filterMap quotedName?) := by
  induction rs generalizing a s with
  | nil => exact tells_pure _
  | cons r rest ih =>
    rw [Archive.readAll]
    split_ifs
    · exact ih a s
    rcases a.read r with ⟨e | content, a⟩
    · dsimp only
      cases he : e.isEntryError with
      | true =>
        obtain ⟨name, hname⟩ := ArchiveError.exists_entryName he
        have hquoted : quotedName? (.error e) = some name := hname
        rw [if_pos rfl, List.filterMap_cons_some hquoted, addAll, if_pos he]
        exact (tells_skipped hname).before (ih a s.skip)
      | false =>
        -- the walk ends here, so that nothing is left to be added
        have hquoted : quotedName? (.error e) = none := ArchiveError.entryName?_eq_none he
        rw [if_neg Bool.false_ne_true, List.filterMap_cons_none hquoted, addAll,
          if_neg (by rw [he]; exact Bool.false_ne_true)]
        exact tells_pure _
    · dsimp only
      have hquoted : ∀ files, (.ok ⟨r.name, content⟩ :: files).filterMap quotedName? =
          (quotedName? (.ok ⟨r.name, content⟩)).toList ++ files.filterMap quotedName? := by
        intro files
        rw [List.filterMap_cons]
        cases quotedName? (.ok ⟨r.name, content⟩) <;> rfl
      rw [addAll, hquoted]
      exact (tells_addLogged rules s _).bind (addLogged_yields rules s _) (ih a _)

/-- A sweep that is through is told by the path and by numbers. -/
private theorem tells_scanned {path : String} (hpath : IsSingleLine path) (summary : Summary) :
    Tells (Log.success .archiveScanned "Archive scanned"
      [("archive", path), ("files", toString summary.scanned),
        ("skipped", toString summary.skipped), ("matches", toString summary.found)]) [] := by
  refine ⟨_, logs_emit nofun, Notice.tell_plain (Notice.isPlain_mk rfl (by decide) (by decide) ?_)⟩
  exact isSingleLine_cons (by decide) hpath
    (isSingleLine_cons (by decide) (isSingleLine_toString _)
      (isSingleLine_cons (by decide) (isSingleLine_toString _)
        (isSingleLine_cons (by decide) (isSingleLine_toString _) isSingleLine_nil)))

end Sweep

section

variable {path : String}

/-- A sweep tells the names. -/
private theorem tells_sweepArchive (rules : RuleSet) (files : Files) (hpath : IsSingleLine path)
    (limits : ArchiveLimits) :
    Tells (sweepArchive rules files path limits) (Archive.quotedNames files path limits) := by
  have hopen := Archive.openAt_yields files path limits
  rw [sweepArchive, Archive.quotedNames]
  cases hread : files.read? path with
  | none =>
    rw [hread] at hopen
    refine Tells.bind_nil ?_ hopen (tells_pure _)
    rw [Archive.openAt, hread]
    exact tells_pure _
  | some data =>
    rw [hread] at hopen
    dsimp only [Option.elim] at hopen ⊢
    cases harchive : Archive.ofBytes path data limits with
    | error e =>
      rw [harchive] at hopen
      exact (Archive.tells_openAt_of_error hpath hread harchive).bind_nil hopen (tells_pure _)
    | ok a =>
      rw [harchive] at hopen
      obtain ⟨rfl, -, -⟩ := Archive.eq_of_openAt (hopen {})
      obtain ⟨⟨s, outcome⟩, hadd⟩ := Sweep.exists_addAll_yields rules a.files.1 {}
      have htell := Sweep.tells_addAll rules a.entries a {}
      refine (Archive.tells_openAt_of_ok hpath hread harchive).bind hopen
        (htell.bind_nil hadd ((Archive.tells_close ?_).before ?_))
      · rw [Archive.files, Archive.path_readAll]
        exact hpath
      · cases outcome with
        | error e => exact tells_pure _
        | ok _ => exact (Sweep.tells_scanned hpath s.summary).before (tells_pure _)

/-- **What a sweep logs.** Let the path and the scan in progress be named by texts on single lines.
An event of a sweep is on a single line unless it has a quoted name in it that is not; and if
warnings are recorded, each quoted name stands in an event as it is, with its line breaks. -/
theorem events_of_sweepArchive (rules : RuleSet) (files : Files) (path : String)
    (limits : ArchiveLimits) (j : Journal) (hpath : IsSingleLine path) (hscope : j.HasPlainScope) :
    let names := Archive.quotedNames files path limits
    ∃ added, ((sweepArchive rules files path limits).run j).2.events = j.events ++ added ∧
      (∀ e ∈ added, IsSingleLine e.render ∨
        ∃ name ∈ names, ¬ IsSingleLine name ∧ name.toList <:+: e.render.toList) ∧
      (Level.warning.passes j.least = true →
        ∀ name ∈ names, ∃ e ∈ added, name.toList <:+: e.render.toList) :=
  (tells_sweepArchive rules files hpath limits).events hscope

/-- An archive with one entry, the name of which takes two lines, in place of every file. -/
def twoLines : Files := fun _ =>
  some (.file ⟨#[80, 75, 3, 4, 20, 0, 0, 0, 0, 0, 0, 0, 33, 0, 131, 22, 220, 140, 1, 0, 0, 0, 1, 0,
    0, 0, 3, 0, 0, 0, 97, 10, 98, 120, 80, 75, 1, 2, 20, 0, 20, 0, 0, 0, 0, 0, 0, 0, 33, 0, 131, 22,
    220, 140, 1, 0, 0, 0, 1, 0, 0, 0, 3, 0, 0, 0, 0, 0, 0, 0, 0, 0, 0, 0, 128, 1, 0, 0, 0, 0, 97,
    10, 98, 80, 75, 5, 6, 0, 0, 0, 0, 1, 0, 1, 0, 49, 0, 0, 0, 34, 0, 0, 0, 0, 0]⟩)

/-- No byte of the entry is allowed, so its name is quoted. -/
private theorem quotedNames_twoLines :
    Archive.quotedNames twoLines "a.zip" { maxEntrySize := 0 } = ["a\nb"] := by
  decide +kernel

theorem events_of_sweepArchive_twoLines :
    ∃ added, ((sweepArchive ⟨#[], #[]⟩ twoLines "a.zip" { maxEntrySize := 0 }).run {}).2.events =
        [] ++ added ∧
      (∀ e ∈ added, IsSingleLine e.render ∨ "a\nb".toList <:+: e.render.toList) ∧
      ∃ e ∈ added, "a\nb".toList <:+: e.render.toList := by
  obtain ⟨added, hevents, hlines, hquoted⟩ := events_of_sweepArchive ⟨#[], #[]⟩ twoLines "a.zip"
    { maxEntrySize := 0 } {} (by decide) (fun _ h => nomatch h)
  rw [quotedNames_twoLines] at hlines hquoted
  refine ⟨added, hevents, fun e he => (hlines e he).imp_right ?_, ?_⟩
  · rintro ⟨name, hname, -, hpart⟩
    rw [List.mem_singleton.mp hname] at hpart
    exact hpart
  · exact hquoted (by decide) "a\nb" (List.mem_singleton_self _)

/-- The event about that entry takes two lines. -/
theorem exists_event_not_isSingleLine :
    ∃ e ∈ ((sweepArchive ⟨#[], #[]⟩ twoLines "a.zip" { maxEntrySize := 0 }).run {}).2.events,
      ¬ IsSingleLine e.render := by
  have hpath : IsSingleLine "a.zip" := by decide
  have htell := tells_sweepArchive ⟨#[], #[]⟩ twoLines hpath { maxEntrySize := 0 }
  rw [quotedNames_twoLines] at htell
  obtain ⟨added, hevents, -, hquoted⟩ := htell.events (j := {}) fun _ h => nomatch h
  obtain ⟨e, he, hpart⟩ := hquoted (by decide) "a\nb" (List.mem_singleton_self _)
  refine ⟨e, hevents ▸ List.mem_append_right _ he, fun hline => ?_⟩
  exact absurd (IsSingleLine.of_isInfix hline hpart) (by decide)

end

end PackageScan
