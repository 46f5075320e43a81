import Mathlib.Algebra.Ring.Nat
import Mathlib.Data.List.Induction
import PackageScan.Archive.Sweep
import PackageScan.Proofs.Dictionary
import PackageScan.Proofs.Log.Yielding

/-!
# A sweep is made entry by entry

What an entry gives when it is read depends on the archive and on nothing that was read before
(`Archive.contentOf`); only the number of bytes is carried from entry to entry. As long as they
are not too many, reading the archive is reading each of its entries
(`Archive.readAll_append`), and a sweep adds up what the entries contribute
(`Sweep.Covers`): the matches of those that can be read, a count of those that cannot.

The walk ends early in one way. The first entry whose content makes the bytes too many
(`Archive.Overruns`) gives an error of the archive as a whole; what comes after it in the directory
does not matter, and the sweep so far covers the entries before it.
-/

namespace PackageScan

open Logged

/-! ### Labels -/

/-- A label replaces what a match says about its entry and nothing else. -/
private theorem RuleMatch.find?_inEntry (m : RuleMatch) (name key : String) :
    (m.inEntry name).metaData.find? key =
      if key = "filename" then some name else m.metaData.find? key :=
  Dictionary.find?_insert

namespace Archive

variable {a : Archive} {r : Zip.Record} {rs entries front back : List Zip.Record}
variable {content : ByteArray} {e : ArchiveError}

/-! ### Entries on their own -/

/-- The entries that are no directories, in the order of the directory of the archive. -/
def members (entries : List Zip.Record) : List Zip.Record := entries.filter fun r => !r.isDirectory

/-- What an entry gives on its own: its content, unless more than allowed is declared or comes out,
or it cannot be decoded. -/
def contentOf (a : Archive) (r : Zip.Record) : Except ArchiveError ByteArray :=
  if a.limits.maxEntrySize < r.size then
    .error (.entryTooLarge r.name r.size a.limits.maxEntrySize)
  else
    match a.pull r with
    | .error fault => .error (.entryRead r.name fault)
    | .ok content =>
      if a.limits.maxEntrySize < content.size then
        .error (.entryTooLarge r.name content.size a.limits.maxEntrySize)
      else .ok content

/-- The content of an entry with its name. -/
def reading (a : Archive) (r : Zip.Record) : Except ArchiveError ArchiveFile :=
  (a.contentOf r).map fun content => ⟨r.name, content⟩

/-- Number of bytes that an entry gives; none if it cannot be read. -/
def bytesOf (a : Archive) (r : Zip.Record) : Nat :=
  match a.contentOf r with
  | .ok content => content.size
  | .error _ => 0

/-- Number of bytes that some entries give. -/
def totalSize (a : Archive) (rs : List Zip.Record) : Nat := (rs.map a.bytesOf).sum

/-- The archive after so many bytes more. -/
def counting (a : Archive) (n : Nat) : Archive := { a with bytesRead := a.bytesRead + n }

@[simp] theorem members_nil : members [] = [] := rfl

theorem members_cons_of_isDirectory (h : r.isDirectory = true) :
    members (r :: rs) = members rs :=
  List.filter_cons_of_neg (by simp [h])

theorem members_cons (h : r.isDirectory = false) : members (r :: rs) = r :: members rs :=
  List.filter_cons_of_pos (by simp [h])

theorem members_append (rs rs' : List Zip.Record) :
    members (rs ++ rs') = members rs ++ members rs' :=
  List.filter_append rs rs'

@[simp] theorem totalSize_nil (a : Archive) : a.totalSize [] = 0 := rfl

@[simp] theorem totalSize_cons (a : Archive) (r : Zip.Record) (rs : List Zip.Record) :
    a.totalSize (r :: rs) = a.bytesOf r + a.totalSize rs := by
  rw [totalSize, List.map_cons, List.sum_cons, totalSize]

private theorem totalSize_append (a : Archive) (rs rs' : List Zip.Record) :
    a.totalSize (rs ++ rs') = a.totalSize rs + a.totalSize rs' := by
  rw [totalSize, List.map_append, List.sum_append, totalSize, totalSize]

private theorem totalSize_le_of_prefix (a : Archive) {rs rs' : List Zip.Record} (h : rs <+: rs') :
    a.totalSize rs ≤ a.totalSize rs' := by
  obtain ⟨rest, rfl⟩ := h
  rw [totalSize_append]
  exact Nat.le_add_right _ _

theorem bytesOf_of_ok (h : a.contentOf r = .ok content) : a.bytesOf r = content.size := by
  rw [bytesOf, h]

theorem bytesOf_of_error (h : a.contentOf r = .error e) : a.bytesOf r = 0 := by
  rw [bytesOf, h]

theorem totalSize_members_concat (hr : r.isDirectory = false) (hc : a.contentOf r = .ok content)
    (front : List Zip.Record) :
    a.totalSize (members (front ++ [r])) = a.totalSize (members front) + content.size := by
  rw [members_append, totalSize_append, members_cons hr, totalSize_cons, bytesOf_of_ok hc]
  rfl

theorem counting_counting (a : Archive) (m n : Nat) :
    (a.counting m).counting n = a.counting (m + n) := by
  simp only [counting, Nat.add_assoc]

/-- An entry gives content when no more than allowed is declared or comes out. -/
theorem contentOf_eq_ok : a.contentOf r = .ok content ↔
    r.size ≤ a.limits.maxEntrySize ∧ a.pull r = .ok content ∧
      content.size ≤ a.limits.maxEntrySize := by
  rw [contentOf]
  by_cases hdeclared : a.limits.maxEntrySize < r.size
  · rw [if_pos hdeclared]
    exact iff_of_false (fun h => nomatch h) fun h => absurd hdeclared (Nat.not_lt.mpr h.1)
  · rw [if_neg hdeclared]
    cases a.pull r with
    | error fault => simp
    | ok unpacked =>
      dsimp only
      by_cases hsize : a.limits.maxEntrySize < unpacked.size
      · rw [if_pos hsize]
        refine iff_of_false (fun h => nomatch h) ?_
        rintro ⟨-, hpull, hle⟩
        cases hpull
        exact absurd hsize (Nat.not_lt.mpr hle)
      · rw [if_neg hsize]
        constructor
        · intro h
          cases h
          exact ⟨Nat.not_lt.mp hdeclared, rfl, Nat.not_lt.mp hsize⟩
        · rintro ⟨-, hpull, -⟩
          cases hpull
          rfl

/-- An entry that cannot be read leaves the others readable. -/
theorem isEntryError_of_contentOf (h : a.contentOf r = .error e) : e.isEntryError = true := by
  rw [contentOf] at h
  split_ifs at h
  · cases h
    rfl
  · split at h
    · cases h
      rfl
    · split_ifs at h
      cases h
      rfl

/-! ### One entry after another -/

/-- Reading an entry that gives nothing changes nothing; reading one that gives content counts its
bytes. -/
theorem read_eq (a : Archive) (r : Zip.Record) :
    a.read r =
      match a.contentOf r with
      | .error e => (.error e, a)
      | .ok content =>
        (if a.limits.maxTotalSize < a.bytesRead + content.size then
          .error (.corrupt a.path (.contentSize a.limits.maxTotalSize)) else .ok content,
          a.counting content.size) := by
  rw [read, contentOf]
  dsimp only
  split_ifs
  · rfl
  · cases a.pull r with
    | error fault => rfl
    | ok content =>
      dsimp only
      by_cases hsize : a.limits.maxEntrySize < content.size
      · rw [if_pos hsize, if_pos hsize]
      · rw [if_neg hsize, if_neg hsize]
        dsimp only
        split_ifs
        · rfl
        · rfl

/-- **Within the budget.** While the bytes are not too many, the walk gives what each entry gives on
its own, and goes on after them. -/
theorem readAll_append (h : a.bytesRead + a.totalSize (members front) ≤ a.limits.maxTotalSize)
    (rest : List Zip.Record) :
    readAll (front ++ rest) a =
      ((members front).map a.reading ++
          (readAll rest (a.counting (a.totalSize (members front)))).1,
        (readAll rest (a.counting (a.totalSize (members front)))).2) := by
  -- an entry that gives content is read by the archive after its bytes, hence the general archive
  induction front generalizing a with
  | nil => rfl
  | cons r front ih =>
    rw [List.cons_append, readAll]
    cases hr : r.isDirectory with
    | true =>
      rw [members_cons_of_isDirectory hr] at h ⊢
      rw [if_pos rfl]
      exact ih h
    | false =>
      rw [members_cons hr, totalSize_cons] at h ⊢
      rw [if_neg Bool.false_ne_true, List.map_cons]
      cases hc : a.contentOf r with
      | error e =>
        have hreading : a.reading r = .error e := by rw [reading, hc]; rfl
        rw [bytesOf_of_error hc, Nat.zero_add] at h ⊢
        rw [read_eq, hc]
        dsimp only
        rw [if_pos (isEntryError_of_contentOf hc), ih h, hreading]
        rfl
      | ok content =>
        have hreading : a.reading r = .ok ⟨r.name, content⟩ := by rw [reading, hc]; rfl
        rw [bytesOf_of_ok hc] at h ⊢
        have hle : ¬ a.limits.maxTotalSize < a.bytesRead + content.size := by omega
        have hrest : (a.counting content.size).bytesRead +
            (a.counting content.size).totalSize (members front) ≤
              (a.counting content.size).limits.maxTotalSize := by
          change a.bytesRead + content.size + a.totalSize (members front) ≤ a.limits.maxTotalSize
          omega
        rw [read_eq, hc]
        dsimp only
        rw [if_neg hle]
        dsimp only
        rw [ih hrest, hreading, counting_counting]
        rfl

/-- The entry `r` is the first one with which the bytes are too many. -/
structure Overruns (a : Archive) (entries front : List Zip.Record) (r : Zip.Record)
    (back : List Zip.Record) : Prop where
  /-- It stands between the others. -/
  entries_eq : entries = front ++ r :: back
  /-- It is no directory. -/
  isDirectory_eq : r.isDirectory = false
  /-- It can be read, and without it the bytes are not too many, but with it they are. -/
  bytes : ∃ content, a.contentOf r = .ok content ∧
    a.bytesRead + a.totalSize (members front) ≤ a.limits.maxTotalSize ∧
    a.limits.maxTotalSize < a.bytesRead + a.totalSize (members front) + content.size

/-- When the bytes are too many in the end, they get so with one of the entries. -/
theorem exists_overruns (ha : a.bytesRead ≤ a.limits.maxTotalSize)
    (h : a.limits.maxTotalSize < a.bytesRead + a.totalSize (members entries)) :
    ∃ front r back, a.Overruns entries front r back := by
  induction entries using List.reverseRecOn with
  | nil => exact absurd h (Nat.not_lt.mpr ha)
  | append_singleton entries r ih =>
    by_cases hbefore : a.limits.maxTotalSize < a.bytesRead + a.totalSize (members entries)
    · obtain ⟨front, r', back, rfl, hdirectory, hbytes⟩ := ih hbefore
      exact ⟨front, r', back ++ [r], by simp, hdirectory, hbytes⟩
    · -- the last entry is the one, so it is no directory and has content
      rw [members_append, totalSize_append] at h
      cases hr : r.isDirectory with
      | true =>
        rw [members_cons_of_isDirectory hr] at h
        exact absurd h hbefore
      | false =>
        rw [members_cons hr, totalSize_cons, members_nil, totalSize_nil, Nat.add_zero] at h
        cases hc : a.contentOf r with
        | error e =>
          rw [bytesOf_of_error hc] at h
          exact absurd h hbefore
        | ok content =>
          rw [bytesOf_of_ok hc, ← Nat.add_assoc] at h
          exact ⟨entries, r, [], rfl, hr, content, hc, Nat.not_lt.mp hbefore, h⟩

/-- **Over the budget.** The walk ends with the entry that makes the bytes too many, whatever comes
after it. -/
theorem Overruns.readAll_eq (h : a.Overruns entries front r back) (later : List Zip.Record) :
    readAll (front ++ r :: later) a =
      ((members front).map a.reading ++
          [.error (.corrupt a.path (.contentSize a.limits.maxTotalSize))],
        a.counting (a.totalSize (members (front ++ [r])))) := by
  obtain ⟨content, hc, hbefore, hover⟩ := h.bytes
  have hbytes := totalSize_members_concat h.isDirectory_eq hc front
  have hread : (a.counting (a.totalSize (members front))).read r =
      (.error (.corrupt a.path (.contentSize a.limits.maxTotalSize)),
        a.counting (a.totalSize (members front) + content.size)) := by
    have hc' : (a.counting (a.totalSize (members front))).contentOf r = .ok content := hc
    rw [read_eq, hc']
    dsimp only
    rw [counting_counting]
    exact congrArg (·, _) (if_pos hover)
  rw [readAll_append hbefore, readAll, if_neg (by simp [h.isDirectory_eq]), hread, hbytes]
  rfl

/-! ### Opening -/

/-- Entries are acceptable if none is corrupt and there is not too much of them. -/
theorem readEntries_eq_ok {data : ByteArray} {limits : ArchiveLimits}
    {entries : List Zip.Record} :
    readEntries data limits = .ok entries ↔
      Zip.directory data = .ok entries ∧ entries.length ≤ limits.maxEntries ∧
        firstCorrupt? data 0 entries = none ∧ declaredSize entries ≤ limits.maxTotalSize := by
  rw [readEntries]
  cases Zip.directory data with
  | error fault =>
    rw [Outcome.mapError_error, Outcome.error_bind]
    exact iff_of_false nofun fun h => nomatch h.1
  | ok records =>
    rw [Outcome.mapError_ok, Outcome.ok_bind, Except.ok.injEq]
    dsimp only
    by_cases hcount : limits.maxEntries < records.length
    · rw [if_pos hcount, Outcome.error_bind]
      refine iff_of_false nofun ?_
      rintro ⟨rfl, hle, -⟩
      exact absurd hcount (Nat.not_lt.mpr hle)
    rw [if_neg hcount]
    cases hfirst : firstCorrupt? data 0 records with
    | some corruption =>
      dsimp only
      rw [Outcome.error_bind]
      refine iff_of_false nofun ?_
      rintro ⟨rfl, -, hnone, -⟩
      exact nomatch hfirst.symm.trans hnone
    | none =>
      dsimp only
      by_cases hsize : limits.maxTotalSize < declaredSize records
      · rw [if_pos hsize, Outcome.error_bind]
        refine iff_of_false nofun ?_
        rintro ⟨rfl, -, -, hle⟩
        exact absurd hsize (Nat.not_lt.mpr hle)
      · rw [if_neg hsize, Except.ok.injEq]
        constructor
        · rintro rfl
          exact ⟨rfl, Nat.not_lt.mp hcount, hfirst, Nat.not_lt.mp hsize⟩
        · exact fun h => h.1

/-- The log has no part in what becomes of an archive. -/
theorem openAt_yields (files : Files) (path : String) (limits : ArchiveLimits) :
    Yields (openAt files path limits)
      ((files.read? path).elim (.error (.notFound path)) (ofBytes path · limits)) := by
  rw [openAt]
  cases files.read? path with
  | none => exact yields_pure _
  | some data =>
    dsimp only [Option.elim]
    split
    · rename_i herror
      rw [herror]
      exact .after (yields_pure _)
    · rename_i herror
      rw [herror]
      exact yields_pure _
    · rename_i hok
      rw [hok]
      exact .after (yields_pure _)

/-- An archive can be opened if there is a file, the entries of which are acceptable. -/
theorem openAt_eq_ok {files : Files} {path : String} {limits : ArchiveLimits} {j : Journal} :
    ((openAt files path limits).run j).1 = .ok a ↔
      ∃ data entries, files.read? path = some data ∧ readEntries data limits = .ok entries ∧
        a = { path, data, entries, limits } := by
  rw [openAt_yields files path limits j]
  cases hread : files.read? path with
  | none => exact iff_of_false nofun fun ⟨_, _, h, _⟩ => nomatch h
  | some data =>
    rw [Option.elim_some, ofBytes]
    constructor
    · intro h
      split at h
      · rename_i entries hentries
        exact ⟨data, entries, rfl, hentries, (Except.ok.inj h).symm⟩
      · exact nomatch h
    · rintro ⟨_, entries, h, hentries, rfl⟩
      obtain rfl := Option.some.inj h
      rw [hentries]

/-- An archive that has been opened keeps to the limits given, and nothing of it has been read. -/
theorem eq_of_openAt {files : Files} {path : String} {limits : ArchiveLimits} {j : Journal}
    (h : ((openAt files path limits).run j).1 = .ok a) :
    a.path = path ∧ a.limits = limits ∧ a.bytesRead = 0 := by
  obtain ⟨data, entries, -, -, rfl⟩ := openAt_eq_ok.mp h
  exact ⟨rfl, rfl, rfl⟩

end Archive

/-! ### Sweeps -/

namespace Sweep

open Archive (members)

variable {rules : RuleSet} {a : Archive} {rs : List Zip.Record} {s : Sweep}

/-- What the rules match in an entry, under its name; nothing if it cannot be read. -/
def foundIn (rules : RuleSet) (a : Archive) (r : Zip.Record) : List RuleMatch :=
  match a.contentOf r with
  | .ok content => (rules.scan content).map fun m => m.inEntry r.name
  | .error _ => []

/-- Is the entry too large, or can it not be read? -/
def isSkipped (a : Archive) (r : Zip.Record) : Bool :=
  match a.contentOf r with
  | .error (.entryTooLarge _ _ _) | .error (.entryRead _ _) => true
  | _ => false

/-- Can the entry be read, and is its content no UTF-8? -/
def isUndecodable (a : Archive) (r : Zip.Record) : Bool :=
  match a.contentOf r with
  | .ok content => !decide content.IsValidUTF8
  | .error _ => false

/-- What a sweep amounts to that has gone over some entries. -/
structure Covers (rules : RuleSet) (a : Archive) (rs : List Zip.Record) (s : Sweep) : Prop where
  /-- It has found what the rules match in one after another. -/
  found_eq : s.found = rs.flatMap (foundIn rules a)
  /-- Each of them is counted once, as scanned or as skipped. -/
  scanned_add_skipped : s.summary.scanned + s.summary.skipped = rs.length
  /-- Those are skipped that are too large or cannot be read. -/
  skipped_eq : s.summary.skipped = rs.countP (isSkipped a)
  /-- Of the others, those that are no UTF-8 are counted. -/
  undecodable_eq : s.summary.undecodable = rs.countP (isUndecodable a)
  /-- The matches are counted. -/
  found_length : s.summary.found = s.found.length

/-- The sweep after an entry. -/
def visit (rules : RuleSet) (a : Archive) (s : Sweep) (r : Zip.Record) : Sweep :=
  match a.contentOf r with
  | .ok content => s.add rules ⟨r.name, content⟩
  | .error _ => s.skip

/-- **A step.** One entry more adds what it contributes and leaves the rest as it is. -/
theorem Covers.visit (h : Covers rules a rs s) (r : Zip.Record) :
    Covers rules a (rs ++ [r]) (s.visit rules a r) := by
  obtain ⟨hfound, hcount, hskipped, hundecodable, hlength⟩ := h
  cases hc : a.contentOf r with
  | error e =>
    have hvisit : s.visit rules a r = s.skip := by rw [Sweep.visit, hc]
    have hnone : foundIn rules a r = [] := by rw [foundIn, hc]
    have hskip : isSkipped a r = true := by
      have hentry := Archive.isEntryError_of_contentOf hc
      rw [isSkipped, hc]
      cases e with
      | entryRead _ _ | entryTooLarge _ _ _ => rfl
      | notFound _ | corrupt _ _ => exact absurd hentry Bool.false_ne_true
    have hdecodable : isUndecodable a r = false := by rw [isUndecodable, hc]
    rw [hvisit]
    refine ⟨?_, ?_, ?_, ?_, hlength⟩
    · rw [List.flatMap_append, List.flatMap_singleton, hnone, List.append_nil]
      exact hfound
    · rw [List.length_append, List.length_singleton, ← hcount]
      exact (Nat.add_assoc ..).symm
    · rw [List.countP_append, List.countP_singleton, if_pos hskip, ← hskipped]
      rfl
    · rw [List.countP_append, List.countP_singleton, hdecodable, if_neg Bool.false_ne_true]
      exact hundecodable
  | ok content =>
    have hvisit : s.visit rules a r = s.add rules ⟨r.name, content⟩ := by rw [Sweep.visit, hc]
    have hmatches : foundIn rules a r = matchesIn rules ⟨r.name, content⟩ := by
      rw [foundIn, hc, matchesIn]
    have hskip : isSkipped a r = false := by rw [isSkipped, hc]
    have hdecodable : (if isUndecodable a r = true then 1 else 0) =
        if Utf8.isWellFormed content then 0 else 1 := by
      rw [isUndecodable, hc, Utf8.isWellFormed]
      by_cases hvalid : content.IsValidUTF8
      · simp [hvalid]
      · simp [hvalid]
    rw [hvisit]
    refine ⟨?_, ?_, ?_, ?_, ?_⟩
    · rw [List.flatMap_append, List.flatMap_singleton, hmatches, ← hfound]
      rfl
    · rw [List.length_append, List.length_singleton, ← hcount]
      exact Nat.add_right_comm ..
    · rw [List.countP_append, List.countP_singleton, hskip, if_neg Bool.false_ne_true]
      exact hskipped
    · rw [List.countP_append, List.countP_singleton, hdecodable, ← hundecodable]
      rfl
    · rw [add, List.length_append, ← hlength]

/-- **A run.** -/
theorem covers_foldl (rules : RuleSet) (a : Archive) (rs : List Zip.Record) :
    Covers rules a rs (rs.foldl (visit rules a) {}) := by
  induction rs using List.reverseRecOn with
  | nil => exact ⟨rfl, rfl, rfl, rfl, rfl⟩
  | append_singleton rs r ih =>
    rw [List.foldl_concat]
    exact ih.visit r

theorem addLogged_yields (rules : RuleSet) (s : Sweep) (file : ArchiveFile) :
    Yields (s.addLogged rules file) (s.add rules file) := by
  rw [addLogged]
  split
  · exact .after (yields_pure _)
  · exact yields_pure _

/-- Adding what some entries give visits them, and goes on after them. -/
private theorem addAll_yields {rest : List (Except ArchiveError ArchiveFile)}
    {result : Sweep × Except ArchiveError Unit}
    (h : Yields (addAll rules rest (rs.foldl (visit rules a) s)) result) :
    Yields (addAll rules (rs.map a.reading ++ rest) s) result := by
  induction rs generalizing s with
  | nil => exact h
  | cons r rs ih =>
    rw [List.foldl_cons] at h
    rw [List.map_cons, List.cons_append, Archive.reading]
    cases hc : a.contentOf r with
    | error e =>
      have hskip : s.visit rules a r = s.skip := by rw [visit, hc]
      rw [hskip] at h
      rw [show (Except.error e : Except ArchiveError ByteArray).map
        (fun content => (⟨r.name, content⟩ : ArchiveFile)) = .error e from rfl, addAll,
        if_pos (Archive.isEntryError_of_contentOf hc)]
      exact .after (ih h)
    | ok content =>
      have hadd : s.visit rules a r = s.add rules ⟨r.name, content⟩ := by rw [visit, hc]
      rw [hadd] at h
      exact .bind (addLogged_yields rules s _) (ih h)

/-- The log has no part in what is added up. -/
theorem exists_addAll_yields (rules : RuleSet)
    (contents : List (Except ArchiveError ArchiveFile)) (s : Sweep) :
    ∃ result, Yields (addAll rules contents s) result := by
  induction contents generalizing s with
  | nil => exact ⟨_, yields_pure _⟩
  | cons content rest ih =>
    cases content with
    | ok file =>
      obtain ⟨result, hrest⟩ := ih (s.add rules file)
      exact ⟨result, .bind (addLogged_yields rules s file) hrest⟩
    | error e =>
      rw [addAll]
      split_ifs
      · obtain ⟨result, hrest⟩ := ih s.skip
        exact ⟨result, .after hrest⟩
      · exact ⟨_, yields_pure _⟩

end Sweep

/-! ### Archives from a file -/

section

open Archive (members)

variable {rules : RuleSet} {files : Files} {path : String} {limits : ArchiveLimits} {j : Journal}
variable {a : Archive}

/-- Sweeping an archive that can be opened comes to what adding its content comes to. -/
private theorem sweepArchive_run {s : Sweep} {outcome : Except ArchiveError Unit}
    (hopen : ((Archive.openAt files path limits).run j).1 = .ok a)
    (hadd : Yields (Sweep.addAll rules a.files.1 {}) (s, outcome)) :
    ((sweepArchive rules files path limits).run j).1 = outcome.map fun _ => s := by
  rw [sweepArchive]
  refine Yields.run_bind hopen (.bind hadd (.after ?_))
  cases outcome with
  | error e => exact yields_pure _
  | ok _ => exact .after (yields_pure _)

/-- The log has no part in what a sweep comes to. -/
theorem exists_sweepArchive_yields (rules : RuleSet) (files : Files) (path : String)
    (limits : ArchiveLimits) : ∃ result, Yields (sweepArchive rules files path limits) result := by
  have hopen := Archive.openAt_yields files path limits
  rw [sweepArchive]
  cases hopened : (files.read? path).elim (.error (.notFound path))
      (Archive.ofBytes path · limits) with
  | error e =>
    rw [hopened] at hopen
    exact ⟨_, .bind hopen (yields_pure _)⟩
  | ok a =>
    rw [hopened] at hopen
    obtain ⟨⟨s, outcome⟩, hadd⟩ := Sweep.exists_addAll_yields rules a.files.1 {}
    cases outcome with
    | error e => exact ⟨_, .bind hopen (.bind hadd (.after (yields_pure _)))⟩
    | ok _ => exact ⟨_, .bind hopen (.bind hadd (.after (.after (yields_pure _))))⟩

/-- **A sweep is a map over the entries.** Let an archive be opened. If its first entries, however
many, do not give more bytes than allowed, sweeping it succeeds and covers all entries that are no
directories. Otherwise the archive is given up at the entry with which the bytes are too many.
Nothing after that entry is read, whatever stands there, and the sweep that is given up covers the
entries before it. In either case a match is labelled with the name of its entry and is otherwise as
it was found. -/
theorem sweepArchive_of_openAt (rules : RuleSet) (files : Files) (path : String)
    (limits : ArchiveLimits) (j : Journal) (a : Archive)
    (hopen : ((Archive.openAt files path limits).run j).1 = .ok a) :
    let result := ((sweepArchive rules files path limits).run j).1
    let fits := ∀ front, front <+: members a.entries → a.totalSize front ≤ limits.maxTotalSize
    let tooMuch := ArchiveError.corrupt path (.contentSize limits.maxTotalSize)
    (fits → ∃ s, result = .ok s ∧ s.Covers rules a (members a.entries)) ∧
      (¬ fits → result = .error tooMuch ∧ ∃ front r back, a.Overruns a.entries front r back ∧
        a.files.1 = (members front).map a.reading ++ [.error tooMuch] ∧
        (∀ later, Archive.readAll (front ++ r :: later) a = a.files) ∧
        ∃ s, Yields (Sweep.addAll rules a.files.1 {}) (s, .error tooMuch) ∧
          s.Covers rules a (members front)) ∧
      ∀ (m : RuleMatch) (name : String), (m.inEntry name).rule = m.rule ∧
        (m.inEntry name).tags = m.tags ∧ ∀ key, (m.inEntry name).metaData.find? key =
          if key = "filename" then some name else m.metaData.find? key := by
  intro result fits tooMuch
  obtain ⟨hpath, hlimits, hbytes⟩ := Archive.eq_of_openAt hopen
  refine ⟨fun hfits => ?_, fun hover => ?_, fun m name => ⟨rfl, rfl, m.find?_inEntry name⟩⟩
  · have hle : a.bytesRead + a.totalSize (members a.entries) ≤ a.limits.maxTotalSize := by
      rw [hbytes, hlimits, Nat.zero_add]
      exact hfits _ (List.prefix_refl _)
    have hread : a.files.1 = (members a.entries).map a.reading := by
      have hwalk := Archive.readAll_append hle []
      rw [List.append_nil] at hwalk
      rw [Archive.files, hwalk]
      exact List.append_nil _
    have hadd : Yields (Sweep.addAll rules a.files.1 {})
        ((members a.entries).foldl (Sweep.visit rules a) {}, .ok ()) := by
      rw [hread, ← List.append_nil ((members a.entries).map a.reading)]
      exact Sweep.addAll_yields (yields_pure _)
    exact ⟨_, sweepArchive_run hopen hadd, Sweep.covers_foldl rules a _⟩
  · have hlt : a.limits.maxTotalSize < a.bytesRead + a.totalSize (members a.entries) := by
      rw [hbytes, hlimits, Nat.zero_add]
      by_contra hle
      exact hover fun pre hpre =>
        Nat.le_trans (Archive.totalSize_le_of_prefix a hpre) (Nat.not_lt.mp hle)
    have hstart : a.bytesRead ≤ a.limits.maxTotalSize := by
      rw [hbytes]
      exact Nat.zero_le _
    obtain ⟨front, r, back, hfirst⟩ := Archive.exists_overruns hstart hlt
    have hwalk := hfirst.readAll_eq
    rw [hpath, hlimits] at hwalk
    have hfiles : a.files = Archive.readAll (front ++ r :: back) a := by
      rw [Archive.files, ← hfirst.entries_eq]
    have hread : a.files.1 = (members front).map a.reading ++ [.error tooMuch] := by
      rw [hfiles, hwalk]
    have hadd : Yields (Sweep.addAll rules a.files.1 {})
        ((members front).foldl (Sweep.visit rules a) {}, .error tooMuch) := by
      rw [hread]
      exact Sweep.addAll_yields (yields_pure _)
    refine ⟨sweepArchive_run hopen hadd, front, r, back, hfirst, hread, fun later => ?_, _, hadd,
      Sweep.covers_foldl rules a _⟩
    rw [hfiles, hwalk, hwalk]

end

/-! ### An archive of stored files -/

namespace Zip

/-- The bytes of a number, the lowest first. -/
def numeral (width n : Nat) : List UInt8 :=
  (List.range width).map fun i => (n >>> (8 * i)).toUInt8

/-- A file to be stored in an archive as it is. -/
structure Stored where
  /-- Its name. -/
  name : String
  /-- Its content. -/
  content : List UInt8 := []
  /-- Is it stored with the right checksum? -/
  isIntact : Bool := true

namespace Stored

/-- The entry of the file that starts at the offset. -/
def entry (f : Stored) (start : Nat) : Record where
  name := f.name
  encrypted := false
  method := 0
  checksum := Crc32.checksum ⟨f.content.toArray⟩ ^^^ if f.isIntact then 0 else 1
  packedSize := f.content.length
  size := f.content.length
  start := start

/-- What a header and a record have in common. -/
def fields (f : Stored) : List UInt8 :=
  numeral 10 0 ++ numeral 4 (f.entry 0).checksum.toNat ++ numeral 4 f.content.length ++
    numeral 4 f.content.length ++ numeral 4 f.name.utf8ByteSize

/-- The header, the name and the content of the file. -/
def body (f : Stored) : List UInt8 :=
  numeral 4 0x04034B50 ++ f.fields ++ f.name.toUTF8.toList ++ f.content

/-- The record of the file and its name. -/
def record (f : Stored) (start : Nat) : List UInt8 :=
  numeral 6 0x02014B50 ++ f.fields ++ numeral 10 0 ++ numeral 4 start ++ f.name.toUTF8.toList

end Stored

/-- The files with the offsets where they start, if the first one starts at the given one. -/
def placed : Nat → List Stored → List (Stored × Nat)
  | _, [] => []
  | start, f :: rest => (f, start) :: placed (start + f.body.length) rest

/-- An archive of stored files. -/
def pack (files : List Stored) : ByteArray :=
  let bodies := files.flatMap Stored.body
  let records := (placed 0 files).flatMap fun (f, start) => f.record start
  let trailer := numeral 8 0x06054B50 ++ numeral 2 files.length ++ numeral 2 files.length ++
    numeral 4 records.length ++ numeral 4 bodies.length ++ numeral 2 0
  ⟨(bodies ++ records ++ trailer).toArray⟩

/-- The entries of an archive of stored files. -/
def entriesOf (files : List Stored) : List Record :=
  (placed 0 files).map fun (f, start) => f.entry start

end Zip

/-- A directory, a file, one of four bytes, one with a wrong checksum and one that is no UTF-8. -/
def mixedFiles : List Zip.Stored :=
  [⟨"d/", [], true⟩, ⟨"a", [97, 98], true⟩, ⟨"b", [97, 98, 99, 100], true⟩, ⟨"c", [97], false⟩,
    ⟨"e", [97, 255], true⟩]

/-- An archive of these, opened with room for three bytes in each. -/
def mixed : Archive where
  path := "a.zip"
  data := Zip.pack mixedFiles
  entries := Zip.entriesOf mixedFiles
  limits := { maxEntrySize := 3 }

/-- A rule that is true of two bytes and names a file of its own, and one that is never true. -/
def labelled : RuleSet where
  rules := #[⟨"t", [], [("filename", "other")], false, false, .compare .equal .filesize (.int 2)⟩,
    ⟨"f", [], [], false, false, .bool false⟩]
  patterns := #[]

/-- The first file and the last one are scanned, the other two are skipped, and the directory is
left out. Matches are found under the names of their entries. -/
theorem sweepArchive_of_openAt_mixed :
    let files : Files := fun _ => some (.file mixed.data)
    ((Archive.openAt files "a.zip" { maxEntrySize := 3 }).run {}).1 = .ok mixed ∧
      ((sweepArchive labelled files "a.zip" { maxEntrySize := 3 }).run {}).1 =
        .ok { found := [⟨"t", [], [("filename", "a")]⟩, ⟨"t", [], [("filename", "e")]⟩]
              summary := { scanned := 2, skipped := 2, undecodable := 1, found := 2 } } := by
  intro files
  have hentries : Archive.readEntries mixed.data { maxEntrySize := 3 } = .ok mixed.entries := by
    decide +kernel
  have hopen : ((Archive.openAt files "a.zip" { maxEntrySize := 3 }).run {}).1 = .ok mixed :=
    Archive.openAt_eq_ok.mpr ⟨mixed.data, mixed.entries, rfl, hentries, rfl⟩
  have hcomputed : (Archive.members mixed.entries).length = 4 ∧
      mixed.totalSize (Archive.members mixed.entries) ≤ mixed.limits.maxTotalSize ∧
      (Archive.members mixed.entries).flatMap (Sweep.foundIn labelled mixed) =
        [⟨"t", [], [("filename", "a")]⟩, ⟨"t", [], [("filename", "e")]⟩] ∧
      (Archive.members mixed.entries).countP (Sweep.isSkipped mixed) = 2 ∧
      (Archive.members mixed.entries).countP (Sweep.isUndecodable mixed) = 1 := by
    decide +kernel
  obtain ⟨hmembers, htotal, hmatches, hskips, hreplaced⟩ := hcomputed
  have hfits : ∀ front, front <+: Archive.members mixed.entries →
      mixed.totalSize front ≤ ({ maxEntrySize := 3 } : ArchiveLimits).maxTotalSize :=
    fun front hfront => Nat.le_trans (Archive.totalSize_le_of_prefix _ hfront) htotal
  obtain ⟨hsweep, -, -⟩ :=
    sweepArchive_of_openAt labelled files "a.zip" { maxEntrySize := 3 } {} mixed hopen
  obtain ⟨⟨found, ⟨scanned, skipped, undecodable, number⟩⟩, hresult, hcovers⟩ := hsweep hfits
  obtain ⟨hfound, hcount, hskipped, hundecodable, hnumber⟩ := hcovers
  rw [hmembers] at hcount
  rw [hmatches] at hfound
  rw [hskips] at hskipped
  rw [hreplaced] at hundecodable
  -- an entry that is not skipped is scanned
  have hscanned : scanned = 2 := by
    dsimp only at hcount hskipped
    omega
  subst hfound hskipped hundecodable hscanned
  obtain rfl : number = 2 := hnumber
  exact ⟨hopen, hresult⟩

end PackageScan
