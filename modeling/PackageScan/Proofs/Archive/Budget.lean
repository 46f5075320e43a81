import PackageScan.Proofs.Archive.Sweeping

/-!
# A reader keeps to its budget

A reader of an archive may be asked for anything in any order: single entries, the same ones again,
and walks over the entries that may be left early (`Archive.Request`). What it answers keeps to its
bounds whatever the archive declares, since only bytes that have come out count.

The invariant of a run is `Archive.Keeps`: how the counter of the archive stands to what has been
handed out. Up to the first answer that the budget is spent, the counter is the number of bytes
handed out; from then on it is beyond the budget, and nothing more is handed out. Reading one entry
has this property, and pieces of a run that have it have it together (`Archive.Keeps.append`), so
walks and whole runs have it.

The counter is a natural number here. A counter that stops at the largest size that is counted
decides the same as long as the budget is below that size (`Archive.readSaturating_saturated`).
-/

namespace PackageScan

namespace Archive

variable {a a' a'' : Archive} {r : Zip.Record} {content : ByteArray}

/-- What a reader answers when it is asked for content. -/
abbrev Answers := List (Except ArchiveError ByteArray)

variable {before after answers answers' : Answers}

/-! ### What has been handed out -/

/-- The contents among some answers. -/
def contents (answers : Answers) : List ByteArray := answers.filterMap Except.toOption

/-- Number of bytes handed out with some answers. -/
def handedOut (answers : Answers) : Nat := ((contents answers).map ByteArray.size).sum

/-- The error that says that the budget of the archive is spent. -/
def spent (a : Archive) : ArchiveError := .corrupt a.path (.contentSize a.limits.maxTotalSize)

@[simp] theorem contents_nil : contents [] = [] := rfl

@[simp] theorem contents_append :
    contents (answers ++ answers') = contents answers ++ contents answers' :=
  List.filterMap_append

@[simp] theorem handedOut_append :
    handedOut (answers ++ answers') = handedOut answers + handedOut answers' := by
  rw [handedOut, contents_append, List.map_append, List.sum_append, handedOut, handedOut]

@[simp] theorem handedOut_ok : handedOut [.ok content] = content.size := Nat.add_zero _

theorem mem_contents : content ∈ contents answers ↔ .ok content ∈ answers := by
  rw [contents, List.mem_filterMap]
  constructor
  · rintro ⟨answer, hmem, hok⟩
    cases answer with
    | error e => cases hok
    | ok content' =>
      cases hok
      exact hmem
  · exact fun hmem => ⟨_, hmem, rfl⟩

private theorem handedOut_eq_zero (h : contents answers = []) : handedOut answers = 0 := by
  rw [handedOut, h]
  rfl

/-! ### The invariant -/

/-- From the archive `a`, the answers lead to the archive `a'` within the bounds. -/
structure Keeps (a : Archive) (answers : Answers) (a' : Archive) : Prop where
  /-- Nothing about the archive changes but its counter, which does not go down. -/
  counting : ∃ n, a' = a.counting n
  /-- No content is larger than an entry may be. -/
  size_le : ∀ content ∈ contents answers, content.size ≤ a.limits.maxEntrySize
  /-- The budget covers what is handed out. -/
  handedOut_le : a.bytesRead ≤ a.limits.maxTotalSize →
    a.bytesRead + handedOut answers ≤ a.limits.maxTotalSize
  /-- Until the budget is spent the counter says what has been handed out. -/
  bytesRead_eq : .error a.spent ∉ answers → a'.bytesRead = a.bytesRead + handedOut answers
  /-- The counter is beyond the budget when that is spent. -/
  lt_bytesRead : .error a.spent ∈ answers → a.limits.maxTotalSize < a'.bytesRead
  /-- A counter beyond the budget means that nothing is handed out. -/
  contents_eq : a.limits.maxTotalSize < a.bytesRead → contents answers = []
  /-- Nothing is handed out after the answer that the budget is spent. -/
  contents_after : ∀ before after, answers = before ++ .error a.spent :: after →
    contents after = []

private theorem keeps_nil (a : Archive) : Keeps a [] a where
  counting := ⟨0, rfl⟩
  size_le := fun _ h => nomatch h
  handedOut_le := fun h => h
  bytesRead_eq := fun _ => rfl
  lt_bytesRead := fun h => nomatch h
  contents_eq := fun _ => rfl
  contents_after := fun _ _ h => absurd h.symm (List.append_ne_nil_of_right_ne_nil _ (by simp))

theorem Keeps.append (h : Keeps a answers a') (h' : Keeps a' answers' a'') :
    Keeps a (answers ++ answers') a'' := by
  obtain ⟨n, rfl⟩ := h.counting
  obtain ⟨n', rfl⟩ := h'.counting
  have hgrows : (a.counting n).bytesRead ≤ ((a.counting n).counting n').bytesRead :=
    Nat.le_add_right _ _
  -- a budget that the first answers spend leaves nothing for the others
  have hspent (hmem : .error a.spent ∈ answers) : contents answers' = [] :=
    h'.contents_eq (h.lt_bytesRead hmem)
  refine ⟨⟨n + n', counting_counting a n n'⟩, ?_, fun hle => ?_, fun hnot => ?_, fun hmem => ?_,
    fun hover => ?_, fun before after heq => ?_⟩
  · rw [contents_append]
    exact List.forall_mem_append.mpr ⟨h.size_le, h'.size_le⟩
  · rw [handedOut_append, ← Nat.add_assoc]
    by_cases hmem : .error a.spent ∈ answers
    · rw [handedOut_eq_zero (hspent hmem)]
      exact h.handedOut_le hle
    · rw [← h.bytesRead_eq hmem]
      refine h'.handedOut_le ?_
      rw [h.bytesRead_eq hmem]
      exact h.handedOut_le hle
  · obtain ⟨hfirst, hsecond⟩ := not_or.mp (List.mem_append.not.mp hnot)
    rw [h'.bytesRead_eq hsecond, h.bytesRead_eq hfirst, handedOut_append, Nat.add_assoc]
  · rcases List.mem_append.mp hmem with hfirst | hsecond
    · exact Nat.lt_of_lt_of_le (h.lt_bytesRead hfirst) hgrows
    · exact h'.lt_bytesRead hsecond
  · rw [contents_append, h.contents_eq hover,
      h'.contents_eq (Nat.lt_of_lt_of_le hover (Nat.le_add_right _ _))]
    rfl
  · rcases List.append_eq_append_iff.mp heq with ⟨between, -, hsecond⟩ | ⟨between, hfirst, hrest⟩
    · exact h'.contents_after between after hsecond
    · cases between with
      | nil => exact h'.contents_after [] after hrest.symm
      | cons answer between =>
        obtain ⟨rfl, hafter⟩ := List.cons.inj hrest
        have hnone : contents (between ++ answers') = [] := by
          rw [contents_append, h.contents_after before between hfirst,
            hspent (by rw [hfirst]; simp)]
          rfl
        exact hafter ▸ hnone

/-! ### Reading -/

private theorem contentOf_ne_spent (a : Archive) (r : Zip.Record) :
    a.contentOf r ≠ .error a.spent :=
  fun h => Bool.false_ne_true (isEntryError_of_contentOf h)

private theorem of_singleton_eq {x y : Except ArchiveError ByteArray}
    (h : [x] = before ++ y :: after) : y = x ∧ after = [] := by
  cases before with
  | nil =>
    obtain ⟨rfl, rfl⟩ := List.cons.inj h
    exact ⟨rfl, rfl⟩
  | cons z before => simp at h

/-- **A step.** Reading one entry keeps to the bounds. -/
theorem keeps_read (a : Archive) (r : Zip.Record) : Keeps a [(a.read r).1] (a.read r).2 := by
  rw [read_eq]
  cases hc : a.contentOf r with
  | error e =>
    have hne : (.error e : Except ArchiveError ByteArray) ≠ .error a.spent :=
      fun h => a.contentOf_ne_spent r (hc.trans h)
    refine ⟨⟨0, rfl⟩, (fun _ h => nomatch h), fun h => h, fun _ => rfl, fun hmem => ?_,
      fun _ => rfl, fun before after heq => ?_⟩
    · exact absurd (List.mem_singleton.mp hmem).symm hne
    · exact absurd (of_singleton_eq heq).1.symm hne
  | ok content =>
    dsimp only
    split_ifs with hover
    · refine ⟨⟨content.size, rfl⟩, (fun _ h => nomatch h), fun h => h, fun hnot => ?_,
        fun _ => hover, fun _ => rfl, fun before after heq => ?_⟩
      · exact absurd (List.mem_singleton.mpr rfl) hnot
      · rw [(of_singleton_eq heq).2]
        rfl
    · refine ⟨⟨content.size, rfl⟩, fun content' hmem => ?_, fun _ => ?_, fun _ => rfl,
        fun hmem => ?_, fun hlt => ?_, fun before after heq => ?_⟩
      · obtain rfl : content' = content := List.mem_singleton.mp hmem
        exact (contentOf_eq_ok.mp hc).2.2
      · rw [handedOut_ok]
        exact Nat.not_lt.mp hover
      · cases List.mem_singleton.mp hmem
      · exact absurd (Nat.lt_of_lt_of_le hlt (Nat.le_add_right _ _)) hover
      · cases (of_singleton_eq heq).1

/-- Within the budget an entry gives what it gives on its own, unless that is too much. -/
private theorem fst_read (h : a.bytesRead ≤ a.limits.maxTotalSize) :
    (a.read r).1 =
      if a.limits.maxTotalSize < a.bytesRead + a.bytesOf r then .error a.spent
      else a.contentOf r := by
  rw [read_eq]
  cases hc : a.contentOf r with
  | error e => rw [bytesOf_of_error hc, Nat.add_zero, if_neg (Nat.not_lt.mpr h)]
  | ok content =>
    rw [bytesOf_of_ok hc]
    rfl

/-- The contents of a walk, without the names. -/
def contentsOnly (files : List (Except ArchiveError ArchiveFile)) : Answers :=
  files.map (Except.map ArchiveFile.content)

/-- A walk over some entries keeps to the bounds. -/
private theorem keeps_readAll (rs : List Zip.Record) (a : Archive) :
    Keeps a (contentsOnly (readAll rs a).1) (readAll rs a).2 := by
  induction rs generalizing a with
  | nil => exact keeps_nil a
  | cons r rest ih =>
    rw [readAll]
    split_ifs with hdirectory
    · exact ih a
    · have hread := keeps_read a r
      rcases hr : a.read r with ⟨e | content, a'⟩
      · rw [hr] at hread
        dsimp only
        split_ifs
        · exact hread.append (ih a')
        · exact hread
      · rw [hr] at hread
        exact hread.append (ih a')

/-! ### Any requests -/

/-- Something that a reader is asked for. -/
inductive Request where
  /-- The content of one entry, whatever is said about the entry. -/
  | entry (r : Zip.Record)
  /-- A walk over the first `n` entries of the archive, or over all if there are no more. -/
  | files (n : Nat)

/-- What is answered to a request, and the archive after it. -/
def serve (a : Archive) : Request → Answers × Archive
  | .entry r => ([(a.read r).1], (a.read r).2)
  | .files n =>
    let (files, a) := readAll (a.entries.take n) a
    (contentsOnly files, a)

/-- What is answered to some requests one after another, and the archive after them. -/
def serveAll (a : Archive) : List Request → Answers × Archive
  | [] => ([], a)
  | request :: rest =>
    let (answers, a) := a.serve request
    let (later, a) := a.serveAll rest
    (answers ++ later, a)

private theorem keeps_serve (a : Archive) (request : Request) :
    Keeps a (a.serve request).1 (a.serve request).2 := by
  cases request with
  | entry r => exact keeps_read a r
  | files n => exact keeps_readAll _ a

/-- **A run.** Whatever is asked for, the answers keep to the bounds. -/
theorem keeps_serveAll (a : Archive) (requests : List Request) :
    Keeps a (a.serveAll requests).1 (a.serveAll requests).2 := by
  induction requests generalizing a with
  | nil => exact keeps_nil a
  | cons request rest ih => exact (keeps_serve a request).append (ih _)

/-! ### A counter of limited size -/

/-- The archive with a counter that has stopped at the largest size that is counted. -/
def saturated (a : Archive) : Archive := { a with bytesRead := min a.bytesRead sizeCap }

/-- Reads an entry with a counter that stops at the largest size that is counted. -/
def readSaturating (a : Archive) (r : Zip.Record) : Except ArchiveError ByteArray × Archive :=
  match a.contentOf r with
  | .error e => (.error e, a)
  | .ok content =>
    let a := { a with bytesRead := min (a.bytesRead + content.size) sizeCap }
    if a.limits.maxTotalSize < a.bytesRead then (.error a.spent, a) else (.ok content, a)

/-- A budget below the largest size that is counted is spent for either counter at once. -/
theorem readSaturating_saturated (h : a.limits.maxTotalSize < sizeCap) (r : Zip.Record) :
    a.saturated.readSaturating r = ((a.read r).1, (a.read r).2.saturated) := by
  have hcontent : a.saturated.contentOf r = a.contentOf r := rfl
  rw [readSaturating, hcontent, read_eq]
  cases a.contentOf r with
  | error e => rfl
  | ok content =>
    have hbytes : min (min a.bytesRead sizeCap + content.size) sizeCap =
        min (a.bytesRead + content.size) sizeCap := by omega
    have hover : a.limits.maxTotalSize < min (a.bytesRead + content.size) sizeCap ↔
        a.limits.maxTotalSize < a.bytesRead + content.size := by omega
    simp only [saturated, hbytes, hover]
    split_ifs <;> rfl

/-! ### Opened archives -/

/-- **The budget of an archive.** Let an archive be opened and its reader be asked for entries and
walks, in any order and as often as one likes. No content that is handed out is larger than an entry
may be, and all together have at most as many bytes as the archive may have. After the answer that
the budget is spent nothing is handed out. Until that answer the budget is not held back either: an
entry gives what it gives on its own, unless that would be too much. It makes no difference if the
counter stops at the largest size that is counted, provided that the budget is below that size. -/
theorem handedOut_le_of_openAt (files : Files) (path : String) (limits : ArchiveLimits)
    (j : Journal) (a : Archive) (hopen : ((openAt files path limits).run j).1 = .ok a)
    (hlimit : limits.maxTotalSize < sizeCap) (requests : List Request) :
    let answers := (a.serveAll requests).1
    let later := (a.serveAll requests).2
    let tooMuch := ArchiveError.corrupt path (.contentSize limits.maxTotalSize)
    (∀ content, .ok content ∈ answers → content.size ≤ limits.maxEntrySize) ∧
      handedOut answers ≤ limits.maxTotalSize ∧
      (∀ before after, answers = before ++ .error tooMuch :: after →
        ∀ content, .ok content ∉ after) ∧
      (.error tooMuch ∉ answers → ∀ r, (later.read r).1 =
        if limits.maxTotalSize < handedOut answers + a.bytesOf r then .error tooMuch
        else a.contentOf r) ∧
      ∀ r, later.saturated.readSaturating r = ((later.read r).1, (later.read r).2.saturated) := by
  intro answers later tooMuch
  obtain ⟨rfl, rfl, hbytes⟩ := eq_of_openAt hopen
  have hkeeps := keeps_serveAll a requests
  obtain ⟨n, hlater⟩ := hkeeps.counting
  have htotal := hkeeps.handedOut_le (by rw [hbytes]; exact Nat.zero_le _)
  rw [hbytes, Nat.zero_add] at htotal
  refine ⟨fun content hmem => hkeeps.size_le _ (mem_contents.mpr hmem), htotal,
    fun before after heq content hmem => ?_, fun hnot r => ?_, fun r => ?_⟩
  · rw [← mem_contents, hkeeps.contents_after before after heq] at hmem
    exact nomatch hmem
  · have hread : (a.counting n).bytesRead = handedOut answers := by
      rw [← hlater, hkeeps.bytesRead_eq hnot, hbytes, Nat.zero_add]
    have hnext := fst_read (a := a.counting n) (r := r) (by rw [hread]; exact htotal)
    rw [hread, ← hlater] at hnext
    rw [hnext, hlater]
    rfl
  · have hbelow : later.limits.maxTotalSize < sizeCap := by
      change (a.serveAll requests).2.limits.maxTotalSize < _
      rw [hlater]
      exact hlimit
    exact readSaturating_saturated hbelow r

/-- The only entry of an archive, with one byte of content. -/
def onlyEntry : Zip.Record where
  name := "a"
  encrypted := false
  method := 0
  checksum := 2363233923
  packedSize := 1
  size := 1
  start := 0

/-- The archive. -/
def oneEntry : Archive where
  path := "a.zip"
  data := ⟨#[80, 75, 3, 4, 20, 0, 0, 0, 0, 0, 0, 0, 33, 0, 131, 22, 220, 140, 1, 0, 0, 0, 1, 0, 0,
    0, 1, 0, 0, 0, 97, 120, 80, 75, 1, 2, 20, 3, 20, 0, 0, 0, 0, 0, 0, 0, 33, 0, 131, 22, 220,
    140, 1, 0, 0, 0, 1, 0, 0, 0, 1, 0, 0, 0, 0, 0, 0, 0, 0, 0, 0, 0, 128, 1, 0, 0, 0, 0, 97, 80,
    75, 5, 6, 0, 0, 0, 0, 1, 0, 1, 0, 47, 0, 0, 0, 32, 0, 0, 0, 0, 0]⟩
  entries := [onlyEntry]
  limits := {}

/-- The archive with one entry, opened with a budget of the one byte that the entry has. -/
def scarce : Archive := { oneEntry with limits := { maxTotalSize := 1 } }

/-- The entry is handed out once. -/
theorem handedOut_le_of_openAt_scarce :
    ((openAt (fun _ => some (.file oneEntry.data)) "a.zip" { maxTotalSize := 1 }).run {}).1 =
        .ok scarce ∧
      (scarce.serveAll [.files 7, .entry onlyEntry, .entry onlyEntry]).1 =
        [.ok ⟨#[120]⟩, .error scarce.spent, .error scarce.spent] ∧
      handedOut (scarce.serveAll [.files 7, .entry onlyEntry, .entry onlyEntry]).1 ≤ 1 := by
  have hentries : readEntries oneEntry.data { maxTotalSize := 1 } = .ok [onlyEntry] := by
    decide +kernel
  have hopen : ((openAt (fun _ => some (.file oneEntry.data)) "a.zip"
      { maxTotalSize := 1 }).run {}).1 = .ok scarce :=
    openAt_eq_ok.mpr ⟨oneEntry.data, [onlyEntry], rfl, hentries, rfl⟩
  have hanswers : (scarce.serveAll [.files 7, .entry onlyEntry, .entry onlyEntry]).1 =
      [.ok ⟨#[120]⟩, .error scarce.spent, .error scarce.spent] := by decide +kernel
  obtain ⟨-, htotal, -⟩ := handedOut_le_of_openAt _ "a.zip" { maxTotalSize := 1 } {} scarce hopen
    (by decide) [.files 7, .entry onlyEntry, .entry onlyEntry]
  exact ⟨hopen, hanswers, htotal⟩

end Archive

end PackageScan
