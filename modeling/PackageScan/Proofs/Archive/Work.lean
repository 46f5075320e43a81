import PackageScan.Proofs.Archive.Budget

/-!
# What a walk over an archive costs

The budget of an archive bounds what is handed out. It does not bound what has to be decompressed
for that: an entry that turns out too large has been read up to one byte more than it may have
before it is refused, and those bytes are not charged to the budget.

* **One entry**: the bytes that come out of it are charged or wasted, never both
  (`Archive.pulled_eq`), and one entry wastes one byte more than it may have at most
  (`Archive.wasted_le`), just so many if it turns out too large (`Archive.wasted_of_pull`).
* **A walk** visits entries up to the one with which the charged bytes are too many. The counter
  says what has been charged, and is beyond the budget by one entry at most
  (`Archive.visited_charged`).

What a walk costs is thus bounded by the budget, one entry and a term for each refused entry
(`Archive.work_le_of_openAt`). The last term has no bound of its own.
-/

namespace PackageScan

namespace Archive

variable {a : Archive} {r : Zip.Record} {rs entries : List Zip.Record} {content : ByteArray}
variable {spilled : Zip.Record → Nat}

/-! ### One entry -/

/-- Number of bytes that come out of an entry when it is read: none if too much is declared. So many
as `spilled` says come out before a fault. -/
def pulled (spilled : Zip.Record → Nat) (a : Archive) (r : Zip.Record) : Nat :=
  if a.limits.maxEntrySize < r.size then 0
  else
    match a.pull r with
    | .error _ => spilled r
    | .ok content => content.size

/-- Number of bytes that come out of an entry and are not charged to the budget. -/
def wasted (spilled : Zip.Record → Nat) (a : Archive) (r : Zip.Record) : Nat :=
  match a.contentOf r with
  | .ok _ => 0
  | .error _ => a.pulled spilled r

/-- Is the entry refused after something may have come out of it? -/
def isRefused (a : Archive) (r : Zip.Record) : Bool :=
  r.size ≤ a.limits.maxEntrySize && !(a.contentOf r).isOk

/-- **An entry.** What comes out of it is charged or wasted. -/
theorem pulled_eq (spilled : Zip.Record → Nat) (a : Archive) (r : Zip.Record) :
    a.pulled spilled r = a.bytesOf r + a.wasted spilled r := by
  cases hc : a.contentOf r with
  | error e => rw [bytesOf_of_error hc, wasted, hc, Nat.zero_add]
  | ok content =>
    obtain ⟨hdeclared, hpull, -⟩ := contentOf_eq_ok.mp hc
    rw [bytesOf_of_ok hc, wasted, hc, Nat.add_zero, pulled, if_neg (Nat.not_lt.mpr hdeclared),
      hpull]

/-- No more comes out of an entry than is wanted. -/
private theorem size_le_of_settle {wanted : Nat} {unpacked : ByteArray}
    (h : Zip.settle r wanted unpacked = .ok content) : content.size ≤ wanted := by
  rw [Zip.settle] at h
  split_ifs at h with hwanted
  · cases h
    rw [ByteArray.size_extract]
    omega
  · cases h
    exact Nat.le_of_not_le hwanted

private theorem size_le_of_pull {data : ByteArray} {wanted : Nat}
    (h : Zip.pull data r wanted = .ok content) : content.size ≤ wanted := by
  rw [Zip.pull] at h
  by_cases hencrypted : r.encrypted = true
  · rw [if_pos hencrypted, Outcome.error_bind] at h
    cases h
  · rw [if_neg hencrypted] at h
    obtain ⟨start, -, h⟩ := Outcome.bind_eq_ok.mp h
    dsimp only at h
    split_ifs at h
    · exact size_le_of_settle h
    · split at h
      · cases h
      · split_ifs at h with hwanted
        cases h
        rw [ByteArray.size_extract]
        omega
      · exact size_le_of_settle h

/-- A refused entry whose content can be decoded has turned out too large. -/
private theorem lt_size_of_isRefused (h : a.isRefused r = true) (hpull : a.pull r = .ok content) :
    r.size ≤ a.limits.maxEntrySize ∧ a.limits.maxEntrySize < content.size := by
  rw [isRefused, Bool.and_eq_true, decide_eq_true_iff] at h
  obtain ⟨hdeclared, hrefused⟩ := h
  refine ⟨hdeclared, ?_⟩
  by_contra hsize
  have hcontent : a.contentOf r = .ok content :=
    contentOf_eq_ok.mpr ⟨hdeclared, hpull, Nat.not_lt.mp hsize⟩
  rw [hcontent] at hrefused
  cases hrefused

/-- An entry that turns out too large wastes one byte more than it may have. -/
theorem wasted_of_pull (hdeclared : r.size ≤ a.limits.maxEntrySize)
    (hpull : a.pull r = .ok content) (hsize : a.limits.maxEntrySize < content.size) :
    a.wasted spilled r = a.limits.maxEntrySize + 1 := by
  have hwhole : content.size = a.limits.maxEntrySize + 1 :=
    Nat.le_antisymm (size_le_of_pull hpull) hsize
  cases hc : a.contentOf r with
  | ok content' =>
    obtain ⟨-, hpull', hle⟩ := contentOf_eq_ok.mp hc
    cases hpull.symm.trans hpull'
    exact absurd hsize (Nat.not_lt.mpr hle)
  | error e =>
    rw [wasted, hc]
    dsimp only
    rw [pulled, if_neg (Nat.not_lt.mpr hdeclared), hpull]
    exact hwhole

/-- An entry wastes nothing unless it is refused, and then one byte more than it may have at
most. -/
theorem wasted_le (hspilled : ∀ r, spilled r ≤ a.limits.maxEntrySize + 1) (r : Zip.Record) :
    a.wasted spilled r ≤ if a.isRefused r then a.limits.maxEntrySize + 1 else 0 := by
  cases hc : a.contentOf r with
  | ok content =>
    rw [wasted, hc]
    exact Nat.zero_le _
  | error e =>
    rw [wasted, isRefused, hc, pulled]
    dsimp only
    by_cases hdeclared : a.limits.maxEntrySize < r.size
    · rw [if_pos hdeclared]
      exact Nat.zero_le _
    · have hrefused : (decide (r.size ≤ a.limits.maxEntrySize) &&
          !(Except.error e : Except ArchiveError ByteArray).isOk) = true := by
        rw [decide_eq_true (Nat.not_lt.mp hdeclared)]
        rfl
      rw [if_neg hdeclared, if_pos hrefused]
      cases hpull : a.pull r with
      | error fault => exact hspilled r
      | ok content => exact size_le_of_pull hpull

/-! ### A walk -/

/-- The entries that a walk reads: it answers for one after another until it ends. -/
def visited (entries : List Zip.Record) (a : Archive) : List Zip.Record :=
  (members entries).take (readAll entries a).1.length

/-- Number of bytes that come out of the entries of an archive in a walk over all of them. -/
def work (spilled : Zip.Record → Nat) (a : Archive) : Nat :=
  ((visited a.entries a).map (a.pulled spilled)).sum

/-- **The counter says what has been charged**, and that is beyond the budget by one entry at
most. -/
theorem visited_charged (ha : a.bytesRead ≤ a.limits.maxTotalSize) (entries : List Zip.Record) :
    (readAll entries a).2 = a.counting (a.totalSize (visited entries a)) ∧
      a.bytesRead + a.totalSize (visited entries a) ≤
        a.limits.maxTotalSize + a.limits.maxEntrySize := by
  by_cases hfits : a.bytesRead + a.totalSize (members entries) ≤ a.limits.maxTotalSize
  · have hread := readAll_append hfits []
    rw [List.append_nil] at hread
    have hvisited : visited entries a = members entries := by
      rw [visited, hread, List.take_of_length_le]
      simp [readAll]
    rw [hvisited, hread]
    exact ⟨rfl, Nat.le_add_right_of_le hfits⟩
  · -- the walk ends with the entry that makes the bytes too many
    obtain ⟨front, r, back, hover⟩ := exists_overruns ha (Nat.lt_of_not_le hfits)
    obtain ⟨content, hcontent, hbefore, -⟩ := hover.bytes
    have hentries := hover.entries_eq
    have hread := hover.readAll_eq back
    rw [← hentries] at hread
    have hmembers : members entries = members (front ++ [r]) ++ members back := by
      rw [hentries, ← members_append, List.append_assoc, List.singleton_append]
    have hlength : (readAll entries a).1.length = (members (front ++ [r])).length := by
      rw [hread, members_append, members_cons hover.isDirectory_eq]
      simp
    have hvisited : visited entries a = members (front ++ [r]) := by
      rw [visited, hlength, hmembers, List.take_left]
    have hbytes := totalSize_members_concat hover.isDirectory_eq hcontent front
    have hsize := (contentOf_eq_ok.mp hcontent).2.2
    rw [hvisited, hread]
    refine ⟨rfl, ?_⟩
    rw [hbytes]
    omega

/-- What comes out of some entries is charged or wasted. -/
private theorem sum_pulled (spilled : Zip.Record → Nat) (a : Archive) (rs : List Zip.Record) :
    (rs.map (a.pulled spilled)).sum = a.totalSize rs + (rs.map (a.wasted spilled)).sum := by
  induction rs with
  | nil => rfl
  | cons r rs ih =>
    rw [List.map_cons, List.sum_cons, totalSize_cons, List.map_cons, List.sum_cons, pulled_eq, ih]
    omega

private theorem sum_wasted_le (hspilled : ∀ r, spilled r ≤ a.limits.maxEntrySize + 1)
    (rs : List Zip.Record) :
    (rs.map (a.wasted spilled)).sum ≤
      (rs.filter a.isRefused).length * (a.limits.maxEntrySize + 1) := by
  induction rs with
  | nil => exact Nat.zero_le _
  | cons r rs ih =>
    have hr := wasted_le hspilled r
    rw [List.map_cons, List.sum_cons]
    cases hrefused : a.isRefused r with
    | false =>
      rw [hrefused, if_neg Bool.false_ne_true] at hr
      rw [List.filter_cons_of_neg (by simp [hrefused])]
      omega
    | true =>
      rw [hrefused, if_pos rfl] at hr
      rw [List.filter_cons_of_pos hrefused, List.length_cons, Nat.succ_mul]
      omega

/-- **What a walk costs.** Let an archive be opened and all its entries be read. What comes out of
them is what the counter says and what is wasted. The former is beyond the budget by one entry at
most; of the latter, each refused entry accounts for one byte more than an entry may have at most,
and for just so many if it turns out too large. -/
theorem work_le_of_openAt (files : Files) (path : String) (limits : ArchiveLimits) (j : Journal)
    (a : Archive) (hopen : ((openAt files path limits).run j).1 = .ok a)
    (spilled : Zip.Record → Nat) (hspilled : ∀ r, spilled r ≤ limits.maxEntrySize + 1) :
    let refused := (visited a.entries a).filter a.isRefused
    a.work spilled = a.files.2.bytesRead + ((visited a.entries a).map (a.wasted spilled)).sum ∧
      a.files.2.bytesRead ≤ limits.maxTotalSize + limits.maxEntrySize ∧
      a.work spilled ≤ limits.maxTotalSize + limits.maxEntrySize +
        refused.length * (limits.maxEntrySize + 1) ∧
      ∀ r ∈ refused, ∀ content, a.pull r = .ok content →
        a.wasted spilled r = limits.maxEntrySize + 1 := by
  intro refused
  obtain ⟨-, rfl, hbytes⟩ := eq_of_openAt hopen
  obtain ⟨hafter, hcharged⟩ := visited_charged (by rw [hbytes]; exact Nat.zero_le _) a.entries
  have hcounter : a.files.2.bytesRead = a.totalSize (visited a.entries a) := by
    rw [Archive.files, hafter, counting, hbytes, Nat.zero_add]
  rw [hbytes, Nat.zero_add] at hcharged
  have hwasted := sum_wasted_le hspilled (visited a.entries a)
  have hwork := sum_pulled spilled a (visited a.entries a)
  rw [hcounter, work, hwork]
  refine ⟨rfl, hcharged, Nat.add_le_add hcharged hwasted, fun r hr content hpull => ?_⟩
  obtain ⟨hdeclared, hsize⟩ := lt_size_of_isRefused (List.mem_filter.mp hr).2 hpull
  exact wasted_of_pull hdeclared hpull hsize

/-- An entry that declares one byte and has four. -/
def understated (name : String) (start : Nat) : Zip.Record where
  name := name
  encrypted := false
  method := 0
  checksum := 1813341303
  packedSize := 4
  size := 1
  start := start

/-- An archive of three such entries, opened with room for one byte each. -/
def threeUnderstated : Archive where
  path := "a.zip"
  data := ⟨#[80, 75, 3, 4, 20, 0, 0, 0, 0, 0, 0, 0, 33, 0, 119, 100, 21, 108, 4, 0, 0, 0, 1, 0, 0,
    0, 1, 0, 0, 0, 97, 120, 120, 120, 120, 80, 75, 3, 4, 20, 0, 0, 0, 0, 0, 0, 0, 33, 0, 119, 100,
    21, 108, 4, 0, 0, 0, 1, 0, 0, 0, 1, 0, 0, 0, 98, 120, 120, 120, 120, 80, 75, 3, 4, 20, 0, 0, 0,
    0, 0, 0, 0, 33, 0, 119, 100, 21, 108, 4, 0, 0, 0, 1, 0, 0, 0, 1, 0, 0, 0, 99, 120, 120, 120,
    120, 80, 75, 1, 2, 20, 3, 20, 0, 0, 0, 0, 0, 0, 0, 33, 0, 119, 100, 21, 108, 4, 0, 0, 0, 1, 0,
    0, 0, 1, 0, 0, 0, 0, 0, 0, 0, 0, 0, 0, 0, 0, 0, 0, 0, 0, 0, 97, 80, 75, 1, 2, 20, 3, 20, 0, 0,
    0, 0, 0, 0, 0, 33, 0, 119, 100, 21, 108, 4, 0, 0, 0, 1, 0, 0, 0, 1, 0, 0, 0, 0, 0, 0, 0, 0, 0,
    0, 0, 0, 0, 35, 0, 0, 0, 98, 80, 75, 1, 2, 20, 3, 20, 0, 0, 0, 0, 0, 0, 0, 33, 0, 119, 100, 21,
    108, 4, 0, 0, 0, 1, 0, 0, 0, 1, 0, 0, 0, 0, 0, 0, 0, 0, 0, 0, 0, 0, 0, 70, 0, 0, 0, 99, 80, 75,
    5, 6, 0, 0, 0, 0, 3, 0, 3, 0, 141, 0, 0, 0, 105, 0, 0, 0, 0, 0]⟩
  entries := [understated "a" 0, understated "b" 35, understated "c" 70]
  limits := { maxEntrySize := 1, maxTotalSize := 3 }

private theorem openAt_threeUnderstated :
    ((openAt (fun _ => some (.file threeUnderstated.data)) "a.zip"
      { maxEntrySize := 1, maxTotalSize := 3 }).run {}).1 = .ok threeUnderstated := by
  have hentries : readEntries threeUnderstated.data { maxEntrySize := 1, maxTotalSize := 3 } =
      .ok threeUnderstated.entries := by decide +kernel
  exact openAt_eq_ok.mpr ⟨threeUnderstated.data, threeUnderstated.entries, rfl, hentries, rfl⟩

/-- All three entries are refused. -/
theorem work_le_of_openAt_threeUnderstated :
    ((openAt (fun _ => some (.file threeUnderstated.data)) "a.zip"
        { maxEntrySize := 1, maxTotalSize := 3 }).run {}).1 = .ok threeUnderstated ∧
      (threeUnderstated.work fun _ => 0) ≤ 3 + 1 + 3 * (1 + 1) := by
  obtain ⟨-, -, hwork, -⟩ := work_le_of_openAt _ "a.zip" { maxEntrySize := 1, maxTotalSize := 3 }
    {} threeUnderstated openAt_threeUnderstated (fun _ => 0) fun _ => Nat.zero_le _
  have hrefused : ((visited threeUnderstated.entries threeUnderstated).filter
      threeUnderstated.isRefused).length = 3 := by decide +kernel
  rw [hrefused] at hwork
  exact ⟨openAt_threeUnderstated, hwork⟩

/-- No bound on the archive bounds the last term: here more comes out than the budget, one entry and
one byte more. -/
theorem lt_work_threeUnderstated :
    ((openAt (fun _ => some (.file threeUnderstated.data)) "a.zip"
        { maxEntrySize := 1, maxTotalSize := 3 }).run {}).1 = .ok threeUnderstated ∧
      3 + 1 + 1 < threeUnderstated.work fun _ => 0 :=
  ⟨openAt_threeUnderstated, by decide +kernel⟩

end Archive

end PackageScan
