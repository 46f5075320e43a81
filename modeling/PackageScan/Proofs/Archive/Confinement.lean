import PackageScan.Proofs.Archive.Sweeping

/-!
# Entry names stay below the place of unpacking

Unpacking an archive takes the names of its entries for paths. Whether the slash, the backslash or
both of them end a component is up to who unpacks (`EntryName.Separators`), and so is the directory
to start from. A name is confined (`EntryName.IsConfined`) if a walk along its components stays in
that directory or below it, step by step, and if nothing in it leads there by another way: a root, a
drive, or a zero character that cuts the name off.

The check is made on the name with slashes for backslashes, that is on the reading in which both of
them end a component. Components of the other readings consist of whole components of this one
(`EntryName.components_both`), so two dots that are a component in any reading are one there
(`EntryName.isSafe_iff`).
-/

namespace PackageScan

namespace EntryName

/-- The characters that end a component. -/
inductive Separators where
  /-- The slash. -/
  | slash
  /-- The backslash. -/
  | backslash
  /-- Either of them. -/
  | both
  deriving DecidableEq, Repr

/-- Does the character end a component? -/
def Separators.has : Separators → Char → Bool
  | slash, c => c = '/'
  | backslash, c => c = '\\'
  | both, c => c = '/' || c = '\\'

/-- The components of a name. -/
def components (separators : Separators) (name : List Char) : List (List Char) :=
  name.splitOnP separators.has

/-- The directory that a component leads to. A directory is given by the names on the way to it from
the root; from the root the way up leads to the root. -/
def enter (directory : List (List Char)) (component : List Char) : List (List Char) :=
  if component = [] ∨ component = ['.'] then directory
  else if component = ['.', '.'] then directory.dropLast
  else directory ++ [component]

/-- The name starts with the letter of a drive. -/
def IsDriveQualified (name : List Char) : Prop :=
  ∃ letter rest, name = letter :: ':' :: rest ∧
    ('a' ≤ letter ∧ letter ≤ 'z' ∨ 'A' ≤ letter ∧ letter ≤ 'Z')

/-- Read with the separators, the name leads from no directory out of that directory. -/
structure IsConfined (separators : Separators) (name : String) : Prop where
  /-- It has a character. -/
  ne_empty : name ≠ ""
  /-- No zero character cuts it off. -/
  no_zero : '\x00' ∉ name.toList
  /-- It does not start at a root. -/
  relative : ∀ c rest, name.toList = c :: rest → separators.has c = false
  /-- It does not start at a drive. -/
  no_drive : ¬ IsDriveQualified name.toList
  /-- After any number of components the walk is in the directory or below it. -/
  stays : ∀ directory front, front <+: components separators name.toList →
    directory <+: front.foldl enter directory

variable {name : List Char} {separators : Separators}

/-! ### Components -/

private theorem components_cons (separators : Separators) (c : Char) (rest : List Char) :
    components separators (c :: rest) =
      if separators.has c = true then [] :: components separators rest
      else (components separators rest).modifyHead (c :: ·) :=
  List.splitOnP_cons_eq_if_modifyHead c rest

private theorem exists_components_eq (separators : Separators) (name : List Char) :
    ∃ first others, components separators name = first :: others :=
  List.exists_cons_of_ne_nil (List.splitOnP_ne_nil _ _)

/-- Where the check cuts a name, either character ends a component. -/
private theorem segments_normalize (name : List Char) :
    segments (normalize name) = components .both name := by
  induction name with
  | nil => rfl
  | cons c rest ih =>
    obtain ⟨first, others, hrest⟩ := exists_components_eq .both rest
    rw [components_cons, hrest, List.modifyHead_cons]
    rw [hrest] at ih
    by_cases hback : c = '\\'
    · subst hback
      rw [normalize, List.map_cons, if_pos rfl, ← normalize, segments, if_pos rfl, ih]
      rfl
    · rw [normalize, List.map_cons, if_neg hback, ← normalize, segments, ih, Separators.has]
      by_cases hslash : c = '/'
      · rw [if_pos hslash, if_pos (by simp [hslash])]
      · rw [if_neg hslash, if_neg (by simp [hslash, hback])]

/-- A character that ends a component in some reading does so when both do. -/
private theorem has_both {c : Char} (h : separators.has c = true) :
    Separators.both.has c = true := by
  cases separators with
  | slash => exact Bool.or_eq_true_iff.mpr (.inl h)
  | backslash => exact Bool.or_eq_true_iff.mpr (.inr h)
  | both => exact h

/-- **The finest reading.** If both characters end a component, the components are those of the
components in another reading. -/
theorem components_both (separators : Separators) (name : List Char) :
    components .both name = (components separators name).flatMap (components .both) := by
  induction name with
  | nil => rfl
  | cons c rest ih =>
    rw [components_cons, components_cons]
    by_cases hends : separators.has c = true
    · rw [if_pos hends, if_pos (has_both hends), List.flatMap_cons, ih]
      rfl
    · -- the first of the coarser components grows, and so does the first of its components
      obtain ⟨first, others, hrest⟩ := exists_components_eq separators rest
      obtain ⟨finer, more, hfirst⟩ := exists_components_eq .both first
      rw [hrest, List.flatMap_cons, hfirst, List.cons_append] at ih
      rw [if_neg hends, hrest, List.modifyHead_cons, List.flatMap_cons, components_cons, hfirst, ih]
      split_ifs <;> rfl

/-- Two dots that are a component in some reading are one when both characters end components. -/
private theorem dots_mem_components_both (h : ['.', '.'] ∈ components separators name) :
    ['.', '.'] ∈ components .both name := by
  have hdots : components .both ['.', '.'] = [['.', '.']] := by decide
  rw [components_both separators]
  refine List.mem_flatMap.mpr ⟨_, h, ?_⟩
  rw [hdots]
  exact List.mem_singleton_self _

/-! ### Walks -/

/-- A component other than two dots does not lead up. -/
private theorem prefix_enter {component : List Char} (h : component ≠ ['.', '.'])
    (directory : List (List Char)) : directory <+: enter directory component := by
  rw [enter, if_neg h]
  split_ifs
  · exact List.prefix_refl _
  · exact List.prefix_append _ _

/-- A walk that never leads up stays below the directory it starts from. -/
private theorem prefix_foldl_enter {walk : List (List Char)} (h : ['.', '.'] ∉ walk)
    (directory : List (List Char)) : directory <+: walk.foldl enter directory := by
  induction walk generalizing directory with
  | nil => exact List.prefix_refl _
  | cons component rest ih =>
    rw [List.mem_cons, not_or] at h
    exact (prefix_enter (Ne.symm h.1) directory).trans (ih h.2 _)

/-! ### The check -/

private theorem hasDrive_cons_cons (c d : Char) (rest : List Char) :
    hasDrive (c :: d :: rest) = true ↔ d = ':' ∧ c.isAlpha = true := by
  by_cases hcolon : d = ':'
  · subst hcolon
    rw [hasDrive]
    exact (and_iff_right rfl).symm
  · rw [hasDrive]
    · exact iff_of_false Bool.false_ne_true fun h => hcolon h.1
    · rintro _ _ ⟨-, rfl, -⟩
      exact hcolon rfl

private theorem isAlpha_iff (c : Char) :
    c.isAlpha = true ↔ 'a' ≤ c ∧ c ≤ 'z' ∨ 'A' ≤ c ∧ c ≤ 'Z' := by
  have halpha : c.isAlpha = (c.isUpper || c.isLower) := rfl
  have hupper : c.isUpper = decide ('A' ≤ c ∧ c ≤ 'Z') := rfl
  have hlower : c.isLower = (decide ('a' ≤ c) && decide (c ≤ 'z')) := rfl
  rw [halpha, hupper, hlower, Bool.or_eq_true, Bool.and_eq_true, decide_eq_true_iff,
    decide_eq_true_iff, decide_eq_true_iff, or_comm]

/-- Replacing backslashes touches neither a letter nor a colon, so the check finds each drive. -/
private theorem hasDrive_normalize (name : List Char) :
    hasDrive (normalize name) = true ↔ IsDriveQualified name := by
  rcases name with _ | ⟨c, _ | ⟨d, rest⟩⟩
  · refine iff_of_false Bool.false_ne_true ?_
    rintro ⟨_, _, h, -⟩
    cases h
  · refine iff_of_false Bool.false_ne_true ?_
    rintro ⟨_, _, h, -⟩
    cases h
  · have hcolon : (if d = '\\' then '/' else d) = ':' ↔ d = ':' := by
      split_ifs with h
      · rw [h]
        decide
      · exact Iff.rfl
    have halpha : (if c = '\\' then '/' else c).isAlpha = c.isAlpha := by
      split_ifs with h
      · rw [h]
        decide
      · rfl
    rw [normalize, List.map_cons, List.map_cons, hasDrive_cons_cons, hcolon, halpha, isAlpha_iff]
    constructor
    · rintro ⟨rfl, h⟩
      exact ⟨c, rest, rfl, h⟩
    · rintro ⟨letter, others, h, hdrive⟩
      cases h
      exact ⟨rfl, hdrive⟩

private theorem head?_normalize (name : List Char) :
    (normalize name).head? ≠ some '/' ↔
      ∀ c rest, name = c :: rest → Separators.both.has c = false := by
  cases name with
  | nil => simp [normalize]
  | cons c rest =>
    rw [normalize, List.map_cons, List.head?_cons, Ne, Option.some_inj]
    constructor
    · rintro h _ _ ⟨⟩
      by_cases hback : c = '\\' <;> simp_all [Separators.has]
    · intro h
      have hc := h c rest rfl
      by_cases hback : c = '\\' <;> simp_all [Separators.has]

/-- **What the check asks for.** -/
theorem isSafe_iff (name : String) :
    isSafe name = true ↔
      name ≠ "" ∧ '\x00' ∉ name.toList ∧
        (∀ c rest, name.toList = c :: rest → Separators.both.has c = false) ∧
        ¬ IsDriveQualified name.toList ∧ ['.', '.'] ∉ components .both name.toList := by
  rw [← head?_normalize, ← hasDrive_normalize, ← segments_normalize, isSafe]
  simp only [Bool.and_eq_true, Bool.not_eq_true', List.isEmpty_eq_false_iff, bne_iff_ne, ne_eq,
    String.toList_eq_nil_iff, List.contains_eq_mem, decide_eq_false_iff_not, and_assoc,
    Bool.not_eq_true]

/-- A name that the check lets through is confined, whichever characters end a component. -/
private theorem isConfined_of_isSafe {name : String} (h : isSafe name = true)
    (separators : Separators) :
    IsConfined separators name := by
  obtain ⟨hempty, hzero, hroot, hdrive, hdots⟩ := (isSafe_iff name).mp h
  refine ⟨hempty, hzero, fun c rest hname => ?_, hdrive, fun directory front hfront => ?_⟩
  · by_contra hends
    exact absurd (has_both (eq_true_of_ne_false hends)) (by rw [hroot c rest hname]; simp)
  · refine prefix_foldl_enter (fun hmem => hdots ?_) directory
    exact dots_mem_components_both (hfront.subset hmem)

end EntryName

namespace Archive

/-- An archive that is acceptable has no other names but those that the check lets through. -/
private theorem isSafe_of_firstCorrupt? {data : ByteArray} {index : Nat} {entries : List Zip.Record}
    (h : firstCorrupt? data index entries = none) :
    ∀ r ∈ entries, EntryName.isSafe r.name = true := by
  induction entries generalizing index with
  | nil => exact fun r hr => absurd hr List.not_mem_nil
  | cons r rest ih =>
    rw [firstCorrupt?] at h
    split at h
    · cases h
    · split_ifs at h with hsafe
      exact List.forall_mem_cons.mpr ⟨hsafe, ih h⟩

/-- **No name leads out.** If an archive can be opened, the names of all its entries are confined,
in all three ways to read them as paths. -/
theorem isConfined_of_openAt (files : Files) (path : String) (limits : ArchiveLimits) (j : Journal)
    (a : Archive) (hopen : ((openAt files path limits).run j).1 = .ok a) :
    ∀ r ∈ a.entries, ∀ separators, EntryName.IsConfined separators r.name := by
  obtain ⟨data, entries, -, hentries, rfl⟩ := openAt_eq_ok.mp hopen
  obtain ⟨-, -, hcorrupt, -⟩ := readEntries_eq_ok.mp hentries
  exact fun r hr => EntryName.isConfined_of_isSafe (isSafe_of_firstCorrupt? hcorrupt r hr)

/-- An archive with one entry, the name of which has dots and a colon in places where they do no
harm. -/
def dotted : Archive where
  path := "a.zip"
  data := ⟨#[80, 75, 3, 4, 20, 0, 0, 0, 0, 0, 0, 0, 1, 33, 131, 22, 220, 140, 1, 0, 0, 0, 1, 0, 0,
    0, 10, 0, 0, 0, 97, 47, 46, 46, 98, 92, 46, 92, 99, 58, 120, 80, 75, 1, 2, 20, 3, 20, 0, 0, 0,
    0, 0, 0, 0, 1, 33, 131, 22, 220, 140, 1, 0, 0, 0, 1, 0, 0, 0, 10, 0, 0, 0, 0, 0, 0, 0, 0, 0, 0,
    0, 128, 1, 0, 0, 0, 0, 97, 47, 46, 46, 98, 92, 46, 92, 99, 58, 80, 75, 5, 6, 0, 0, 0, 0, 1, 0,
    1, 0, 56, 0, 0, 0, 41, 0, 0, 0, 0, 0]⟩
  entries :=
    [{ name := "a/..b\\.\\c:", encrypted := false, method := 0, checksum := 2363233923,
       packedSize := 1, size := 1, start := 0 }]
  limits := {}

theorem isConfined_of_openAt_dotted :
    ((openAt (fun _ => some (.file dotted.data)) "a.zip" {}).run {}).1 = .ok dotted ∧
      ∀ separators, EntryName.IsConfined separators "a/..b\\.\\c:" := by
  have hopen : ((openAt (fun _ => some (.file dotted.data)) "a.zip" {}).run {}).1 = .ok dotted :=
    openAt_eq_ok.mpr ⟨dotted.data, dotted.entries, rfl, by decide +kernel, rfl⟩
  exact ⟨hopen, isConfined_of_openAt _ "a.zip" {} {} dotted hopen _ List.mem_cons_self⟩

end Archive

end PackageScan
