import PackageScan.Proofs.Pattern.Counting
import PackageScan.Proofs.Regex.Reading

/-!
# Counting texts

A text string is counted where its bytes are, compared one by one (`Pattern.OccursAt`), and its wide
form where they are with a zero byte after each (`Pattern.OccursWideAt`). This is said here without
patterns, escapes and searches. What is compiled comes to exactly these numbers, and it is what the
escaped bytes stand for as a regular expression, whatever bytes they are (`Pattern.count_text`).

* **Bytes**: a set that is closed under the other case holds the bytes that are the same when case
  is ignored (`Pattern.contains_byteSet`).
* **Runs**: the pattern of given bytes describes one run from each offset at which they occur
  (`Pattern.matches_literal`), so the preferred match there ends with the last of them
  (`Pattern.preferredStop?_literal`).
* **Words**: what stands next to an occurrence is looked up at both of its ends
  (`Pattern.isWordBounded_iff`).
-/

namespace PackageScan

namespace Pattern

variable {data : ByteArray} {nocase : Bool} {bytes : List UInt8} {p q : Nat}

/-! ### Occurrences -/

/-- The small letter for a capital ASCII letter; any other byte as it is. -/
def lowerCase (b : UInt8) : UInt8 := if 65 ≤ b.toNat ∧ b.toNat ≤ 90 then b + 32 else b

/-- The bytes are equal, or they are the same ASCII letter and case is ignored. -/
def SameByte (nocase : Bool) (b x : UInt8) : Prop :=
  b = x ∨ nocase = true ∧ lowerCase b = lowerCase x

/-- The byte is at the offset. -/
def IsByteAt (nocase : Bool) (data : ByteArray) (b : UInt8) (p : Nat) : Prop :=
  ∃ x, byteAt? data p = some x ∧ SameByte nocase b x

/-- The bytes are in the data from the offset on. -/
def OccursAt (nocase : Bool) (data : ByteArray) (bytes : List UInt8) (p : Nat) : Prop :=
  ∀ i, (hi : i < bytes.length) → IsByteAt nocase data bytes[i] (p + i)

/-- The bytes are in the data from the offset on, each with a zero byte after it. -/
def OccursWideAt (nocase : Bool) (data : ByteArray) (bytes : List UInt8) (p : Nat) : Prop :=
  ∀ i, (hi : i < bytes.length) →
    IsByteAt nocase data bytes[i] (p + 2 * i) ∧ byteAt? data (p + 2 * i + 1) = some 0

/-- An ASCII letter or digit. -/
def IsLetterOrDigit (b : UInt8) : Prop :=
  48 ≤ b.toNat ∧ b.toNat ≤ 57 ∨ 65 ≤ b.toNat ∧ b.toNat ≤ 90 ∨ 97 ≤ b.toNat ∧ b.toNat ≤ 122

/-- Neither the byte right after an occurrence nor the one `step` bytes before it is there and is a
letter or digit. -/
def StandsAlone (data : ByteArray) (step start stop : Nat) : Prop :=
  (∀ b, byteAt? data stop = some b → ¬IsLetterOrDigit b) ∧
    ∀ before b, before + step = start → byteAt? data before = some b → ¬IsLetterOrDigit b

/-! ### Bytes -/

/-- The set of a byte, closed under the other case if case is ignored. -/
def byteSet (nocase : Bool) (b : UInt8) : ByteSet :=
  if nocase then (ByteSet.single b).foldCase else ByteSet.single b

private theorem toNat_lowerCase (b : UInt8) :
    (lowerCase b).toNat =
      if 65 ≤ b.toNat ∧ b.toNat ≤ 90 then b.toNat + 32 else b.toNat := by
  rw [lowerCase]
  split_ifs with hupper
  · rw [UInt8.toNat_add, Nat.mod_eq_of_lt]
    · rfl
    · exact Nat.lt_of_le_of_lt (Nat.add_le_add_right hupper.2 32) (by decide)
  · rfl

/-- Two bytes are letters in different cases exactly if they have the same small letter. -/
private theorem swapCase_eq_iff {b x : UInt8} (hne : x ≠ b) :
    ByteSet.swapCase x = b ↔ lowerCase b = lowerCase x := by
  have hswap := Regex.Reader.toNat_swapCase x
  have hb := toNat_lowerCase b
  have hx := toNat_lowerCase x
  rw [ne_eq, ← UInt8.toNat_inj] at hne
  rw [← UInt8.toNat_inj, ← UInt8.toNat_inj]
  split_ifs at hswap hb hx <;> omega

theorem contains_byteSet {b x : UInt8} :
    (byteSet nocase b).contains x = true ↔ SameByte nocase b x := by
  cases nocase with
  | false =>
    change (x == b) = true ↔ b = x ∨ false = true ∧ _
    rw [beq_iff_eq, eq_comm]
    exact (or_iff_left fun h => nomatch h.1).symm
  | true =>
    change (x == b || ByteSet.swapCase x == b) = true ↔
      b = x ∨ true = true ∧ lowerCase b = lowerCase x
    rw [Bool.or_eq_true, beq_iff_eq, beq_iff_eq, eq_comm (a := x)]
    by_cases hne : b = x
    · exact iff_of_true (.inl hne) (.inl hne)
    · rw [swapCase_eq_iff (Ne.symm hne), and_iff_right rfl]

/-- Nothing else is a zero byte when case is ignored. -/
private theorem isByteAt_zero : IsByteAt nocase data 0 p ↔ byteAt? data p = some 0 := by
  have hsame (x : UInt8) : SameByte nocase 0 x ↔ x = 0 := by
    constructor
    · rintro (hx | ⟨-, hx⟩)
      · exact hx.symm
      · have hlower := toNat_lowerCase x
        rw [← hx] at hlower
        have hzero : (lowerCase 0).toNat = 0 := rfl
        have hnat : x.toNat = 0 := by
          split_ifs at hlower <;> omega
        exact UInt8.toNat_inj.mp hnat
    · rintro rfl
      exact .inl rfl
  simp only [IsByteAt, hsame, exists_eq_right]

private theorem occursAt_cons {b : UInt8} :
    OccursAt nocase data (b :: bytes) p ↔
      IsByteAt nocase data b p ∧ OccursAt nocase data bytes (p + 1) := by
  constructor
  · intro h
    refine ⟨h 0 (Nat.succ_pos _), fun i hi => ?_⟩
    have hnext := h (i + 1) (Nat.succ_lt_succ hi)
    rwa [Nat.add_right_comm, Nat.add_assoc]
  · rintro ⟨hb, h⟩ i hi
    cases i with
    | zero => exact hb
    | succ i =>
      have hnext := h i (Nat.lt_of_succ_lt_succ hi)
      rwa [Nat.add_assoc, Nat.add_comm 1 i] at hnext

private theorem occursWideAt_cons {b : UInt8} :
    OccursWideAt nocase data (b :: bytes) p ↔
      IsByteAt nocase data b p ∧ byteAt? data (p + 1) = some 0 ∧
        OccursWideAt nocase data bytes (p + 2) := by
  constructor
  · intro h
    obtain ⟨hb, hzero⟩ := h 0 (Nat.succ_pos _)
    refine ⟨hb, hzero, fun i hi => ?_⟩
    have hnext := h (i + 1) (Nat.succ_lt_succ hi)
    rwa [show p + 2 * (i + 1) = p + 2 + 2 * i by omega] at hnext
  · rintro ⟨hb, hzero, h⟩ i hi
    cases i with
    | zero => exact ⟨hb, hzero⟩
    | succ i =>
      have hnext := h i (Nat.lt_of_succ_lt_succ hi)
      rwa [show p + 2 + 2 * i = p + 2 * (i + 1) by omega] at hnext

/-- The wide form is that of the widened bytes. -/
private theorem occursAt_widen :
    OccursAt nocase data (widen bytes) p ↔ OccursWideAt nocase data bytes p := by
  induction bytes generalizing p with
  | nil => exact iff_of_true (fun i hi => nomatch hi) fun i hi => nomatch hi
  | cons b bytes ih =>
    rw [show widen (b :: bytes) = b :: 0 :: widen bytes from rfl, occursAt_cons, occursAt_cons,
      isByteAt_zero, ih, occursWideAt_cons]

private theorem length_widen (bytes : List UInt8) : (widen bytes).length = 2 * bytes.length := by
  induction bytes with
  | nil => rfl
  | cons b bytes ih =>
    rw [show widen (b :: bytes) = b :: 0 :: widen bytes from rfl]
    simp only [List.length_cons, ih]
    omega

private theorem widen_ne_nil (hne : bytes ≠ []) : widen bytes ≠ [] := by
  obtain ⟨b, bytes, rfl⟩ := List.exists_cons_of_ne_nil hne
  exact List.cons_ne_nil b _

/-! ### Runs of given bytes -/

/-- The patterns of given bytes, one by one. -/
def units (nocase : Bool) (bytes : List UInt8) : List Regex :=
  bytes.map fun b => .set (byteSet nocase b)

private theorem literal_cons (nocase : Bool) (b : UInt8) (bytes : List UInt8) :
    literal nocase (b :: bytes) =
      (units nocase bytes).foldl Regex.seq (.set (byteSet nocase b)) := by
  rw [units, List.foldl_map]
  rfl

private theorem matchesAll_units :
    Regex.MatchesAll data (units nocase bytes) p q ↔
      p ≤ data.size ∧ q = p + bytes.length ∧ OccursAt nocase data bytes p := by
  induction bytes generalizing p with
  | nil =>
    constructor
    · rintro ⟨rfl, hp⟩
      exact ⟨hp, rfl, fun i hi => nomatch hi⟩
    · rintro ⟨hp, rfl, -⟩
      exact ⟨rfl, hp⟩
  | cons b bytes ih =>
    rw [occursAt_cons, List.length_cons]
    constructor
    · rintro ⟨m, ⟨rfl, x, hx, hb⟩, hrest⟩
      obtain ⟨-, rfl, hoccurs⟩ := ih.mp hrest
      have hlt : p < data.size := lt_of_byteAt? hx
      exact ⟨Nat.le_of_lt hlt, by omega, ⟨x, hx, contains_byteSet.mp hb⟩, hoccurs⟩
    · rintro ⟨-, rfl, ⟨x, hx, hb⟩, hoccurs⟩
      have hlt : p < data.size := lt_of_byteAt? hx
      refine ⟨p + 1, ⟨rfl, x, hx, contains_byteSet.mpr hb⟩, ih.mpr ⟨hlt, by omega, hoccurs⟩⟩

/-- **Runs of given bytes.** The pattern of some bytes describes one run from each offset at which
they occur. -/
theorem matches_literal (hne : bytes ≠ []) :
    (literal nocase bytes).Matches data p q ↔
      q = p + bytes.length ∧ OccursAt nocase data bytes p := by
  obtain ⟨b, bytes, rfl⟩ := List.exists_cons_of_ne_nil hne
  rw [literal_cons, Regex.matches_foldl_seq]
  change Regex.MatchesAll data (units nocase (b :: bytes)) p q ↔ _
  refine matchesAll_units.trans (and_iff_right_of_imp ?_)
  rintro ⟨-, hoccurs⟩
  obtain ⟨x, hx, -⟩ := hoccurs 0 (Nat.succ_pos _)
  exact Nat.le_of_lt (lt_of_byteAt? hx)

private theorem beginsAt_literal (hne : bytes ≠ []) :
    (literal nocase bytes).BeginsAt data p ↔ OccursAt nocase data bytes p := by
  simp only [Regex.BeginsAt, matches_literal hne, exists_eq_left]

/-- A chain of patterns is followed from the left. -/
private theorem follow_foldl_seq {r : Regex} {rs : List Regex} {rest : Nat → Option Nat} :
    (rs.foldl Regex.seq r).follow data rest =
      r.follow data (rs.foldr (fun s next => s.follow data next) rest) := by
  induction rs generalizing r with
  | nil => rfl
  | cons s rs ih =>
    rw [List.foldl_cons, ih]
    rfl

private theorem follow_units {rest : Nat → Option Nat} (h : OccursAt nocase data bytes p) :
    (units nocase bytes).foldr (fun s next => s.follow data next) rest p =
      rest (p + bytes.length) := by
  induction bytes generalizing p with
  | nil => rfl
  | cons b bytes ih =>
    obtain ⟨⟨x, hx, hb⟩, hoccurs⟩ := occursAt_cons.mp h
    change (Regex.set (byteSet nocase b)).follow data _ p = _
    rw [Regex.follow, hx]
    dsimp only
    rw [if_pos (contains_byteSet.mpr hb)]
    refine (ih hoccurs).trans (congrArg rest ?_)
    rw [List.length_cons]
    omega

/-- The preferred match of given bytes is the only one. -/
theorem preferredStop?_literal (hne : bytes ≠ []) (h : OccursAt nocase data bytes p) :
    (literal nocase bytes).preferredStop? data p = some (p + bytes.length) := by
  obtain ⟨b, bytes, rfl⟩ := List.exists_cons_of_ne_nil hne
  rw [Regex.preferredStop?, literal_cons, follow_foldl_seq]
  exact follow_units h

/-! ### Words -/

private theorem contains_alnum {b : UInt8} :
    ByteSet.alnum.contains b = true ↔ IsLetterOrDigit b := by
  have hrange (low high : UInt8) : (ByteSet.range low high).contains b = true ↔
      low.toNat ≤ b.toNat ∧ b.toNat ≤ high.toNat := by
    change (decide (low ≤ b) && decide (b ≤ high)) = true ↔ _
    rw [Bool.and_eq_true, decide_eq_true_eq, decide_eq_true_eq]
    exact Iff.rfl
  change ((ByteSet.range 97 122).contains b || (ByteSet.range 65 90).contains b ||
    (ByteSet.range 48 57).contains b) = true ↔ _
  rw [Bool.or_eq_true, Bool.or_eq_true, hrange, hrange, hrange]
  constructor
  · rintro ((hsmall | hcapital) | hdigit)
    · exact .inr (.inr hsmall)
    · exact .inr (.inl hcapital)
    · exact .inl hdigit
  · rintro (hdigit | hcapital | hsmall)
    · exact .inr hdigit
    · exact .inl (.inr hcapital)
    · exact .inl (.inl hsmall)

private theorem isWordAt_eq_false :
    isWordAt data p = false ↔ ∀ b, byteAt? data p = some b → ¬IsLetterOrDigit b := by
  rw [isWordAt, Option.any_eq_false]
  refine forall₂_congr fun b _ => ?_
  rw [← contains_alnum, Bool.not_eq_true]

/-- **Words.** What stands next to an occurrence is looked up right after it and as many bytes
before it as a character has. -/
theorem isWordBounded_iff {wide : Bool} {start stop : Nat} :
    isWordBounded data wide start stop = true ↔
      StandsAlone data (if wide then 2 else 1) start stop := by
  rw [isWordBounded]
  generalize (if wide = true then 2 else 1) = step
  rw [Bool.and_eq_true, Bool.not_eq_true', Bool.not_eq_true', Bool.and_eq_false_iff,
    decide_eq_false_iff_not, isWordAt_eq_false, isWordAt_eq_false, and_comm, StandsAlone]
  refine and_congr_right fun _ => ?_
  constructor
  · rintro (hbegin | hbefore) before b rfl hb
    · exact absurd (Nat.le_add_left step before) hbegin
    · rw [Nat.add_sub_cancel] at hbefore
      exact hbefore b hb
  · intro h
    by_cases hle : step ≤ start
    · exact .inr fun b hb => h (start - step) b (Nat.sub_add_cancel hle) hb
    · exact .inl hle

/-! ### Counts -/

/-- The offsets at which a text counts in its plain form. -/
def plainOffsets (m : StringModifiers) (data : ByteArray) (bytes : List UInt8) : Set Nat :=
  {p | OccursAt m.nocase data bytes p ∧
    (m.fullword = true → StandsAlone data 1 p (p + bytes.length))}

/-- The offsets at which a text counts in its wide form. -/
def wideOffsets (m : StringModifiers) (data : ByteArray) (bytes : List UInt8) : Set Nat :=
  {p | OccursWideAt m.nocase data bytes p ∧
    (m.fullword = true → StandsAlone data 2 p (p + 2 * bytes.length))}

/-- The bytes as the escapes of a regular expression. -/
def escaped (bytes : List UInt8) : String :=
  String.ofList (bytes.flatMap fun b => Hex.renderByte b.toNat)

private theorem countVariant_literal (hne : bytes ≠ []) (fullword wide : Bool) :
    countVariant fullword data ⟨literal nocase bytes, wide⟩ =
      {p | OccursAt nocase data bytes p ∧ (fullword = true →
        StandsAlone data (if wide then 2 else 1) p (p + bytes.length))}.ncard := by
  rw [countVariant_eq]
  congr 1
  ext p
  change _ ∧ _ ↔ _ ∧ _
  rw [beginsAt_literal hne]
  refine and_congr_right fun hoccurs => ?_
  rw [preferredStop?_literal hne hoccurs, Option.getD_some, isWordBounded_iff]

private theorem countVariant_plain (hne : bytes ≠ []) (m : StringModifiers) :
    countVariant m.fullword data ⟨literal m.nocase bytes, false⟩ =
      (plainOffsets m data bytes).ncard :=
  countVariant_literal hne m.fullword false

private theorem countVariant_wide (hne : bytes ≠ []) (m : StringModifiers) :
    countVariant m.fullword data ⟨literal m.nocase (widen bytes), true⟩ =
      (wideOffsets m data bytes).ncard := by
  rw [countVariant_literal (widen_ne_nil hne), length_widen]
  simp only [occursAt_widen]
  rfl

/-- The forms of given bytes that are asked for. -/
def forms (m : StringModifiers) (bytes : List UInt8) : List Variant :=
  (if m.matchesAscii then [⟨literal m.nocase bytes, false⟩] else []) ++
    (if m.wide then [⟨literal m.nocase (widen bytes), true⟩] else [])

private theorem regex_of_mem_forms {m : StringModifiers} {v : Variant} (h : v ∈ forms m bytes) :
    v.regex = literal m.nocase (if v.wide then widen bytes else bytes) := by
  rw [forms, List.mem_append] at h
  rcases h with h | h
  · split_ifs at h
    · obtain rfl := List.mem_singleton.mp h
      rfl
    · exact absurd h List.not_mem_nil
  · split_ifs at h
    · obtain rfl := List.mem_singleton.mp h
      rfl
    · exact absurd h List.not_mem_nil

/-- What is built are the forms that are asked for. -/
private theorem textVariants_eq_ok {limit : Nat} {m : StringModifiers} {variants : List Variant}
    (h : textVariants limit bytes m = .ok variants) : variants = forms m bytes := by
  rw [textVariants] at h
  rw [forms]
  split_ifs at h ⊢
  all_goals simp only [Outcome.ok_bind] at h
  · obtain ⟨plain, hplain, h⟩ := Outcome.bind_eq_ok.mp h
    obtain ⟨wide, hwide, h⟩ := Outcome.bind_eq_ok.mp h
    rw [← Except.ok.inj h, eq_of_build hplain, eq_of_build hwide]
  · obtain ⟨plain, hplain, h⟩ := Outcome.bind_eq_ok.mp h
    rw [← Except.ok.inj h, eq_of_build hplain]
  · obtain ⟨wide, hwide, h⟩ := Outcome.bind_eq_ok.mp h
    rw [← Except.ok.inj h, eq_of_build hwide]
  · exact (Except.ok.inj h).symm

/-- Escaped bytes are read as the pattern of these bytes. -/
private theorem exists_parse_escaped (nocase : Bool) (hne : bytes ≠ []) :
    ∃ r, Regex.parse { ignoreCase := nocase } (escaped bytes) = .ok r ∧
      ∀ data p q, r.Matches data p q ↔ (literal nocase bytes).Matches data p q := by
  let flags : Regex.Flags := { ignoreCase := nocase }
  let items : List Regex.Reader.Item :=
    bytes.map fun b => { regex := .set (Regex.Reader.fold flags (.single b)) }
  have hadds : Regex.Reader.AddsAll flags (bytes.flatMap fun b => Hex.renderByte b.toNat) items :=
    Regex.Reader.addsAll_renderByte rfl bytes
  have hdepth : ∀ item ∈ items, item.depth ≤ 0 :=
    List.forall_mem_map.mpr fun b _ => Nat.le_refl 0
  obtain ⟨r, hread, hmatches⟩ :=
    Regex.Reader.exists_parse_of_addsAll hadds rfl hdepth (by decide)
  refine ⟨r, hread, fun data p q => (hmatches data p q).trans ?_⟩
  rw [List.map_map]
  obtain ⟨b, bytes, rfl⟩ := List.exists_cons_of_ne_nil hne
  rw [literal_cons, Regex.matches_foldl_seq]
  exact Iff.rfl

/-- **Counting texts is exact.** -/
theorem count_text {limit : Nat} {decl : StringDecl} {pattern : Pattern}
    (hvalue : decl.value = .text bytes) (hne : bytes ≠ [])
    (hbuild : compile limit decl = .ok pattern) (data : ByteArray) :
    pattern.count data =
        (if decl.modifiers.wide && !decl.modifiers.ascii then 0
          else (plainOffsets decl.modifiers data bytes).ncard) +
        (if decl.modifiers.wide then (wideOffsets decl.modifiers data bytes).ncard else 0) ∧
      pattern.count? data = some (pattern.count data) ∧
      ∀ v ∈ pattern.variants, ∃ r,
        Regex.parse { ignoreCase := decl.modifiers.nocase }
          (escaped (if v.wide then widen bytes else bytes)) = .ok r ∧
        ∀ data p q, r.Matches data p q ↔ v.regex.Matches data p q := by
  rw [compile, hvalue] at hbuild
  obtain ⟨variants, hvariants, hpattern⟩ := Outcome.bind_eq_ok.mp hbuild
  obtain rfl := textVariants_eq_ok (Outcome.mapError_eq_ok.mp hvariants)
  obtain rfl := Except.ok.inj hpattern
  have hform (v : Variant) : (if v.wide then widen bytes else bytes) ≠ [] := by
    split_ifs
    · exact widen_ne_nil hne
    · exact hne
  refine ⟨?_, count?_eq _ data, fun v hv => ?_⟩
  · rw [count, ← countVariant_plain hne, ← countVariant_wide hne, forms,
      StringModifiers.matchesAscii]
    cases decl.modifiers.wide <;> cases decl.modifiers.ascii <;> simp
  · rw [regex_of_mem_forms hv]
    exact exists_parse_escaped _ (hform v)

/-- A text of two letters with all modifiers. -/
def shout : StringDecl where
  name := "shout"
  value := .text [104, 105]
  modifiers := { nocase := true, wide := true, ascii := true, fullword := true }
  span := .unknown

/-- What it looks for. -/
def shoutPattern : Pattern := ⟨"shout", forms shout.modifiers [104, 105], true⟩

/-- Data in which it occurs in its plain form at the beginning, once more in a longer word, and in
its wide form at the end. -/
def shouting : ByteArray := ⟨#[72, 105, 32, 72, 73, 73, 32, 32, 104, 0, 73, 0]⟩

/-- In this data it counts twice. -/
theorem count_text_shout :
    compile 1000 shout = .ok shoutPattern ∧ shoutPattern.count shouting = 2 ∧
      (plainOffsets shout.modifiers shouting [104, 105]).ncard +
        (wideOffsets shout.modifiers shouting [104, 105]).ncard = 2 ∧
      shoutPattern.count? shouting = some 2 := by
  have hbuild : compile 1000 shout = .ok shoutPattern := by
    rfl
  have htwo : shoutPattern.count shouting = 2 := by decide +kernel
  obtain ⟨hcount, hlookups, -⟩ := count_text rfl (List.cons_ne_nil _ _) hbuild shouting
  exact ⟨hbuild, htwo, hcount.symm.trans htwo, hlookups.trans (congrArg some htwo)⟩

end Pattern

end PackageScan
