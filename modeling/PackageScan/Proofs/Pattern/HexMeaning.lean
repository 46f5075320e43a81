import PackageScan.Proofs.Pattern.Counting
import PackageScan.Proofs.Pattern.HexReading
import PackageScan.Proofs.Regex.Groups

/-!
# What hex strings mean

The body of a hex string describes runs of bytes (`Hex.Describes`), and it becomes a pattern in two
ways: `Hex.regex` is what is looked for, and `Hex.render` writes a regular expression, which is read
again where the string is handed over. Both match exactly what the body describes
(`Hex.matches_regex`, `Hex.exists_parse_render`), so that counting finds the offsets at which a
described run begins (`Pattern.count_hex`).

The expression is followed along the grammar. A part adds one item to the level that is being read
(`Hex.Emits`), a sequence adds several (`Hex.EmitsAll`), and alternatives make up a whole level
(`Hex.EmitsLevel`), which a group turns into an item again. How deep an item nests goes along with
it: bytes and jumps nest two deep, and every group adds three, which keeps any body that is read
within what the reader of expressions allows.
-/

namespace PackageScan

namespace Hex

open Regex.Reader (Adds AddsAll Goes Item)

variable {data : ByteArray} {p q : Nat}

/-! ### The pattern of a body -/

/-- Any byte, so many times. -/
private theorem steps_any {n : Nat} (hp : p ≤ data.size) :
    Regex.Steps ((Regex.set .all).Matches data) n p q ↔ q = p + n ∧ q ≤ data.size := by
  induction n generalizing p with
  | zero =>
    constructor
    · rintro rfl
      exact ⟨rfl, hp⟩
    · exact fun h => h.1.symm
  | succ n ih =>
    constructor
    · rintro ⟨m, ⟨rfl, b, hb, -⟩, hsteps⟩
      obtain ⟨rfl, hq⟩ := (ih (lt_of_byteAt? hb)).mp hsteps
      exact ⟨by omega, hq⟩
    · rintro ⟨rfl, hq⟩
      have hlt : p < data.size := by omega
      refine ⟨p + 1, ⟨rfl, data[p], ?_, rfl⟩, (ih hlt).mpr ⟨by omega, hq⟩⟩
      exact dif_pos hlt

/-- **The pattern of a body** matches what the body describes. -/
theorem matches_regex (h : Hex) : h.regex.Matches data p q ↔ h.Describes data p q := by
  induction h generalizing p q with
  | byte high low => exact Iff.rfl
  | jump least most =>
    constructor
    · rintro ⟨hp, n, hleast, hmost, hsteps⟩
      obtain ⟨rfl, hq⟩ := (steps_any hp).mp hsteps
      exact ⟨hq, Nat.add_le_add_left hleast p, fun m hm => Nat.add_le_add_left (hmost m hm) p⟩
    · rintro ⟨hq, hleast, hmost⟩
      have hle : p ≤ q := Nat.le_trans (Nat.le_add_right p least) hleast
      refine ⟨Nat.le_trans hle hq, q - p, by omega, fun m hm => ?_, ?_⟩
      · have hm := hmost m hm
        omega
      · exact (steps_any (Nat.le_trans hle hq)).mpr ⟨by omega, hq⟩
  | seq left right ihl ihr => exact exists_congr fun m => and_congr ihl ihr
  | group alternatives ih => exact ih
  | alt left right ihl ihr => exact or_congr ihl ihr

/-! ### Parts of the expression -/

/-- The flags under which the expressions of hex strings are read. -/
def flags : Regex.Flags := { dotAll := true }

/-- The expression of a part adds an item of its own, which matches what the pattern of the part
matches and nests at most so deep. -/
structure Emits (depth : Nat) (part : Hex) (item : Item) : Prop where
  adds : Adds flags part.renderChars item
  starts : part.renderChars.head? ≠ some '?'
  depth_le : item.depth ≤ depth
  matches_iff : ∀ data p q, item.regex.Matches data p q ↔ part.regex.Matches data p q

section Bytes

variable {h l : Nat}

/-- A set that holds the bytes with the given halves matches what a byte does. -/
private theorem matches_byte {high low : Option Nat} {s : ByteSet}
    (hs : ∀ b, s.contains b = true ↔ matchesByte high low b = true) :
    (Regex.set s).Matches data p q ↔ (byte high low).regex.Matches data p q :=
  and_congr_right fun _ => exists_congr fun b => and_congr_right fun _ => hs b

private theorem toNat_toUInt8 {n : Nat} (h : n < 256) : n.toUInt8.toNat = n :=
  UInt8.toNat_ofNat_of_lt' h

/-- With both halves known a byte is written as its escape. -/
private theorem emits_known (hh : h < 16) (hl : l < 16) :
    ∃ item, Emits 2 (.byte (some h) (some l)) item := by
  have hbyte : (h * 16 + l).toUInt8.toNat = h * 16 + l := toNat_toUInt8 (by omega)
  have hadds : Adds flags (renderByte (h * 16 + l).toUInt8.toNat) _ :=
    Regex.Reader.adds_renderByte rfl (h * 16 + l).toUInt8
  rw [hbyte] at hadds
  refine ⟨_, hadds, nofun, Nat.zero_le _, fun data p q => matches_byte fun b => ?_⟩
  have hequal : (b == (h * 16 + l).toUInt8) = true ↔ b.toNat = h * 16 + l := by
    rw [beq_iff_eq, ← UInt8.toNat_inj, hbyte]
  refine hequal.trans ?_
  simp only [matchesByte, Option.all_some, Bool.and_eq_true, beq_iff_eq]
  omega

/-- With the low half unknown it is a range of sixteen bytes. -/
private theorem emits_high (hh : h < 16) : ∃ item, Emits 2 (.byte (some h) none) item := by
  have hlow : (h * 16).toUInt8.toNat = h * 16 := toNat_toUInt8 (by omega)
  have hhigh : (h * 16 + 15).toUInt8.toNat = h * 16 + 15 := toNat_toUInt8 (by omega)
  have hle : (h * 16).toUInt8.toNat ≤ (h * 16 + 15).toUInt8.toNat := by omega
  obtain ⟨s, depth, hdepth, hs, hadds⟩ :=
    Regex.Reader.exists_adds_range (show flags.verbose = false from rfl) rfl hle
  rw [hlow, hhigh] at hadds
  refine ⟨_, hadds, nofun, hdepth, fun data p q => matches_byte fun b => ?_⟩
  rw [hs, hlow, hhigh]
  simp only [matchesByte, Option.all_some, Option.all_none, Bool.and_true, beq_iff_eq]
  omega

/-- With the high half unknown it is a class that lists sixteen bytes. -/
private theorem emits_low (hl : l < 16) : ∃ item, Emits 2 (.byte none (some l)) item := by
  let bytes : List UInt8 := (List.range 16).map fun h => (h * 16 + l).toUInt8
  have hrender : (bytes.flatMap fun b => renderByte b.toNat) =
      (List.range 16).flatMap fun h => renderByte (h * 16 + l) := by
    rw [List.flatMap_map]
    refine List.flatMap_congr fun h hh => ?_
    have hh := List.mem_range.mp hh
    rw [toNat_toUInt8 (by omega)]
  have hne : bytes ≠ [] := List.cons_ne_nil _ _
  obtain ⟨s, depth, hdepth, hs, hadds⟩ :=
    Regex.Reader.exists_adds_listing (show flags.verbose = false from rfl) rfl hne
  rw [hrender] at hadds
  refine ⟨_, hadds, nofun, hdepth, fun data p q => matches_byte fun b => ?_⟩
  rw [hs, List.mem_map]
  simp only [matchesByte, Option.all_some, Option.all_none, Bool.true_and, beq_iff_eq]
  have hb := b.toNat_lt
  constructor
  · rintro ⟨h, hh, rfl⟩
    have hh := List.mem_range.mp hh
    rw [toNat_toUInt8 (by omega)]
    omega
  · intro hlow
    refine ⟨b.toNat / 16, List.mem_range.mpr (by omega), UInt8.toNat_inj.mp ?_⟩
    rw [toNat_toUInt8 (by omega)]
    omega

/-- With neither half known it is any byte, a newline as well. -/
private theorem emits_unknown : ∃ item, Emits 2 (.byte none none) item := by
  refine ⟨_, Regex.Reader.adds_renderAny rfl, by decide, by decide, fun data p q => ?_⟩
  exact matches_byte fun b => Iff.rfl

end Bytes

/-- A jump is any byte, repeated within the bounds that are written. -/
private theorem emits_jump {least : Nat} {most : Option Nat} (h : InOrder least most) :
    ∃ item, Emits 2 (.jump least most) item := by
  have hlarge : Limits.hexJump < 2 ^ 32 := by decide
  have hmost (m : Nat) (hm : m ∈ most) : least ≤ m ∧ m < 2 ^ 32 :=
    ⟨(h.most_le m hm).1, Nat.lt_of_le_of_lt (h.most_le m hm).2 hlarge⟩
  have hbounds := Regex.Reader.bounds_repr (show flags.verbose = false from rfl)
    (Nat.lt_of_le_of_lt h.least_le hlarge) hmost
  have hany : Adds flags renderAny _ := Regex.Reader.adds_renderAny rfl
  have hadds := hany.repeated rfl rfl hbounds
  have htext : renderAny ++ '\x7b' :: ((Nat.repr least).toList ++
      (',' :: (most.elim [] fun m => (Nat.repr m).toList) ++ ['\x7d'])) =
      (jump least most).renderChars := by
    cases most <;> simp only [renderChars, Option.elim, List.append_assoc, List.cons_append]
  rw [htext] at hadds
  exact ⟨_, hadds, nofun, Nat.le_refl 2, fun data p q => Iff.rfl⟩

/-! ### Sequences and groups -/

theorem renderChars_foldl_seq (first : Hex) (others : List Hex) :
    (others.foldl .seq first).renderChars = (first :: others).flatMap renderChars := by
  induction others generalizing first with
  | nil => exact (List.append_nil _).symm
  | cons next others ih =>
    rw [List.foldl_cons, ih, List.flatMap_cons, renderChars, List.append_assoc]
    rfl

theorem matches_foldl_seq (first : Hex) (others : List Hex) :
    (others.foldl .seq first).regex.Matches data p q ↔
      Regex.MatchesAll data ((first :: others).map regex) p q := by
  have hregex : (others.foldl .seq first).regex = (others.map regex).foldl .seq first.regex := by
    induction others generalizing first with
    | nil => rfl
    | cons next others ih => exact ih (first.seq next)
  rw [hregex, Regex.matches_foldl_seq]
  rfl

/-- The expression of a sequence adds items that match, one after another, what its pattern
matches. -/
structure EmitsAll (depth : Nat) (h : Hex) (items : List Item) : Prop where
  adds : AddsAll flags h.renderChars items
  starts : h.renderChars.head? ≠ some '?'
  depth_le : ∀ item ∈ items, item.depth ≤ depth
  matches_iff : ∀ data p q,
    Regex.MatchesAll data (items.map Item.regex) p q ↔ h.regex.Matches data p q

/-- Parts that emit an item each make a sequence. -/
private theorem emitsAll_of_parts {depth : Nat} {first : Hex} {others : List Hex}
    (h : ∀ part ∈ first :: others, ∃ item, Emits depth part item) :
    ∃ items, EmitsAll depth (others.foldl .seq first) items := by
  have hparts (parts : List Hex) (h : ∀ part ∈ parts, ∃ item, Emits depth part item) :
      ∃ items, AddsAll flags (parts.flatMap renderChars) items ∧
        (parts.flatMap renderChars).head? ≠ some '?' ∧ (∀ item ∈ items, item.depth ≤ depth) ∧
        ∀ data p q, Regex.MatchesAll data (items.map Item.regex) p q ↔
          Regex.MatchesAll data (parts.map regex) p q := by
    induction parts with
    | nil => exact ⟨[], Regex.Reader.addsAll_nil, nofun, nofun, fun data p q => Iff.rfl⟩
    | cons part parts ih =>
      obtain ⟨⟨item, hitem⟩, hparts⟩ := List.forall_mem_cons.mp h
      obtain ⟨items, hadds, hstarts, hdepth, hmatches⟩ := ih hparts
      refine ⟨item :: items, ?_, ?_, List.forall_mem_cons.mpr ⟨hitem.depth_le, hdepth⟩,
        fun data p q => exists_congr fun m => and_congr (hitem.matches_iff data p m)
          (hmatches data m q)⟩
      · exact hitem.adds.addsAll.append hadds hstarts
      · exact Regex.Reader.head?_append_ne hitem.starts hstarts
  obtain ⟨items, hadds, hstarts, hdepth, hmatches⟩ := hparts _ h
  rw [← renderChars_foldl_seq] at hadds hstarts
  exact ⟨items, hadds, hstarts, hdepth, fun data p q =>
    (hmatches data p q).trans (matches_foldl_seq first others).symm⟩

/-- The expression of some alternatives leads from an empty level to one that matches what their
pattern matches. -/
structure EmitsLevel (depth : Nat) (h : Hex) (level : Regex.Reader.Level) : Prop where
  goes : ∀ s : Regex.Reader.State, s.flags = flags → s.level = {} →
    Goes s h.renderChars { s with level }
  starts : h.renderChars.head? ≠ some '?'
  depth_le : ∀ item ∈ level.sequence :: level.alternatives, item.depth ≤ depth
  matches_iff : ∀ data p q, (∃ item ∈ level.sequence :: level.alternatives,
    item.regex.Matches data p q) ↔ h.regex.Matches data p q

section Levels

variable {depth : Nat} {h next : Hex} {items : List Item} {level : Regex.Reader.Level}

/-- The last alternative of a level that is being read. -/
theorem EmitsAll.matches_sequence (hitems : EmitsAll depth h items) (alternatives : List Item) :
    (Regex.Reader.Level.sequence ⟨items.reverse, alternatives⟩).regex.Matches data p q ↔
      h.regex.Matches data p q := by
  rw [Regex.Reader.Level.matches_sequence, List.reverse_reverse]
  exact hitems.matches_iff data p q

theorem EmitsAll.depth_sequence_le (hitems : EmitsAll depth h items) (alternatives : List Item) :
    (Regex.Reader.Level.sequence ⟨items.reverse, alternatives⟩).depth ≤ depth + 1 :=
  Regex.Reader.Level.depth_sequence_le fun item hitem =>
    hitems.depth_le item (List.mem_reverse.mp hitem)

private theorem EmitsAll.emitsLevel (hitems : EmitsAll depth h items) :
    EmitsLevel (depth + 1) h { items := items.reverse } where
  goes s hs hlevel := by
    have hgoes := hitems.adds s hs
    rw [hlevel, List.append_nil] at hgoes
    exact hgoes
  starts := hitems.starts
  depth_le := List.forall_mem_singleton.mpr (hitems.depth_sequence_le [])
  matches_iff data p q := by
    simp only [List.mem_singleton, exists_eq_left]
    exact hitems.matches_sequence []

/-- One alternative more, after a bar. -/
theorem EmitsLevel.alt (hlevel : EmitsLevel (depth + 1) h level)
    (hitems : EmitsAll depth next items) :
    EmitsLevel (depth + 1) (.alt h next)
      { items := items.reverse, alternatives := level.sequence :: level.alternatives } where
  goes s hs hempty := by
    have hbar : Goes { s with level } ['|'] { s with level := level.bar } :=
      Regex.Reader.goes_of_step (by rw [show _ = s.flags from rfl, hs]; rfl) fun rest _ => rfl
    have hlast := hitems.adds { s with level := level.bar } hs
    rw [show level.bar.items = [] from rfl, List.append_nil] at hlast
    exact (hlevel.goes s hs hempty).append (hbar.append hlast hitems.starts) nofun
  starts := Regex.Reader.head?_append_ne hlevel.starts nofun
  depth_le := List.forall_mem_cons.mpr ⟨hitems.depth_sequence_le _, hlevel.depth_le⟩
  matches_iff data p q := by
    rw [List.exists_mem_cons_iff, hitems.matches_sequence, hlevel.matches_iff]
    exact or_comm

/-- Alternatives one after another. -/
private theorem exists_emitsLevel {others : List Hex} (hlevel : EmitsLevel (depth + 1) h level)
    (hothers : ∀ part ∈ others, ∃ items, EmitsAll depth part items) :
    ∃ level, EmitsLevel (depth + 1) (others.foldl .alt h) level := by
  induction others generalizing h level with
  | nil => exact ⟨level, hlevel⟩
  | cons part others ih =>
    obtain ⟨⟨items, hitems⟩, hothers⟩ := List.forall_mem_cons.mp hothers
    exact ih (hlevel.alt hitems) hothers

/-- A level between parentheses is an item. -/
theorem EmitsLevel.group (hlevel : EmitsLevel depth h level) :
    ∃ item, Emits (depth + 2) (.group h) item := by
  have hdepth := Regex.Reader.Level.depth_whole_le hlevel.depth_le
  refine ⟨_, Regex.Reader.adds_group flags "?:".toList rfl rfl (fun s rest hs => ?_) hlevel.starts
    hlevel.goes, nofun, Nat.succ_le_succ hdepth, fun data p q => ?_⟩
  · rw [Regex.Reader.groupStart, Regex.Reader.skip_eq (by rw [hs]; rfl), hs]
    rfl
  · rw [Regex.Reader.Level.matches_whole]
    exact hlevel.matches_iff data p q

end Levels

/-! ### Bodies -/

section Bodies

variable {Inner : Chars → Hex → Prop} {text : Chars} {depth : Nat}

theorem Emits.mono {part : Hex} {item : Item} {depth' : Nat} (h : Emits depth part item)
    (hle : depth ≤ depth') : Emits depth' part item :=
  { h with depth_le := Nat.le_trans h.depth_le hle }

private theorem lt_of_half? {c : Char} {half : Option Nat} (h : half? c = some half) :
    ∀ n ∈ half, n < 16 := by
  rintro n rfl
  rw [half?] at h
  split_ifs at h
  · cases h
  · obtain ⟨m, hm, hn⟩ := Option.map_eq_some_iff.mp h
    obtain rfl := Option.some.inj hn
    exact Hexadecimal.value?_lt hm

private theorem exists_emits_of_parts {parts : List Hex} (hdepth : 2 ≤ depth)
    (hgroup : ∀ text h, Inner text h → ∃ item, Emits depth (.group h) item)
    (h : Parts Inner text parts) : ∀ part ∈ parts, ∃ item, Emits depth part item := by
  induction h with
  | nil => exact nofun
  | blank _ _ ih => exact ih
  | @byte c d high low text parts hhigh hlow _ ih =>
    have hbyte : ∃ item, Emits 2 (.byte high low) item := by
      have hh := lt_of_half? hhigh
      have hl := lt_of_half? hlow
      cases high with
      | none =>
        cases low with
        | none => exact emits_unknown
        | some l => exact emits_low (hl l rfl)
      | some h =>
        cases low with
        | none => exact emits_high (hh h rfl)
        | some l => exact emits_known (hh h rfl) (hl l rfl)
    obtain ⟨item, hitem⟩ := hbyte
    exact List.forall_mem_cons.mpr ⟨⟨item, hitem.mono hdepth⟩, ih⟩
  | jump _ horder _ ih =>
    obtain ⟨item, hitem⟩ := emits_jump horder
    exact List.forall_mem_cons.mpr ⟨⟨item, hitem.mono hdepth⟩, ih⟩
  | group hinner _ ih => exact List.forall_mem_cons.mpr ⟨hgroup _ _ hinner, ih⟩

private theorem Sequence.exists_emitsAll {h : Hex} (hdepth : 2 ≤ depth)
    (hgroup : ∀ text h, Inner text h → ∃ item, Emits depth (.group h) item)
    (hsequence : Sequence Inner text h) : ∃ items, EmitsAll depth h items := by
  obtain ⟨parts, hparts, hjoins⟩ := hsequence
  obtain ⟨first, others, rfl, rfl⟩ := hjoins.eq
  exact emitsAll_of_parts (exists_emits_of_parts hdepth hgroup hparts)

theorem Alternatives.forall_mem {P : Hex → Prop} {first : Hex} {others : List Hex}
    (h : Alternatives Inner text first others) (hP : ∀ text h, Sequence Inner text h → P h) :
    ∀ part ∈ first :: others, P part := by
  induction h with
  | last hlast => exact List.forall_mem_singleton.mpr (hP _ _ hlast)
  | bar hfirst _ ih => exact List.forall_mem_cons.mpr ⟨hP _ _ hfirst, ih⟩

/-- Each level of groups adds three to how deep the expression nests. -/
private theorem Within.exists_emits (depth : Nat) (text : Chars) (h : Hex)
    (hwithin : Within depth text h) :
    ∃ item, Emits (2 + 3 * depth) (.group h) item := by
  induction depth generalizing text h with
  | zero => exact absurd hwithin id
  | succ depth ih =>
    obtain ⟨first, others, halternatives, rfl⟩ := hwithin
    have hall := halternatives.forall_mem fun text h hsequence =>
      hsequence.exists_emitsAll (Nat.le_add_right 2 _) ih
    obtain ⟨⟨items, hfirst⟩, hothers⟩ := List.forall_mem_cons.mp hall
    obtain ⟨level, hlevel⟩ := exists_emitsLevel hfirst.emitsLevel hothers
    exact hlevel.group

/-- **The expression of a body** is read as one that matches what the body describes. -/
theorem exists_parse_render {body : Chars} {h : Hex} (hbody : IsBody body h) :
    ∃ r, Regex.parse flags h.render = .ok r ∧
      ∀ data p q, r.Matches data p q ↔ h.Describes data p q := by
  obtain ⟨items, hitems⟩ :=
    Sequence.exists_emitsAll (Nat.le_add_right 2 _) (Within.exists_emits _) hbody
  obtain ⟨r, hread, hmatches⟩ :=
    Regex.Reader.exists_parse_of_addsAll hitems.adds rfl hitems.depth_le (by decide)
  exact ⟨r, hread, fun data p q =>
    (hmatches data p q).trans ((hitems.matches_iff data p q).trans (matches_regex h))⟩

/-- The bytes of the data from `p` up to `q` are a run that the text of a body describes. -/
def BodyDescribes (body : Chars) (data : ByteArray) (p q : Nat) : Prop :=
  ∃ h, IsBody body h ∧ h.Describes data p q

/-- A body that is read is read in one way. -/
private theorem bodyDescribes_iff {body : String} {h : Hex} (hread : parse body = .ok h)
    (hfit : NumbersFit body.toList) :
    BodyDescribes body.toList data p q ↔ h.Describes data p q := by
  constructor
  · rintro ⟨h', hbody, hdescribes⟩
    obtain rfl := Except.ok.inj (hread.symm.trans ((parse_eq_ok_iff hfit).mpr hbody))
    exact hdescribes
  · exact fun hdescribes => ⟨h, (parse_eq_ok_iff hfit).mp hread, hdescribes⟩

end Bodies

end Hex

namespace Pattern

/-- **The translation of hex strings keeps their meaning.** -/
theorem count_hex {body : String} {h : Hex} (hread : Hex.parse body = .ok h)
    (hfit : Hex.NumbersFit body.toList) :
    (∃ r, Regex.parse { dotAll := true } h.render = .ok r ∧
      ∀ data p, r.BeginsAt data p ↔ ∃ q, Hex.BodyDescribes body.toList data p q) ∧
    ∀ (limit : Nat) (decl : StringDecl) (pattern : Pattern), decl.value = .hex body →
      decl.modifiers.fullword = false → compile limit decl = .ok pattern →
      ∀ data, pattern.count data = {p | ∃ q, Hex.BodyDescribes body.toList data p q}.ncard := by
  refine ⟨?_, fun limit decl pattern hvalue hfullword hbuild data => ?_⟩
  · obtain ⟨r, hparse, hmatches⟩ := Hex.exists_parse_render ((Hex.parse_eq_ok_iff hfit).mp hread)
    refine ⟨r, hparse, fun data p => exists_congr fun q => ?_⟩
    rw [hmatches, Hex.bodyDescribes_iff hread hfit]
  · rw [compile, hvalue] at hbuild
    obtain ⟨variants, hvariants, hpattern⟩ := Outcome.bind_eq_ok.mp hbuild
    obtain rfl := Except.ok.inj hpattern
    obtain ⟨v, hv, rfl⟩ := Outcome.map_eq_ok.mp (Outcome.mapError_eq_ok.mp hvariants)
    rw [hexVariant, hread, Outcome.ok_bind] at hv
    obtain rfl := eq_of_build (Outcome.mapError_eq_ok.mp hv)
    have hcount : countVariant decl.modifiers.fullword data ⟨h.regex, false⟩ =
        {p | ∃ q, Hex.BodyDescribes body.toList data p q}.ncard := by
      rw [countVariant_eq, hfullword]
      congr 1
      ext p
      refine (and_iff_left nofun).trans (exists_congr fun q => ?_)
      rw [Hex.matches_regex, Hex.bodyDescribes_iff hread hfit]
    exact (Nat.zero_add _).trans hcount

/-- A hex string of two alternatives, one of them with a jump. -/
def signature : StringDecl where
  name := "signature"
  value := .hex "4d ( ?0 | ?? [-1] 01 )"
  modifiers := {}
  span := .unknown

/-- What its body is read as. -/
def signatureTree : Hex :=
  .seq (.byte (some 4) (some 13))
    (.group (.alt (.byte none (some 0))
      (.seq (.seq (.byte none none) (.jump 0 (some 1))) (.byte (some 0) (some 1)))))

/-- What it looks for. -/
def signaturePattern : Pattern := ⟨"signature", [⟨signatureTree.regex, false⟩], false⟩

/-- Data in which it occurs twice, once with each alternative. -/
def signed : ByteArray := ⟨#[0x4d, 0x30, 0x4d, 6, 2, 1]⟩

/-- Both occurrences are counted, as many as the body describes. -/
theorem count_hex_signature :
    Hex.parse "4d ( ?0 | ?? [-1] 01 )" = .ok signatureTree ∧
      Hex.NumbersFit "4d ( ?0 | ?? [-1] 01 )".toList ∧
      compile 2000 signature = .ok signaturePattern ∧ signaturePattern.count signed = 2 ∧
      {p | ∃ q, Hex.BodyDescribes "4d ( ?0 | ?? [-1] 01 )".toList signed p q}.ncard = 2 ∧
      ∃ r, Regex.parse { dotAll := true } signatureTree.render = .ok r := by
  have hread : Hex.parse "4d ( ?0 | ?? [-1] 01 )" = .ok signatureTree := by decide +kernel
  have hfit : Hex.NumbersFit "4d ( ?0 | ?? [-1] 01 )".toList :=
    Hex.numbersFit_of_length_filter_le (by decide)
  have hfits : signatureTree.regex.fits 2000 = true := by decide +kernel
  have hvariant : hexVariant 2000 "4d ( ?0 | ?? [-1] 01 )" = .ok ⟨signatureTree.regex, false⟩ := by
    rw [hexVariant, hread, Outcome.ok_bind, build, if_pos hfits]
    rfl
  have hbuild : compile 2000 signature = .ok signaturePattern := by
    rw [compile]
    dsimp only [signature]
    rw [hvariant]
    rfl
  have htwo : signaturePattern.count signed = 2 := by decide +kernel
  obtain ⟨⟨r, hparse, -⟩, hcount⟩ := count_hex hread hfit
  have hncard := hcount 2000 signature signaturePattern rfl rfl hbuild signed
  exact ⟨hread, hfit, hbuild, htwo, hncard.symm.trans htwo, r, hparse⟩

end Pattern

end PackageScan
