import PackageScan.Pattern.Basic
import PackageScan.Proofs.Outcome
import PackageScan.Proofs.Regex.Beginnings
import PackageScan.Proofs.Text.Digits

/-!
# Reading emitted expressions

Strings are handed over as regular expressions, which are read again. What the reader makes of a
piece of an expression is stated without its number of steps (`Regex.Reader.Goes`): it goes from one
state to another over the piece, whatever follows, unless that is a question mark, which belongs to
a repetition before it. Pieces that add items to a level come one after another
(`Regex.Reader.Goes.append`), and the items of a level match one after another
(`Regex.Reader.Level.matches_sequence`).

The piece that all others are made of is the escape of a byte (`Regex.Reader.adds_renderByte`). It
stands for that byte, whatever it is, and for the letter in the other case if case is ignored.
-/

namespace PackageScan

namespace Regex

variable {data : ByteArray} {p q : Nat}

/-! ### One pattern after another -/

/-- The bytes of the data from `p` up to `q` are runs of the patterns, one after another. -/
def MatchesAll (data : ByteArray) : List Regex → Nat → Nat → Prop
  | [], p, q => p = q ∧ p ≤ data.size
  | r :: rs, p, q => ∃ m, r.Matches data p m ∧ MatchesAll data rs m q

theorem MatchesAll.le {rs : List Regex} (h : MatchesAll data rs p q) :
    p ≤ q ∧ q ≤ data.size := by
  induction rs generalizing p with
  | nil =>
    obtain ⟨rfl, hp⟩ := h
    exact ⟨Nat.le_refl p, hp⟩
  | cons r rs ih =>
    obtain ⟨m, hr, hrs⟩ := h
    exact ⟨Nat.le_trans hr.le.1 (ih hrs).1, (ih hrs).2⟩

private theorem matchesAll_singleton {r : Regex} :
    MatchesAll data [r] p q ↔ r.Matches data p q := by
  constructor
  · rintro ⟨m, hr, rfl, -⟩
    exact hr
  · exact fun h => ⟨q, h, rfl, h.le.2⟩

/-- A chain of patterns is built from the left. -/
theorem matches_foldl_seq {r : Regex} {rs : List Regex} :
    (rs.foldl seq r).Matches data p q ↔ MatchesAll data (r :: rs) p q := by
  induction rs generalizing r with
  | nil => exact matchesAll_singleton.symm
  | cons s rs ih =>
    rw [List.foldl_cons, ih]
    constructor
    · rintro ⟨m, ⟨k, hr, hs⟩, hrs⟩
      exact ⟨k, hr, m, hs, hrs⟩
    · rintro ⟨k, hr, m, hs, hrs⟩
      exact ⟨m, ⟨k, hr, hs⟩, hrs⟩

namespace Reader

theorem Level.matches_sequence (level : Level) :
    level.sequence.regex.Matches data p q ↔
      MatchesAll data (level.items.reverse.map Item.regex) p q := by
  rw [Level.sequence]
  split
  · rename_i hitems
    rw [hitems]
    exact Iff.rfl
  · rename_i item hitems
    rw [hitems]
    exact matchesAll_singleton.symm
  · dsimp only
    rw [← List.foldl_map (f := Item.regex) (g := Regex.seq), matches_foldl_seq]
    constructor
    · rintro ⟨m, ⟨rfl, -⟩, h⟩
      exact h
    · exact fun h => ⟨p, ⟨rfl, Nat.le_trans h.le.1 h.le.2⟩, h⟩

/-- The greatest depth of some items. -/
theorem foldl_depth_le {items : List Item} {depth start : Nat} (hstart : start ≤ depth)
    (h : ∀ item ∈ items, item.depth ≤ depth) :
    items.foldl (fun acc item => max acc item.depth) start ≤ depth := by
  induction items generalizing start with
  | nil => exact hstart
  | cons item items ih =>
    obtain ⟨hitem, hitems⟩ := List.forall_mem_cons.mp h
    exact ih (Nat.max_le.mpr ⟨hstart, hitem⟩) hitems

theorem Level.depth_sequence_le {level : Level} {depth : Nat}
    (h : ∀ item ∈ level.items, item.depth ≤ depth) : level.sequence.depth ≤ depth + 1 := by
  rw [Level.sequence]
  split
  · exact Nat.zero_le _
  · rename_i item hitems
    rw [hitems] at h
    exact Nat.le_succ_of_le (h item List.mem_cons_self)
  · exact Nat.succ_le_succ (foldl_depth_le (Nat.zero_le _) h)

/-! ### Going over a text -/

variable {s s' s'' : State} {text text' : Chars} {flags : Flags}

/-- The reader goes over the text from one state to another, whatever else follows than a question
mark. -/
def Goes (s : State) (text : Chars) (s' : State) : Prop :=
  ∀ rest : Chars, rest.head? ≠ some '?' →
    ∃ n ≤ text.length, ∀ fuel, run (n + fuel) s (text ++ rest) = run fuel s' rest

theorem head?_append_ne {c : Char} (h : text.head? ≠ some c) (h' : text'.head? ≠ some c) :
    (text ++ text').head? ≠ some c := by
  cases text with
  | nil => exact h'
  | cons d text => exact h

/-- One text after another. -/
theorem Goes.append (h : Goes s text s') (h' : Goes s' text' s'')
    (hne : text'.head? ≠ some '?') : Goes s (text ++ text') s'' := by
  intro rest hrest
  obtain ⟨n, hn, hrun⟩ := h (text' ++ rest) (head?_append_ne hne hrest)
  obtain ⟨n', hn', hrun'⟩ := h' rest hrest
  refine ⟨n + n', ?_, fun fuel => ?_⟩
  · rw [List.length_append]
    omega
  · rw [List.append_assoc, Nat.add_assoc, hrun, hrun']

private theorem goes_nil : Goes s [] s := fun rest _ => ⟨0, Nat.le_refl 0, fun fuel => by
  rw [Nat.zero_add, List.nil_append]⟩

/-- One step takes a character and what belongs to it. -/
theorem goes_of_step {c : Char} (hverbose : s.flags.verbose = false)
    (hstep : ∀ rest : Chars, rest.head? ≠ some '?' → step s c (text ++ rest) = .ok (s', rest)) :
    Goes s (c :: text) s' := by
  intro rest hrest
  refine ⟨1, Nat.le_add_left 1 text.length, fun fuel => ?_⟩
  rw [Nat.add_comm, run, skip, hverbose, List.cons_append]
  simp only [Bool.false_eq_true, if_false]
  rw [hstep rest hrest]
  rfl

/-- What the reader has made of a whole expression is its pattern. -/
private theorem parse_of_goes (h : Goes { flags } text s) (hverbose : s.flags.verbose = false)
    (hgroups : s.groups = []) (hdepth : s.level.whole.depth ≤ maxDepth) :
    Regex.parse flags (String.ofList text) = .ok s.level.whole.regex := by
  obtain ⟨n, hn, hrun⟩ := h [] nofun
  obtain ⟨fuel, hfuel⟩ : ∃ fuel, text.length + 1 = n + (fuel + 1) :=
    ⟨text.length - n, by omega⟩
  have hstate : run (text.length + 1) { flags } text = .ok s := by
    rw [List.append_nil] at hrun
    rw [hfuel, hrun, run, skip, hverbose]
    rfl
  rw [Regex.parse, String.toList_ofList]
  dsimp only
  rw [hstate]
  simp [hgroups, Nat.not_lt.mpr hdepth]

/-! ### Escapes of bytes -/

/-- A text that adds an item to the level, under the flags. -/
def Adds (flags : Flags) (text : Chars) (item : Item) : Prop :=
  ∀ s : State, s.flags = flags → Goes s text (s.add item)

theorem skip_eq (hverbose : flags.verbose = false) (cs : Chars) : skip flags cs = cs := by
  rw [skip, hverbose]
  rfl

private theorem charOf_of_lt {n : Nat} (h : n < 256) :
    ∃ c : Char, charOf n = .ok c ∧ c.toNat = n := by
  have hvalid : n.isValidChar := .inl (Nat.lt_trans h (by decide))
  refine ⟨Char.ofNatAux n hvalid, ?_, rfl⟩
  rw [charOf, dif_pos hvalid]

/-- Two hexadecimal digits. -/
private theorem fixedHex_two (hverbose : flags.verbose = false) {high low : Char} {h l : Nat}
    (hhigh : Hexadecimal.value? high = some h) (hlow : Hexadecimal.value? low = some l)
    (rest : Chars) : fixedHex flags 2 0 (high :: low :: rest) = .ok (h * 16 + l, rest) := by
  rw [fixedHex, hhigh]
  dsimp only
  rw [if_neg (by decide), skip_eq hverbose, fixedHex, hlow]
  simp

/-- The escape of a byte, after its backslash, is read as that byte. -/
theorem escape_upperByte (hverbose : flags.verbose = false) (b : UInt8) (rest : Chars) :
    ∃ c : Char, c.toNat = b.toNat ∧
      escape flags ('x' :: (Hexadecimal.upperByte b ++ rest)) = .ok (.literal c true, rest) := by
  have hb : b.toNat < 256 := b.toNat_lt
  have hhigh := Hexadecimal.value?_upper (n := b.toNat / 16) (by omega)
  have hlow := Hexadecimal.value?_upper (n := b.toNat % 16) (by omega)
  have hbrace : Hexadecimal.upper (b.toNat / 16) ≠ '\x7b' := by
    intro heq
    rw [heq] at hhigh
    exact nomatch hhigh
  obtain ⟨c, hc, hcode⟩ := charOf_of_lt hb
  refine ⟨c, hcode, ?_⟩
  have hdigits : fixedHex flags 2 0 (Hexadecimal.upperByte b ++ rest) = .ok (b.toNat, rest) := by
    rw [Hexadecimal.upperByte, List.cons_append, List.singleton_append,
      fixedHex_two hverbose hhigh hlow, Nat.div_add_mod' b.toNat 16]
  rw [escape, if_neg (by decide), if_pos rfl, hexEscape, skip_eq hverbose]
  split
  · rename_i heq
    exact absurd (List.cons.inj heq).1 hbrace
  · rw [hdigits, Outcome.ok_bind]
    dsimp only
    rw [hc]
    rfl

theorem toNat_swapCase (b : UInt8) :
    (ByteSet.swapCase b).toNat =
      if 65 ≤ b.toNat ∧ b.toNat ≤ 90 then b.toNat + 32
      else if 97 ≤ b.toNat ∧ b.toNat ≤ 122 then b.toNat - 32
      else b.toNat := by
  have hb : b.toNat < 256 := b.toNat_lt
  have hrange (low high : UInt8) : (decide (low ≤ b) && decide (b ≤ high)) = true ↔
      low.toNat ≤ b.toNat ∧ b.toNat ≤ high.toNat := by
    rw [Bool.and_eq_true, decide_eq_true_eq, decide_eq_true_eq]
    exact Iff.rfl
  have hcapital : (decide (65 ≤ b) && decide (b ≤ 90)) = true ↔ 65 ≤ b.toNat ∧ b.toNat ≤ 90 :=
    hrange 65 90
  have hsmall : (decide (97 ≤ b) && decide (b ≤ 122)) = true ↔ 97 ≤ b.toNat ∧ b.toNat ≤ 122 :=
    hrange 97 122
  rw [ByteSet.swapCase]
  simp only [hcapital, hsmall]
  split_ifs with hupper hlower
  · rw [UInt8.toNat_add, Nat.mod_eq_of_lt]
    · rfl
    · exact Nat.lt_of_le_of_lt (Nat.add_le_add_right hupper.2 32) (by decide)
  · exact UInt8.toNat_sub_of_le b 32 (Nat.le_trans (by decide) hlower.1)
  · rfl

/-- A byte beyond ASCII is no letter, so that its case does not matter. -/
private theorem foldCase_single {b : UInt8} (h : 128 ≤ b.toNat) :
    (ByteSet.single b).foldCase = .single b := by
  refine congrArg ByteSet.mk (funext fun x => ?_)
  change (x == b || ByteSet.swapCase x == b) = (x == b)
  rw [Bool.or_eq_left_iff_imp, beq_iff_eq, beq_iff_eq]
  rintro rfl
  have hswap := toNat_swapCase x
  rw [← UInt8.toNat_inj]
  split_ifs at hswap <;> omega

private theorem literal_of_toNat {c : Char} {b : UInt8} (hc : c.toNat = b.toNat) :
    Reader.literal flags c true = .set (fold flags (.single b)) := by
  have hb : c.toNat.toUInt8 = b := by
    rw [hc]
    exact UInt8.ofNat_toNat
  rw [Reader.literal, hb, if_pos rfl]
  split_ifs with hascii
  · rfl
  · rw [fold, foldCase_single (by omega), ite_self]

/-- **The escape of a byte** adds an item that matches the byte. -/
theorem adds_renderByte (hverbose : flags.verbose = false) (b : UInt8) :
    Adds flags (Hex.renderByte b.toNat) { regex := .set (fold flags (.single b)) } := by
  intro s hs
  rw [Hex.renderByte, show b.toNat.toUInt8 = b from UInt8.ofNat_toNat]
  refine goes_of_step (hs ▸ hverbose) fun rest _ => ?_
  obtain ⟨c, hc, hescape⟩ := escape_upperByte hverbose b rest
  rw [step, hs, List.cons_append]
  dsimp only
  rw [hescape]
  refine congrArg (fun regex => Except.ok (s.add { regex }, rest)) ?_
  exact literal_of_toNat hc

/-! ### Items one after another -/

/-- A text that adds items to the level one after another, under the flags. -/
def AddsAll (flags : Flags) (text : Chars) (items : List Item) : Prop :=
  ∀ s : State, s.flags = flags →
    Goes s text { s with level := { s.level with items := items.reverse ++ s.level.items } }

theorem addsAll_nil : AddsAll flags [] [] := fun _ _ => goes_nil

theorem Adds.addsAll {item : Item} (h : Adds flags text item) : AddsAll flags text [item] := h

theorem AddsAll.append {items items' : List Item} (h : AddsAll flags text items)
    (h' : AddsAll flags text' items') (hne : text'.head? ≠ some '?') :
    AddsAll flags (text ++ text') (items ++ items') := by
  intro s hs
  have hboth := (h s hs).append (h' _ hs) hne
  rw [List.reverse_append, List.append_assoc]
  exact hboth

/-- The escapes of bytes add items that match the bytes. -/
theorem addsAll_renderByte (hverbose : flags.verbose = false) (bytes : List UInt8) :
    AddsAll flags (bytes.flatMap fun b => Hex.renderByte b.toNat)
      (bytes.map fun b => { regex := .set (fold flags (.single b)) }) := by
  induction bytes with
  | nil => exact addsAll_nil
  | cons b bytes ih =>
    have hne : (bytes.flatMap fun b => Hex.renderByte b.toNat).head? ≠ some '?' := by
      cases bytes with
      | nil => exact nofun
      | cons b bytes => exact fun h => absurd (Option.some.inj h) (by decide)
    exact (adds_renderByte hverbose b).addsAll.append ih hne

/-- An expression that adds items is the pattern of these, one after another. -/
theorem exists_parse_of_addsAll {items : List Item} {depth : Nat} (h : AddsAll flags text items)
    (hverbose : flags.verbose = false) (hdepth : ∀ item ∈ items, item.depth ≤ depth)
    (hmax : depth < maxDepth) :
    ∃ r, Regex.parse flags (String.ofList text) = .ok r ∧ ∀ data p q,
      r.Matches data p q ↔ MatchesAll data (items.map Item.regex) p q := by
  let level : Level := { items := items.reverse ++ [] }
  have hlevel : ∀ item ∈ level.items, item.depth ≤ depth := by
    intro item hitem
    rw [show level.items = items.reverse from List.append_nil _, List.mem_reverse] at hitem
    exact hdepth item hitem
  have hwhole : level.whole.depth ≤ maxDepth :=
    Nat.le_trans (Level.depth_sequence_le hlevel) hmax
  refine ⟨_, parse_of_goes (h { flags } rfl) hverbose rfl hwhole, fun data p q => ?_⟩
  have hmatches : level.sequence.regex.Matches data p q ↔
      MatchesAll data (level.items.reverse.map Item.regex) p q := level.matches_sequence
  rwa [show level.items = items.reverse from List.append_nil _, List.reverse_reverse] at hmatches

end Reader

end Regex

end PackageScan
