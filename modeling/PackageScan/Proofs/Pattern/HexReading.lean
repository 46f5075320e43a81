import PackageScan.Proofs.Outcome
import PackageScan.Proofs.Pattern.HexGrammar

/-!
# Reading hex strings

What the reader finds is what the grammar says, once the numbers that do not fit thirty-two bits
have been left out (`Hex.exists_isBody_of_parse`), and it finds all that the grammar says of the
body itself (`Hex.parse_of_isBody`), since the bounds that the grammar allows fit. So the two agree
where no number is left out (`Hex.JumpsFit`), on what a body is read as and on what is refused
(`Hex.parse_eq_ok_iff_isBody`).

Both directions follow the text from the left, the one along the steps of the reader, the other
along the grammar. What is proved of the readers of groups and of sequences is stated once for all
depths (`Hex.ReadsGroups`, `Hex.ReadsSequences`), each from the other one with one level less.
-/

namespace PackageScan

namespace Hex

/-! ### White space and numbers -/

variable {cs text rest : Chars} {c : Char}

private theorem skip_cons_of_blank (hc : Text.isBlank c = true) : skip (c :: cs) = skip cs :=
  List.dropWhile_cons_of_pos hc

private theorem skip_cons (hc : Text.isBlank c = false) : skip (c :: cs) = c :: cs :=
  List.dropWhile_cons_of_neg (Bool.eq_false_iff.mp hc)

private theorem skip_append {before : Chars} (h : Blank before) (cs : Chars) :
    skip (before ++ cs) = skip cs :=
  List.dropWhile_append_of_pos h

private theorem exists_skip (cs : Chars) : ∃ before, Blank before ∧ cs = before ++ skip cs :=
  ⟨cs.takeWhile Text.isBlank, fun _ => List.mem_takeWhile_imp,
    List.takeWhile_append_dropWhile.symm⟩

private theorem skip_skip (cs : Chars) : skip (skip cs) = skip cs := by
  obtain ⟨before, hbefore, hcs⟩ := exists_skip cs
  conv_rhs => rw [hcs, skip_append hbefore]

/-- The digits that a number is read from. -/
def numerals (cs : Chars) : Chars := (skip cs).takeWhile Char.isDigit

private theorem isDigit_of_mem_numerals {d : Char} (h : d ∈ numerals cs) : d.isDigit = true :=
  List.mem_takeWhile_imp h

theorem readNumber_snd (cs : Chars) : (readNumber cs).2 = (skip cs).dropWhile Char.isDigit := by
  have hdrop : (skip cs).drop (numerals cs).length = (skip cs).dropWhile Char.isDigit := by
    conv_lhs => rw [← List.takeWhile_append_dropWhile (p := Char.isDigit) (l := skip cs)]
    exact List.drop_left
  rw [readNumber]
  split_ifs <;> exact hdrop

/-- A number that fits is read as what it writes, and any other as if there were none. -/
theorem readNumber_fst (cs : Chars) :
    (readNumber cs).1 =
      if numerals cs = [] then none
      else if Decimal.value (numerals cs) < 2 ^ 32 then some (Decimal.value (numerals cs))
      else none := by
  have hlength (h : Decimal.value (numerals cs) < 2 ^ 32) :
      ((numerals cs).dropWhile (· == '0')).length ≤ 10 :=
    Decimal.length_dropWhile_le (fun d => isDigit_of_mem_numerals) (Nat.lt_trans h (by decide))
  unfold numerals at hlength ⊢
  rw [readNumber]
  simp only [List.isEmpty_iff]
  by_cases hnone : (skip cs).takeWhile Char.isDigit = []
  · rw [if_pos hnone, if_pos hnone]
  · rw [if_neg hnone, if_neg hnone]
    by_cases hlong : 10 < (((skip cs).takeWhile Char.isDigit).dropWhile (· == '0')).length
    · rw [if_pos hlong, if_neg fun hfit => absurd hlong (Nat.not_lt.mpr (hlength hfit))]
    · rw [if_neg hlong]
      rfl

/-- What is read before the next character stands for a number, and what is kept of it writes the
number that is found. -/
private theorem exists_keepsNumber (cs : Chars) :
    ∃ text text', cs = text ++ skip (readNumber cs).2 ∧ KeepsNumber text text' ∧
      Writes text' (readNumber cs).1 := by
  obtain ⟨before, hbefore, hcs⟩ := exists_skip cs
  obtain ⟨after, hafter, hrest⟩ := exists_skip ((skip cs).dropWhile Char.isDigit)
  have htext : cs = before ++ (numerals cs ++ after) ++ skip (readNumber cs).2 := by
    rw [readNumber_snd, List.append_assoc, List.append_assoc, ← hrest, numerals,
      List.takeWhile_append_dropWhile]
    exact hcs
  have hwrites : Writes (before ++ (numerals cs ++ after))
      (if numerals cs = [] then none else some (Decimal.value (numerals cs))) :=
    ⟨before, numerals cs, after, rfl, hbefore, hafter, fun d => isDigit_of_mem_numerals, rfl⟩
  by_cases hfit : Decimal.value (numerals cs) < 2 ^ 32
  · have hread : (readNumber cs).1 =
        if numerals cs = [] then none else some (Decimal.value (numerals cs)) := by
      rw [readNumber_fst, if_pos hfit]
    refine ⟨_, _, htext, .fits hwrites fun k hk => ?_, hread ▸ hwrites⟩
    split_ifs at hk
    · exact nomatch hk
    · exact Option.some.inj hk ▸ hfit
  · have hlarge := Nat.not_lt.mp hfit
    have hne : numerals cs ≠ [] := fun hnone => by
      rw [hnone] at hlarge
      exact absurd hlarge (by decide)
    have hread : (readNumber cs).1 = none := by rw [readNumber_fst, if_neg hne, if_neg hfit]
    rw [if_neg hne] at hwrites
    exact ⟨_, [], htext, .lost hwrites hlarge, hread ▸ writes_nil⟩

/-- A text that writes a number is read as that number, up to the character that follows. -/
private theorem readNumber_of_writes {n : Option Nat} (h : Writes text n)
    (hfit : ∀ k ∈ n, k < 2 ^ 32)
    (hblank : Text.isBlank c = false) (hdigit : c.isDigit = false) (rest : Chars) :
    (readNumber (text ++ c :: rest)).1 = n ∧
      skip (readNumber (text ++ c :: rest)).2 = c :: rest := by
  obtain ⟨before, digits, after, rfl, hbefore, hafter, hdigits, rfl⟩ := h
  obtain ⟨gap, hgap, hskip⟩ : ∃ gap, Blank gap ∧
      skip (digits ++ (after ++ c :: rest)) = digits ++ (gap ++ c :: rest) := by
    cases digits with
    | nil => exact ⟨[], nofun, by rw [List.nil_append, skip_append hafter, skip_cons hblank]; rfl⟩
    | cons d digits =>
      have hd := Decimal.not_isBlank_of_isDigit (hdigits d List.mem_cons_self)
      exact ⟨after, hafter, skip_cons hd⟩
  have hstop : (gap ++ c :: rest).head?.any Char.isDigit = false := by
    cases gap with
    | nil => exact hdigit
    | cons b gap =>
      refine Bool.eq_false_iff.mpr fun hb => ?_
      have hblank := Decimal.not_isBlank_of_isDigit hb
      rw [hgap b List.mem_cons_self] at hblank
      exact nomatch hblank
  have hcs : skip (before ++ (digits ++ after) ++ c :: rest) = digits ++ (gap ++ c :: rest) := by
    rw [List.append_assoc, skip_append hbefore, List.append_assoc, hskip]
  have hnumerals : numerals (before ++ (digits ++ after) ++ c :: rest) = digits := by
    rw [numerals, hcs, Text.takeWhile_append_of_stop hdigits hstop]
  refine ⟨?_, ?_⟩
  · rw [readNumber_fst, hnumerals]
    by_cases hempty : digits = []
    · rw [if_pos hempty, if_pos hempty]
    · rw [if_neg hempty, if_neg hempty, if_pos (hfit _ (if_neg hempty))]
  · rw [readNumber_snd, hcs, Text.dropWhile_append_of_stop hdigits hstop, skip_append hgap,
      skip_cons hblank]

/-! ### Jumps -/

/-- What is read after the bracket. -/
private theorem exists_keepsBounds {least : Nat} {most : Option Nat}
    (h : readBounds cs = .ok (least, most, rest)) :
    ∃ text text', cs = text ++ skip rest ∧ KeepsBounds text text' ∧ Bounds text' least most := by
  obtain ⟨low, low', hcs, hlow, hleast⟩ := exists_keepsNumber cs
  rw [readBounds] at h
  dsimp only at h
  split at h
  · rename_i more hdash
    obtain ⟨high, high', hmore, hhigh, hmost⟩ := exists_keepsNumber more
    obtain ⟨rfl, rfl, rfl⟩ := h
    refine ⟨_, _, ?_, .between hlow hhigh, .between hleast hmost⟩
    rw [List.append_assoc, List.cons_append, ← hmore, ← hdash]
    exact hcs
  · rename_i n hn _
    obtain ⟨rfl, rfl, rfl⟩ := h
    rw [hn] at hleast
    rw [skip_skip]
    -- a number that is left out would not have been found
    cases hlow with
    | fits => exact ⟨low, low, hcs, .exactly hleast, .exactly hleast⟩
    | lost => exact absurd rfl hleast.ne_nil
  · exact nomatch h

private theorem readBounds_of_bounds {least : Nat} {most : Option Nat} (h : Bounds text least most)
    (horder : InOrder least most) (rest : Chars) :
    ∃ after, readBounds (text ++ ']' :: rest) = .ok (least, most, after) ∧
      skip after = ']' :: rest := by
  have hlarge : Limits.hexJump < 2 ^ 32 := by decide
  cases h with
  | exactly hn =>
    obtain ⟨hfirst, hafter⟩ := readNumber_of_writes (c := ']') hn
      (fun k hk => by
        obtain rfl := Option.some.inj hk
        exact Nat.lt_of_le_of_lt horder.least_le hlarge) (by decide) (by decide) rest
    refine ⟨']' :: rest, ?_, skip_cons (by decide)⟩
    rw [readBounds]
    dsimp only
    rw [hafter, hfirst]
    rfl
  | @between low high least most hleast hmost =>
    obtain ⟨hfirst, hbetween⟩ := readNumber_of_writes (c := '-') hleast
      (fun k hk => by
        obtain rfl : least = some k := hk
        exact Nat.lt_of_le_of_lt horder.least_le hlarge) (by decide) (by decide)
      (high ++ ']' :: rest)
    obtain ⟨hlast, hafter⟩ := readNumber_of_writes (c := ']') hmost
      (fun k hk => Nat.lt_of_le_of_lt (horder.most_le k hk).2 hlarge) (by decide) (by decide) rest
    refine ⟨_, ?_, hafter⟩
    rw [readBounds, List.append_assoc, List.cons_append]
    dsimp only
    rw [hbetween, hfirst]
    exact congrArg (fun most => Except.ok (least.getD 0, most, _)) hlast

/-- A jump that is read has bounds in order. -/
private theorem jump_of_readJump {part : Hex} (h : readJump cs = .ok (part, rest)) :
    ∃ bounds bounds' least most, cs = bounds ++ ']' :: rest ∧ KeepsBounds bounds bounds' ∧
      Bounds bounds' least most ∧ InOrder least most ∧ .jump least most = part := by
  rw [readJump] at h
  obtain ⟨⟨least, most, after⟩, hbounds, h⟩ := Outcome.bind_eq_ok.mp h
  obtain ⟨text, text', hcs, hkeeps, htext⟩ := exists_keepsBounds hbounds
  dsimp only at h
  split at h
  · rename_i more hclose
    rw [hclose] at hcs
    split at h
    · rename_i m
      split_ifs at h with hreversed hlarge
      obtain ⟨rfl, rfl⟩ := Prod.mk.inj (Except.ok.inj h)
      have hm : least ≤ m ∧ m ≤ Limits.hexJump := ⟨Nat.not_lt.mp hreversed, Nat.not_lt.mp hlarge⟩
      refine ⟨text, text', least, some m, hcs, hkeeps, htext, ⟨Nat.le_trans hm.1 hm.2, ?_⟩, rfl⟩
      rintro k hk
      obtain rfl := Option.some.inj hk
      exact hm
    · split_ifs at h with hlarge
      obtain ⟨rfl, rfl⟩ := Prod.mk.inj (Except.ok.inj h)
      exact ⟨text, text', least, none, hcs, hkeeps, htext, ⟨Nat.not_lt.mp hlarge, nofun⟩, rfl⟩
  · exact nomatch h

/-- A jump is read if its bounds are in order. -/
theorem readJump_of_bounds {least : Nat} {most : Option Nat} (hbounds : Bounds text least most)
    (horder : InOrder least most) (rest : Chars) :
    readJump (text ++ ']' :: rest) = .ok (.jump least most, rest) := by
  obtain ⟨after, hread, hafter⟩ := readBounds_of_bounds hbounds horder rest
  rw [readJump, hread, Outcome.ok_bind]
  dsimp only
  rw [hafter]
  cases most with
  | none => exact if_neg (Nat.not_lt.mpr horder.least_le)
  | some m =>
    obtain ⟨hleast, hlarge⟩ := horder.most_le m rfl
    exact (if_neg (Nat.not_lt.mpr hleast)).trans (if_neg (Nat.not_lt.mpr hlarge))

/-! ### Bytes -/

theorem readHalf_cons (c : Char) (rest : Chars) :
    readHalf (c :: rest) =
      match half? c with
      | some half => .ok (half, rest)
      | none => .error (.invalidDigit c) := by
  rw [readHalf, half?]
  split_ifs
  · rfl
  · cases Hexadecimal.value? c <;> rfl

/-- A byte is two halves next to one another. -/
private theorem readByte_eq_ok {part : Hex} :
    readByte cs = .ok (part, rest) ↔ ∃ c d high low, cs = c :: d :: rest ∧
      half? c = some high ∧ half? d = some low ∧ .byte high low = part := by
  have hhalf (cs rest : Chars) (half : Option Nat) :
      readHalf cs = .ok (half, rest) ↔ ∃ c, cs = c :: rest ∧ half? c = some half := by
    cases cs with
    | nil => exact iff_of_false nofun nofun
    | cons c cs =>
      rw [readHalf_cons]
      constructor
      · intro h
        split at h
        · rename_i hc
          obtain ⟨rfl, rfl⟩ := Prod.mk.inj (Except.ok.inj h)
          exact ⟨c, rfl, hc⟩
        · exact nomatch h
      · rintro ⟨_, ⟨rfl, rfl⟩, hc⟩
        rw [hc]
  rw [readByte]
  constructor
  · intro h
    obtain ⟨⟨high, more⟩, hhigh, hmore⟩ := Outcome.bind_eq_ok.mp h
    obtain ⟨⟨low, last⟩, hlow, hlast⟩ := Outcome.bind_eq_ok.mp hmore
    obtain ⟨c, rfl, hc⟩ := (hhalf _ _ _).mp hhigh
    obtain ⟨d, rfl, hd⟩ := (hhalf _ _ _).mp hlow
    obtain ⟨rfl, rfl⟩ := Prod.mk.inj (Except.ok.inj hlast)
    exact ⟨c, d, high, low, rfl, hc, hd, rfl⟩
  · rintro ⟨c, d, high, low, rfl, hc, hd, rfl⟩
    rw [(hhalf (c :: d :: rest) _ _).mpr ⟨c, rfl, hc⟩, Outcome.ok_bind]
    dsimp only
    rw [(hhalf (d :: rest) _ _).mpr ⟨d, rfl, hd⟩, Outcome.ok_bind]

/-- No other part begins with a character that stands for half a byte. -/
theorem not_mark_of_half? {half : Option Nat} (h : half? c = some half) :
    Text.isBlank c = false ∧ c ≠ '[' ∧ c ≠ '(' ∧ ¬(c = '|' ∨ c = ')') := by
  rw [half?] at h
  split_ifs at h with hunknown
  · rw [hunknown]
    decide
  · obtain ⟨n, hn, -⟩ := Option.map_eq_some_iff.mp h
    have hrange := Hexadecimal.range_of_value? hn
    have hne (d : Char) (hd : ¬(48 ≤ d.toNat ∧ d.toNat ≤ 57 ∨ 97 ≤ d.toNat ∧ d.toNat ≤ 102 ∨
        65 ≤ d.toNat ∧ d.toNat ≤ 70)) : c ≠ d := by
      rintro rfl
      omega
    refine ⟨?_, hne '[' (by decide), hne '(' (by decide), not_or.mpr
      ⟨hne '|' (by decide), hne ')' (by decide)⟩⟩
    simp only [Text.isBlank, Bool.or_eq_false_iff, Bool.and_eq_false_iff, decide_eq_false_iff_not,
      beq_eq_false_iff_ne]
    omega

/-! ### Parts -/

variable {limit : Nat} {Inner : Chars → Hex → Prop}

/-- The text is at an end: nothing is left, or a bar or a closing parenthesis follows. -/
def AtEnd (rest : Chars) : Prop := ∀ c ∈ rest.head?, c = '|' ∨ c = ')'

theorem AtEnd.skip (h : AtEnd rest) : Hex.skip rest = rest := by
  cases rest with
  | nil => rfl
  | cons c rest =>
    refine skip_cons ?_
    rcases h c rfl with rfl | rfl <;> decide

/-- The reader finds the groups whose contents are as given, once numbers that do not fit have been
left out. -/
structure ReadsGroups (limit : Nat) (Inner : Chars → Hex → Prop)
    (group : Chars → Except HexFault (Hex × Chars)) : Prop where
  sound : ∀ {cs rest part}, cs.length < limit → group cs = .ok (part, rest) →
    ∃ inner inner' h, cs = inner ++ ')' :: rest ∧ Keeps inner inner' ∧ Inner inner' h ∧
      .group h = part
  complete : ∀ {inner rest h}, (inner ++ ')' :: rest).length < limit → Inner inner h →
    group (inner ++ ')' :: rest) = .ok (.group h, rest)

/-- The reader finds the sequences up to an end, once numbers that do not fit have been left out. -/
structure ReadsSequences (limit : Nat) (Inner : Chars → Hex → Prop)
    (sequence : Chars → Except HexFault (Option Hex × Chars)) : Prop where
  atEnd : ∀ {cs rest whole}, cs.length < limit → sequence cs = .ok (whole, rest) → AtEnd rest
  sound : ∀ {cs rest h}, cs.length < limit → sequence cs = .ok (some h, rest) →
    ∃ text text', cs = text ++ rest ∧ Keeps text text' ∧ Sequence Inner text' h
  complete : ∀ {text rest h}, (text ++ rest).length < limit → AtEnd rest → Sequence Inner text h →
    sequence (text ++ rest) = .ok (some h, rest)

private theorem ofParts_eq_ok {parts : List Hex} {h : Hex} :
    ofParts parts = .ok (some h) ↔ Joins parts h := by
  cases parts with
  | nil =>
    refine iff_of_false nofun fun hjoins => ?_
    obtain ⟨_, _, hparts, -⟩ := hjoins.eq
    exact nomatch hparts
  | cons first others =>
    have hlast : (first :: others).getLast? = some (others.getLast?.getD first) :=
      List.getLast?_cons
    rw [ofParts]
    split_ifs with hstart hend
    · refine iff_of_false nofun fun hjoins => ?_
      rw [hjoins.starts first rfl] at hstart
      exact nomatch hstart
    · refine iff_of_false nofun fun hjoins => ?_
      obtain ⟨last, hothers, hjump⟩ := (Option.any_eq_true _ _).mp hend
      rw [hothers] at hlast
      rw [hjoins.ends last hlast] at hjump
      exact nomatch hjump
    · constructor
      · intro h
        refine ⟨fun part hpart => ?_, fun part hpart => ?_, first, others, rfl,
          Option.some.inj (Except.ok.inj h)⟩
        · obtain rfl := Option.some.inj hpart
          exact Bool.eq_false_iff.mpr hstart
        · obtain rfl := Option.some.inj (hlast.symm.trans hpart)
          cases hothers : others.getLast? with
          | none => exact Bool.eq_false_iff.mpr hstart
          | some last =>
            rw [hothers] at hend
            exact Bool.eq_false_iff.mpr hend
      · intro hjoins
        obtain ⟨_, _, ⟨rfl, rfl⟩, rfl⟩ := hjoins.eq
        rfl

private theorem Parts.blanks {before : Chars} {parts : List Hex} (hbefore : Blank before)
    (h : Parts Inner text parts) : Parts Inner (before ++ text) parts := by
  induction before with
  | nil => exact h
  | cons c before ih =>
    obtain ⟨hc, hbefore⟩ := List.forall_mem_cons.mp hbefore
    exact .blank hc (ih hbefore)

/-- What one step of the reader takes after white space: nothing at the end, or else a part. -/
private theorem readParts_succ_eq_ok {group : Chars → Except HexFault (Hex × Chars)}
    (hgroup : ReadsGroups limit Inner group) {fuel : Nat} {seen : List Hex} {whole : Option Hex}
    (hlength : (skip cs).length < limit)
    (h : readParts group (fuel + 1) seen cs = .ok (whole, rest)) :
    (skip cs = rest ∧ AtEnd rest ∧ ofParts seen.reverse = .ok whole) ∨
      ∃ piece piece' part after, skip cs = piece ++ after ∧ piece ≠ [] ∧ Keeps piece piece' ∧
        (∀ {text parts}, Parts Inner text parts → Parts Inner (piece' ++ text) (part :: parts)) ∧
        readParts group fuel (part :: seen) after = .ok (whole, rest) := by
  rw [readParts] at h
  split at h
  · rename_i more hmark
    obtain ⟨⟨part, after⟩, hjump, hafter⟩ := Outcome.bind_eq_ok.mp h
    obtain ⟨bounds, bounds', least, most, rfl, hkeeps, hbounds, horder, rfl⟩ :=
      jump_of_readJump hjump
    refine .inr ⟨'[' :: (bounds ++ [']']), '[' :: (bounds' ++ [']']), _, after, ?_,
      List.cons_ne_nil _ _, .jump hkeeps .nil, fun h => ?_, hafter⟩
    · rw [hmark, List.cons_append, List.append_assoc, List.singleton_append]
    · rw [List.cons_append, List.append_assoc, List.singleton_append]
      exact .jump hbounds horder h
  · rename_i more hmark
    obtain ⟨⟨part, after⟩, hread, hafter⟩ := Outcome.bind_eq_ok.mp h
    have hmore : more.length < limit := by
      rw [hmark] at hlength
      exact Nat.lt_of_succ_lt hlength
    obtain ⟨inner, inner', content, rfl, hkeeps, hinner, rfl⟩ := hgroup.sound hmore hread
    refine .inr ⟨'(' :: (inner ++ [')']), '(' :: (inner' ++ [')']), _, after, ?_,
      List.cons_ne_nil _ _, .cons (by decide) (hkeeps.append (keeps_self (by decide))),
      fun h => ?_, hafter⟩
    · rw [hmark, List.cons_append, List.append_assoc, List.singleton_append]
    · rw [List.cons_append, List.append_assoc, List.singleton_append]
      exact .group hinner h
  · rename_i c more _ _ hmark
    split_ifs at h with hend
    · obtain ⟨whole, hwhole, h⟩ := Outcome.bind_eq_ok.mp h
      obtain ⟨rfl, rfl⟩ := Prod.mk.inj (Except.ok.inj h)
      exact .inl ⟨hmark, fun d hd => Option.some.inj hd ▸ hend, hwhole⟩
    · obtain ⟨⟨part, after⟩, hread, hafter⟩ := Outcome.bind_eq_ok.mp h
      obtain ⟨c, d, high, low, heq, hc, hd, rfl⟩ := readByte_eq_ok.mp hread
      have hkeeps : Keeps [c, d] [c, d] :=
        .cons (not_mark_of_half? hc).2.1 (.cons (not_mark_of_half? hd).2.1 .nil)
      exact .inr ⟨[c, d], _, _, after, hmark.trans heq, List.cons_ne_nil _ _, hkeeps,
        .byte hc hd, hafter⟩
  · rename_i hmark
    obtain ⟨whole, hwhole, h⟩ := Outcome.bind_eq_ok.mp h
    obtain ⟨rfl, rfl⟩ := Prod.mk.inj (Except.ok.inj h)
    exact .inl ⟨hmark, nofun, hwhole⟩

/-- What the reader takes are parts. -/
private theorem parts_of_readParts {group : Chars → Except HexFault (Hex × Chars)}
    (hgroup : ReadsGroups limit Inner group) {fuel : Nat} {seen : List Hex} {whole : Option Hex}
    (hfuel : cs.length < fuel) (hlength : cs.length < limit)
    (h : readParts group fuel seen cs = .ok (whole, rest)) :
    ∃ text text' parts, cs = text ++ rest ∧ AtEnd rest ∧ Keeps text text' ∧
      Parts Inner text' parts ∧ ofParts (seen.reverse ++ parts) = .ok whole := by
  induction fuel generalizing cs seen with
  | zero => exact absurd hfuel (Nat.not_lt_zero _)
  | succ fuel ih =>
    obtain ⟨before, hbefore, hsplit⟩ := exists_skip cs
    have hblank : Keeps before before :=
      keeps_self fun hmem => absurd (hbefore _ hmem) (by decide)
    have hlengths := congrArg List.length hsplit
    rw [List.length_append] at hlengths
    obtain ⟨hrest, hend, hwhole⟩ |
        ⟨piece, piece', part, after, hpiece, hne, hkeeps, hpart, hafter⟩ :=
      readParts_succ_eq_ok hgroup (by omega) h
    · refine ⟨before, before, [], hrest ▸ hsplit, hend, hblank, ?_,
        (List.append_nil _).symm ▸ hwhole⟩
      have hparts : Parts Inner (before ++ []) [] := .blanks hbefore .nil
      rwa [List.append_nil] at hparts
    · have hpos := List.length_pos_iff.mpr hne
      rw [hpiece] at hsplit hlengths
      rw [List.length_append] at hlengths
      obtain ⟨text, text', parts, rfl, hend, htext, hparts, hwhole⟩ :=
        ih (by omega) (by omega) hafter
      refine ⟨before ++ (piece ++ text), before ++ (piece' ++ text'), part :: parts, ?_, hend,
        hblank.append (hkeeps.append htext), (hpart hparts).blanks hbefore, ?_⟩
      · rw [List.append_assoc, List.append_assoc]
        exact hsplit
      · rw [List.reverse_cons, List.append_assoc] at hwhole
        exact hwhole

section Steps

variable {group : Chars → Except HexFault (Hex × Chars)} {fuel : Nat} {seen parts : List Hex}
  {part : Hex}

private theorem readParts_blank (hc : Text.isBlank c = true) :
    readParts group (fuel + 1) seen (c :: cs) = readParts group (fuel + 1) seen cs := by
  rw [readParts, readParts, skip_cons_of_blank hc]

private theorem readParts_byte (hc : half? c ≠ none) (h : readByte (c :: cs) = .ok (part, rest)) :
    readParts group (fuel + 1) seen (c :: cs) = readParts group fuel (part :: seen) rest := by
  obtain ⟨half, hhalf⟩ := Option.ne_none_iff_exists'.mp hc
  obtain ⟨hblank, hjump, hgroup, hend⟩ := not_mark_of_half? hhalf
  rw [readParts, skip_cons hblank]
  split
  · rename_i heq
    exact absurd (List.cons.inj heq).1 hjump
  · rename_i heq
    exact absurd (List.cons.inj heq).1 hgroup
  · rename_i heq
    obtain ⟨rfl, rfl⟩ := List.cons.inj heq
    rw [if_neg hend, h]
    rfl
  · rename_i heq
    exact nomatch heq

private theorem readParts_jump (h : readJump cs = .ok (part, rest)) :
    readParts group (fuel + 1) seen ('[' :: cs) = readParts group fuel (part :: seen) rest := by
  rw [readParts, skip_cons (by decide)]
  exact congrArg (fun read => read >>= fun next => readParts group fuel (next.1 :: seen) next.2) h

private theorem readParts_group (h : group cs = .ok (part, rest)) :
    readParts group (fuel + 1) seen ('(' :: cs) = readParts group fuel (part :: seen) rest := by
  rw [readParts, skip_cons (by decide)]
  exact congrArg (fun read => read >>= fun next => readParts group fuel (next.1 :: seen) next.2) h

private theorem readParts_end (h : AtEnd rest) :
    readParts group (fuel + 1) seen rest =
      (ofParts seen.reverse).map fun whole => (whole, rest) := by
  rw [readParts, h.skip]
  cases rest with
  | nil => cases ofParts seen.reverse <;> rfl
  | cons c rest =>
    rcases h c rfl with rfl | rfl
    · cases ofParts seen.reverse <;> rfl
    · cases ofParts seen.reverse <;> rfl

/-- Parts are read one after another. -/
private theorem readParts_of_parts (hgroup : ReadsGroups limit Inner group)
    (hfuel : (text ++ rest).length < fuel) (hlength : (text ++ rest).length < limit)
    (hrest : AtEnd rest) (h : Parts Inner text parts) :
    readParts group fuel seen (text ++ rest) =
      (ofParts (seen.reverse ++ parts)).map fun whole => (whole, rest) := by
  induction h generalizing fuel seen with
  | nil =>
    obtain ⟨k, rfl⟩ := Nat.exists_eq_add_of_lt hfuel
    rw [List.nil_append, List.append_nil]
    exact readParts_end hrest
  | @blank c text parts hc _ ih =>
    obtain ⟨k, rfl⟩ := Nat.exists_eq_add_of_lt hfuel
    rw [List.cons_append, List.length_cons] at hlength
    rw [List.cons_append, readParts_blank hc]
    refine ih ?_ (Nat.lt_of_succ_lt hlength)
    rw [List.length_cons]
    omega
  | @byte c d high low text parts hhigh hlow _ ih =>
    have hread : readByte (c :: d :: (text ++ rest)) = .ok (.byte high low, text ++ rest) :=
      readByte_eq_ok.mpr ⟨c, d, high, low, rfl, hhigh, hlow, rfl⟩
    have hmark : half? c ≠ none := by
      rw [hhigh]
      exact nofun
    obtain ⟨k, rfl⟩ := Nat.exists_eq_add_of_lt hfuel
    simp only [List.cons_append, List.length_cons] at hlength
    rw [List.cons_append, List.cons_append, readParts_byte hmark hread, ih, List.reverse_cons,
      List.append_assoc, List.singleton_append]
    · simp only [List.length_cons]
      omega
    · omega
  | @jump bounds text least most parts hbounds horder _ ih =>
    rw [List.cons_append, List.append_assoc, List.cons_append] at hfuel hlength ⊢
    have hread := readJump_of_bounds hbounds horder (text ++ rest)
    obtain ⟨k, rfl⟩ := Nat.exists_eq_add_of_lt hfuel
    simp only [List.length_cons, List.length_append] at hlength
    rw [readParts_jump hread, ih, List.reverse_cons, List.append_assoc, List.singleton_append]
    · simp only [List.length_cons, List.length_append]
      omega
    · rw [List.length_append]
      omega
  | @group inner text content parts hinner _ ih =>
    rw [List.cons_append, List.append_assoc, List.cons_append] at hfuel hlength ⊢
    have hread : group (inner ++ ')' :: (text ++ rest)) = .ok (.group content, text ++ rest) :=
      hgroup.complete (Nat.lt_of_succ_lt hlength) hinner
    obtain ⟨k, rfl⟩ := Nat.exists_eq_add_of_lt hfuel
    simp only [List.length_cons, List.length_append] at hlength
    rw [readParts_group hread, ih, List.reverse_cons, List.append_assoc, List.singleton_append]
    · simp only [List.length_cons, List.length_append]
      omega
    · rw [List.length_append]
      omega

private theorem readsSequences_readParts (hgroup : ReadsGroups limit Inner group) :
    ReadsSequences limit Inner (readParts group limit []) where
  atEnd := by
    intro cs rest whole hlength hread
    obtain ⟨-, -, -, -, hend, -⟩ := parts_of_readParts hgroup hlength hlength hread
    exact hend
  sound := by
    intro cs rest h hlength hread
    obtain ⟨text, text', parts, hsplit, -, hkeeps, hparts, hwhole⟩ :=
      parts_of_readParts hgroup hlength hlength hread
    exact ⟨text, text', hsplit, hkeeps, parts, hparts, ofParts_eq_ok.mp hwhole⟩
  complete := by
    rintro text rest h hlength hend ⟨parts, hparts, hjoins⟩
    have hwhole : ofParts ([].reverse ++ parts) = .ok (some h) := ofParts_eq_ok.mpr hjoins
    rw [readParts_of_parts hgroup hlength hlength hend hparts, hwhole]
    rfl

end Steps

/-! ### Groups -/

section Alternatives

variable {sequence : Chars → Except HexFault (Option Hex × Chars)} {fuel : Nat}
  {seen : Option Hex}

/-- The alternatives up to one more. -/
def orElse (seen : Option Hex) (part : Hex) : Hex :=
  match seen with
  | some earlier => .alt earlier part
  | none => part

private theorem alternatives_of_readAlternatives (hsequence : ReadsSequences limit Inner sequence)
    {part : Hex} (hlength : cs.length < limit)
    (h : readAlternatives sequence fuel seen cs = .ok (part, rest)) :
    ∃ inner inner' first others, cs = inner ++ ')' :: rest ∧ Keeps inner inner' ∧
      Alternatives Inner inner' first others ∧
      .group (others.foldl .alt (orElse seen first)) = part := by
  induction fuel generalizing cs seen with
  | zero => exact nomatch h
  | succ fuel ih =>
    rw [readAlternatives] at h
    obtain ⟨⟨read, after⟩, hread, hafter⟩ := Outcome.bind_eq_ok.mp h
    cases read with
    | none => exact nomatch hafter
    | some first =>
      have hend := hsequence.atEnd hlength hread
      obtain ⟨text, text', rfl, hkeeps, htext⟩ := hsequence.sound hlength hread
      rw [List.length_append] at hlength
      dsimp only at hafter
      rw [hend.skip] at hafter
      split at hafter
      · rename_i more
        rw [List.length_cons] at hlength
        obtain ⟨inner, inner', next, others, rfl, hinner, halternatives, hpart⟩ :=
          ih (by omega) hafter
        refine ⟨text ++ '|' :: inner, text' ++ '|' :: inner', first, next :: others, ?_,
          hkeeps.append (.cons (by decide) hinner), .bar htext halternatives, hpart⟩
        rw [List.append_assoc, List.cons_append]
      · obtain ⟨hpart, hrest⟩ := Prod.mk.inj (Except.ok.inj hafter)
        exact ⟨text, text', first, [], hrest ▸ rfl, hkeeps, .last htext, hpart⟩
      · exact nomatch hafter

private theorem readAlternatives_of_alternatives (hsequence : ReadsSequences limit Inner sequence)
    {inner : Chars} {first : Hex} {others : List Hex}
    (hfuel : (inner ++ ')' :: rest).length < fuel) (hlength : (inner ++ ')' :: rest).length < limit)
    (h : Alternatives Inner inner first others) :
    readAlternatives sequence fuel seen (inner ++ ')' :: rest) =
      .ok (.group (others.foldl .alt (orElse seen first)), rest) := by
  induction h generalizing fuel seen with
  | @last text h hlast =>
    have hend : AtEnd (')' :: rest) := fun c hc => .inr (Option.some.inj hc).symm
    have hread := hsequence.complete hlength hend hlast
    obtain ⟨k, rfl⟩ := Nat.exists_eq_add_of_lt hfuel
    rw [readAlternatives, hread, Outcome.ok_bind]
    dsimp only
    rw [hend.skip]
    rfl
  | @bar text text' h next others hfirst _ ih =>
    rw [List.append_assoc, List.cons_append] at hfuel hlength ⊢
    have hend : AtEnd ('|' :: (text' ++ ')' :: rest)) := fun c hc => .inl (Option.some.inj hc).symm
    have hread := hsequence.complete hlength hend hfirst
    obtain ⟨k, rfl⟩ := Nat.exists_eq_add_of_lt hfuel
    simp only [List.length_append, List.length_cons] at hlength
    rw [readAlternatives, hread, Outcome.ok_bind]
    dsimp only
    rw [hend.skip]
    refine ih ?_ ?_
    · simp only [List.length_append, List.length_cons]
      omega
    · simp only [List.length_append, List.length_cons]
      omega

private theorem readsGroups_readAlternatives (hsequence : ReadsSequences limit Inner sequence) :
    ReadsGroups limit
      (fun text h => ∃ first others, Alternatives Inner text first others ∧
        others.foldl .alt first = h)
      (readAlternatives sequence limit none) where
  sound := by
    intro cs rest part hlength hread
    obtain ⟨inner, inner', first, others, hsplit, hkeeps, hinner, hpart⟩ :=
      alternatives_of_readAlternatives hsequence hlength hread
    exact ⟨inner, inner', _, hsplit, hkeeps, ⟨first, others, hinner, rfl⟩, hpart⟩
  complete := by
    rintro inner rest _ hlength ⟨first, others, hinner, rfl⟩
    exact readAlternatives_of_alternatives hsequence hlength hlength hinner

end Alternatives

/-! ### Bodies -/

theorem readsSequences_readSequence (limit depth : Nat) :
    ReadsSequences limit (Within depth) (readSequence limit depth) := by
  induction depth with
  | zero => exact readsSequences_readParts ⟨fun _ => nofun, fun _ => False.elim⟩
  | succ depth ih => exact readsSequences_readParts (readsGroups_readAlternatives ih)

/-- **What the reader finds** is what the grammar says, once numbers that do not fit have been left
out. -/
theorem exists_isBody_of_parse {body : String} {h : Hex} (hparse : parse body = .ok h) :
    ∃ body', Keeps body.toList body' ∧ IsBody body' h := by
  have hreads := readsSequences_readSequence (body.toList.length + 1) Limits.hexNesting
  rw [parse] at hparse
  obtain ⟨⟨read, rest⟩, hread, hrest⟩ := Outcome.bind_eq_ok.mp hparse
  split at hrest
  · exact nomatch hrest
  · exact nomatch hrest
  · exact nomatch hrest
  · rename_i whole after hparenthesis hbar heq
    obtain ⟨rfl, rfl⟩ := Prod.mk.inj heq
    obtain rfl := Except.ok.inj hrest
    have hend := hreads.atEnd (Nat.lt_succ_self _) hread
    obtain ⟨text, text', htext, hkeeps, hgrammar⟩ := hreads.sound (Nat.lt_succ_self _) hread
    obtain rfl : rest = [] := by
      cases rest with
      | nil => rfl
      | cons c rest =>
        rcases hend c rfl with rfl | rfl
        · exact absurd rfl (hbar rest)
        · exact absurd rfl (hparenthesis rest)
    rw [List.append_nil] at htext
    exact ⟨text', htext ▸ hkeeps, hgrammar⟩

/-- **What the grammar says** is what the reader finds. -/
theorem parse_of_isBody {body : String} {h : Hex} (hbody : IsBody body.toList h) :
    parse body = .ok h := by
  have hreads := readsSequences_readSequence (body.toList.length + 1) Limits.hexNesting
  have hread : readSequence (body.toList.length + 1) Limits.hexNesting (body.toList ++ []) =
      .ok (some h, []) := hreads.complete (by simp) nofun hbody
  rw [List.append_nil] at hread
  rw [parse, hread]
  rfl

/-- **The reader finds what the grammar says**, and nothing else. -/
theorem parse_eq_ok_iff_isBody {body : String} {h : Hex} (hfit : JumpsFit body.toList) :
    parse body = .ok h ↔ IsBody body.toList h := by
  constructor
  · intro hparse
    obtain ⟨body', hkeeps, hbody⟩ := exists_isBody_of_parse hparse
    rwa [hkeeps.eq_self hfit] at hbody
  · exact parse_of_isBody

theorem parse_eq_ok_iff {body : String} {h : Hex} (hfit : NumbersFit body.toList) :
    parse body = .ok h ↔ IsBody body.toList h :=
  parse_eq_ok_iff_isBody hfit.jumpsFit

end Hex

end PackageScan
