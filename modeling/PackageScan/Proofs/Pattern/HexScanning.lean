import PackageScan.Proofs.Pattern.HexReading

/-!
# Hex strings by index

The reader of hex strings works on the characters that are left of a body. Here the body is walked
by index instead, with all its characters at hand: a character is looked up at an index, a number is
cut out between two indices, and a loop goes round a bounded number of times. Such a walk may get
lost: it looks up a character past the end, cuts out what the body does not have, runs out of
rounds, or stops in the middle of the body with no fault to report.

`Hex.scan` never gets lost, and answers what the reader answers (`Hex.run_scan`). So it accepts
exactly the grammar where the numbers of jumps fit thirty-two bits
(`Hex.scan_decides_isBody`).

A walk is followed along the reader: `Hex.Follows` says that both fail alike, or that both find the
same and the reader is left with the text from the index on that the walk has come to. One lemma
steps over a bind (`Hex.Follows.bind`), and every walk has one lemma beside its definition. A loop
that starts at an index has as many rounds as there are characters from there on, and one more.
-/

namespace PackageScan

namespace Hex

/-- A walk over a text by index: it may get lost, and it finds something or fails otherwise. -/
abbrev Walk (α : Type) : Type := ExceptT HexFault Option α

/-- The walk is lost. -/
def lost {α : Type} : Walk α := ExceptT.mk none

/-! ### Walks along a reader -/

variable {α β : Type} {chars : Chars} {i j : Nat}

/-- Both fail alike, or both find the same: the walk has come to an index at or after the given one,
and the reader is left with the text from there on. -/
inductive Follows (chars : Chars) (i : Nat) :
    Walk (α × Nat) → Except HexFault (α × Chars) → Prop
  | found {a : α} {j : Nat} (hi : i ≤ j) (hj : j ≤ chars.length) :
      Follows chars i (pure (a, j)) (.ok (a, chars.drop j))
  | failed {fault : HexFault} : Follows chars i (throw fault) (.error fault)

namespace Follows

variable {walk : Walk (α × Nat)} {read : Except HexFault (α × Chars)}

theorem mono (h : Follows chars j walk read) (hij : i ≤ j) : Follows chars i walk read := by
  cases h with
  | found hi hj => exact .found (Nat.le_trans hij hi) hj
  | failed => exact .failed

theorem bind {next : α × Nat → Walk (β × Nat)} {next' : α × Chars → Except HexFault (β × Chars)}
    (h : Follows chars i walk read)
    (hnext : ∀ a j, i ≤ j → j ≤ chars.length →
      Follows chars j (next (a, j)) (next' (a, chars.drop j))) :
    Follows chars i (walk >>= next) (read >>= next') := by
  cases h with
  | found hi hj => exact (hnext _ _ hi hj).mono hi
  | failed => exact .failed

end Follows

/-- What the text goes on with at an index is the character that is looked up there. -/
private theorem getElem?_of_drop {c : Char} {rest : Chars} (h : chars.drop i = c :: rest) :
    chars[i]? = some c ∧ i < chars.length ∧ rest = chars.drop (i + 1) := by
  have hc : chars[i]? = some c := by rw [← List.head?_drop, h, List.head?_cons]
  exact ⟨hc, (List.getElem?_eq_some_iff.mp hc).1, by rw [← List.tail_drop, h, List.tail_cons]⟩

/-- What is looked up at an index is what the text goes on with there. -/
private theorem drop_of_getElem? {c : Char} (h : chars[i]? = some c) :
    i < chars.length ∧ chars.drop i = c :: chars.drop (i + 1) := by
  obtain ⟨hlt, rfl⟩ := List.getElem?_eq_some_iff.mp h
  exact ⟨hlt, List.drop_eq_getElem_cons hlt⟩

/-! ### White space and numbers -/

section Walks

variable (chars : Chars)

/-- The character at an index; the walk is lost past the end. -/
def lookAt (i : Nat) : Walk Char := ExceptT.mk (chars[i]?.map .ok)

/-- The characters between two indices; the walk is lost where there are none such. -/
def sliceAt (start stop : Nat) : Walk Chars :=
  if start ≤ stop ∧ stop ≤ chars.length then pure ((chars.take stop).drop start) else lost

/-- Goes on past the characters that pass the test, for so many rounds at most. -/
def advanceAt (test : Char → Bool) : Nat → Nat → Walk Nat
  | 0, _ => lost
  | rounds + 1, i =>
    if i < chars.length then do
      if test (← lookAt chars i) then advanceAt test rounds (i + 1) else pure i
    else pure i

/-- Goes on past white space. -/
def skipAt (i : Nat) : Walk Nat := advanceAt chars Text.isBlank (chars.length + 1) i

/-- The character after white space, if there is one. -/
def peekAt (i : Nat) : Walk (Option Char × Nat) := do
  let i ← skipAt chars i
  pure (chars[i]?, i)

/-- A number, unless there is none or it does not fit thirty-two bits. -/
def numberAt (i : Nat) : Walk (Option Nat × Nat) := do
  let start ← skipAt chars i
  let stop ← advanceAt chars Char.isDigit (chars.length + 1) start
  if start = stop then pure (none, stop)
  else do
    let digits ← sliceAt chars start stop
    pure (if Decimal.value digits < 2 ^ 32 then some (Decimal.value digits) else none, stop)

end Walks

private theorem lookAt_eq (h : i < chars.length) : lookAt chars i = pure chars[i] := by
  rw [lookAt, List.getElem?_eq_getElem h]
  rfl

private theorem exists_advanceAt (test : Char → Bool) {rounds : Nat} (hi : i ≤ chars.length)
    (hrounds : chars.length - i < rounds) :
    ∃ j, advanceAt chars test rounds i = pure j ∧ i ≤ j ∧ j ≤ chars.length ∧
      (chars.drop i).dropWhile test = chars.drop j := by
  induction rounds generalizing i with
  | zero => exact absurd hrounds (Nat.not_lt_zero _)
  | succ rounds ih =>
    rw [advanceAt]
    by_cases hlt : i < chars.length
    · rw [if_pos hlt, lookAt_eq hlt, pure_bind, List.drop_eq_getElem_cons hlt]
      by_cases htest : test chars[i] = true
      · rw [if_pos htest, List.dropWhile_cons_of_pos htest]
        obtain ⟨j, hadvance, hj, hend, hdrop⟩ := ih hlt (by omega)
        exact ⟨j, hadvance, Nat.le_of_succ_le hj, hend, hdrop⟩
      · rw [if_neg htest, List.dropWhile_cons_of_neg htest, ← List.drop_eq_getElem_cons hlt]
        exact ⟨i, rfl, Nat.le_refl i, hi, rfl⟩
    · rw [if_neg hlt]
      refine ⟨i, rfl, Nat.le_refl i, hi, ?_⟩
      rw [List.drop_eq_nil_of_le (Nat.not_lt.mp hlt)]
      rfl

private theorem exists_skipAt (hi : i ≤ chars.length) :
    ∃ j, skipAt chars i = pure j ∧ i ≤ j ∧ j ≤ chars.length ∧ skip (chars.drop i) = chars.drop j :=
  exists_advanceAt _ hi (Nat.lt_succ_of_le (Nat.sub_le _ _))

private theorem exists_peekAt (hi : i ≤ chars.length) :
    ∃ j, peekAt chars i = pure (chars[j]?, j) ∧ i ≤ j ∧ j ≤ chars.length ∧
      skip (chars.drop i) = chars.drop j := by
  obtain ⟨j, hskip, hj⟩ := exists_skipAt hi
  exact ⟨j, by rw [peekAt, hskip, pure_bind], hj⟩

/-- What is cut out between the index where a run of characters begins and the one where it ends. -/
private theorem drop_take_eq_takeWhile {test : Char → Bool} (hij : i ≤ j) (hj : j ≤ chars.length)
    (hrun : (chars.drop i).dropWhile test = chars.drop j) :
    (chars.take j).drop i = (chars.drop i).takeWhile test := by
  have hlength : i ≤ (chars.take j).length := by rwa [List.length_take_of_le hj]
  have hjoined : (chars.take j).drop i ++ chars.drop j =
      (chars.drop i).takeWhile test ++ chars.drop j :=
    calc (chars.take j).drop i ++ chars.drop j
        = (chars.take j ++ chars.drop j).drop i := (List.drop_append_of_le_length hlength).symm
      _ = chars.drop i := by rw [List.take_append_drop]
      _ = (chars.drop i).takeWhile test ++ chars.drop j := by
        rw [← hrun, List.takeWhile_append_dropWhile]
  exact List.append_cancel_right hjoined

private theorem exists_numberAt (hi : i ≤ chars.length) :
    ∃ j, numberAt chars i = pure ((readNumber (chars.drop i)).1, j) ∧ i ≤ j ∧ j ≤ chars.length ∧
      (readNumber (chars.drop i)).2 = chars.drop j := by
  obtain ⟨start, hskip, hstart, hle, hrest⟩ := exists_skipAt hi
  obtain ⟨stop, hadvance, hstop, hend, hrun⟩ :=
    exists_advanceAt Char.isDigit hle (Nat.lt_succ_of_le (Nat.sub_le _ _))
  have hdigits : (chars.take stop).drop start = numerals (chars.drop i) := by
    rw [numerals, hrest]
    exact drop_take_eq_takeWhile hstop hend hrun
  have hslice : sliceAt chars start stop = pure (numerals (chars.drop i)) := by
    rw [sliceAt, if_pos ⟨hstop, hend⟩, hdigits]
  have hempty : numerals (chars.drop i) = [] ↔ start = stop := by
    rw [← hdigits, List.drop_eq_nil_iff, List.length_take_of_le hend]
    exact ⟨fun hle => Nat.le_antisymm hstop hle, fun heq => heq.ge⟩
  refine ⟨stop, ?_, Nat.le_trans hstart hstop, hend, by rw [readNumber_snd, hrest, hrun]⟩
  rw [numberAt, hskip, pure_bind, hadvance, pure_bind, hslice, pure_bind, readNumber_fst]
  by_cases hnone : start = stop
  · rw [if_pos hnone, if_pos (hempty.mpr hnone)]
  · rw [if_neg hnone, if_neg (mt hempty.mp hnone)]

/-! ### Jumps and bytes -/

section Walks

variable (chars : Chars)

/-- The end of a jump, the bounds of which have to be in order. -/
def closeAt (least : Nat) (most : Option Nat) (i : Nat) : Walk (Hex × Nat) := do
  let (c, i) ← peekAt chars i
  if c = some ']' then
    match most with
    | some m =>
      if m < least then throw (.reversedJump least m)
      else if Limits.hexJump < m then throw .jumpTooLarge
      else pure (.jump least most, i + 1)
    | none =>
      if Limits.hexJump < least then throw .jumpTooLarge else pure (.jump least none, i + 1)
  else throw .unterminatedJump

/-- A jump after its bracket. -/
def jumpAt (i : Nat) : Walk (Hex × Nat) := do
  let (low, i) ← numberAt chars i
  let (c, i) ← peekAt chars i
  if c = some '-' then do
    let (high, i) ← numberAt chars (i + 1)
    closeAt chars (low.getD 0) high i
  else
    match low with
    | some n => closeAt chars n (some n) i
    | none => throw .invalidJump

/-- One half of a byte. -/
def halfAt (i : Nat) : Walk (Option Nat × Nat) :=
  match chars[i]? with
  | none => throw .incompleteByte
  | some c =>
    match half? c with
    | some half => pure (half, i + 1)
    | none => throw (.invalidDigit c)

/-- A byte. -/
def byteAt (i : Nat) : Walk (Hex × Nat) := do
  let (high, i) ← halfAt chars i
  let (low, i) ← halfAt chars i
  pure (.byte high low, i)

end Walks

private theorem follows_closeAt {cs : Chars} {least : Nat} {most : Option Nat}
    (hi : i ≤ chars.length)
    (hbounds : readBounds cs = .ok (least, most, chars.drop i)) :
    Follows chars i (closeAt chars least most i) (readJump cs) := by
  obtain ⟨j, hpeek, hij, -, hskip⟩ := exists_peekAt hi
  rw [closeAt, hpeek, pure_bind, readJump, hbounds, Outcome.ok_bind]
  dsimp only
  rw [hskip]
  by_cases hc : chars[j]? = some ']'
  · obtain ⟨hlt, hclose⟩ := drop_of_getElem? hc
    have hnext : i ≤ j + 1 := Nat.le_succ_of_le hij
    rw [if_pos hc, hclose]
    cases most with
    | none =>
      dsimp only
      split_ifs
      · exact .failed
      · exact .found hnext hlt
    | some m =>
      dsimp only
      split_ifs
      · exact .failed
      · exact .failed
      · exact .found hnext hlt
  · rw [if_neg hc]
    split
    · rename_i hclose
      exact absurd (getElem?_of_drop hclose).1 hc
    · exact .failed

private theorem follows_jumpAt (hi : i ≤ chars.length) :
    Follows chars i (jumpAt chars i) (readJump (chars.drop i)) := by
  obtain ⟨j, hlow, hij, hj, hrest⟩ := exists_numberAt hi
  obtain ⟨k, hpeek, hjk, hk, hskip⟩ := exists_peekAt hj
  have hbounds := readBounds.eq_def (chars.drop i)
  dsimp only at hbounds
  rw [hrest, hskip] at hbounds
  rw [jumpAt, hlow, pure_bind]
  dsimp only
  rw [hpeek, pure_bind]
  dsimp only
  split at hbounds
  · rename_i hdash
    obtain ⟨hc, hlt, rfl⟩ := getElem?_of_drop hdash
    obtain ⟨l, hhigh, hkl, hl, hmore⟩ := exists_numberAt (i := k + 1) hlt
    rw [hmore] at hbounds
    rw [if_pos hc, hhigh, pure_bind]
    exact (follows_closeAt hl hbounds).mono (by omega)
  · rename_i n hn hdash
    have hc : chars[k]? ≠ some '-' := fun hc => hdash _ (drop_of_getElem? hc).2
    rw [if_neg hc, hn]
    exact (follows_closeAt hk hbounds).mono (Nat.le_trans hij hjk)
  · rename_i hn hdash
    have hc : chars[k]? ≠ some '-' := fun hc => hdash _ (drop_of_getElem? hc).2
    rw [if_neg hc, hn, readJump, hbounds]
    exact .failed

private theorem follows_halfAt :
    Follows chars (i + 1) (halfAt chars i) (readHalf (chars.drop i)) := by
  rw [halfAt]
  cases hdrop : chars.drop i with
  | nil =>
    rw [List.getElem?_eq_none (List.drop_eq_nil_iff.mp hdrop)]
    exact .failed
  | cons c rest =>
    obtain ⟨hc, hlt, rfl⟩ := getElem?_of_drop hdrop
    rw [hc, readHalf_cons]
    dsimp only
    cases half? c with
    | none => exact .failed
    | some half => exact .found (Nat.le_refl _) hlt

private theorem follows_byteAt :
    Follows chars (i + 1) (byteAt chars i) (readByte (chars.drop i)) := by
  rw [byteAt, readByte]
  refine follows_halfAt.bind fun high j _ _ => ?_
  refine (follows_halfAt.mono (Nat.le_succ j)).bind fun low k _ hk => ?_
  exact .found (Nat.le_refl k) hk

/-! ### Parts and groups -/

section Walks

variable (chars : Chars)

/-- The end of a sequence, whose parts are there in reverse. -/
def endAt (seen : List Hex) (i : Nat) : Walk (Option Hex × Nat) :=
  ExceptT.mk (some ((ofParts seen.reverse).map fun whole => (whole, i)))

/-- The parts up to a bar, a closing parenthesis or the end, for so many rounds at most. -/
def partsAt (groupAt : Nat → Walk (Hex × Nat)) :
    Nat → List Hex → Nat → Walk (Option Hex × Nat)
  | 0, _, _ => lost
  | rounds + 1, seen, i => do
    let (c, i) ← peekAt chars i
    if c = some '[' then do
      let (part, i) ← jumpAt chars (i + 1)
      partsAt groupAt rounds (part :: seen) i
    else if c = some '(' then do
      let (part, i) ← groupAt (i + 1)
      partsAt groupAt rounds (part :: seen) i
    else if c = none ∨ c = some '|' ∨ c = some ')' then endAt seen i
    else do
      let (part, i) ← byteAt chars i
      partsAt groupAt rounds (part :: seen) i

/-- The alternatives of a group up to its closing parenthesis, for so many rounds at most. -/
def alternativesAt (sequenceAt : Nat → Walk (Option Hex × Nat)) :
    Nat → Option Hex → Nat → Walk (Hex × Nat)
  | 0, _, _ => lost
  | rounds + 1, seen, i => do
    match ← sequenceAt i with
    | (none, _) => throw .emptyAlternative
    | (some part, i) => do
      let (c, i) ← peekAt chars i
      if c = some '|' then alternativesAt sequenceAt rounds (some (orElse seen part)) (i + 1)
      else if c = some ')' then pure (.group (orElse seen part), i + 1)
      else throw .unbalancedOpening

/-- A sequence, inside which groups nest at most so deep. -/
def sequenceAt : Nat → Nat → Walk (Option Hex × Nat)
  | 0 => partsAt chars (fun _ => throw .tooDeep) (chars.length + 1) []
  | depth + 1 =>
    partsAt chars (alternativesAt chars (sequenceAt depth) (chars.length + 1) none)
      (chars.length + 1) []

/-- Walks over the body of a hex string; the walk is lost where it ends in the middle of the text at
a character that is at no fault. -/
def scan : Walk Hex := do
  let (read, i) ← sequenceAt chars Limits.hexNesting 0
  let (c, i) ← peekAt chars i
  if c = some ')' then throw .unbalancedClosing
  else if c = some '|' then throw .alternationOutsideGroup
  else if i < chars.length then lost
  else
    match read with
    | some h => pure h
    | none => throw .noBytes

end Walks

private theorem follows_endAt (seen : List Hex) (hi : i ≤ chars.length) :
    Follows chars i (endAt seen i)
      (ofParts seen.reverse >>= fun whole => .ok (whole, chars.drop i)) := by
  rw [endAt]
  cases ofParts seen.reverse with
  | error => exact .failed
  | ok whole => exact .found (Nat.le_refl i) hi

private theorem follows_partsAt {groupAt : Nat → Walk (Hex × Nat)}
    {group : Chars → Except HexFault (Hex × Chars)} {rounds : Nat} {seen : List Hex}
    (hgroup : ∀ {i}, i ≤ chars.length → Follows chars i (groupAt i) (group (chars.drop i)))
    (hi : i ≤ chars.length) (hrounds : chars.length - i < rounds) :
    Follows chars i (partsAt chars groupAt rounds seen i)
      (readParts group rounds seen (chars.drop i)) := by
  induction rounds generalizing seen i with
  | zero => exact absurd hrounds (Nat.not_lt_zero _)
  | succ rounds ih =>
    obtain ⟨j, hpeek, hij, hj, hskip⟩ := exists_peekAt hi
    refine Follows.mono ?_ hij
    -- what has been read lies before the index that the next round starts at
    have hnext {part : Hex} {k : Nat} (hjk : j + 1 ≤ k) (hk : k ≤ chars.length) :
        Follows chars k (partsAt chars groupAt rounds (part :: seen) k)
          (readParts group rounds (part :: seen) (chars.drop k)) :=
      ih hk (by omega)
    rw [partsAt, hpeek, pure_bind, readParts, hskip]
    dsimp only
    split_ifs with hjump hopen hend
    · obtain ⟨hlt, hmark⟩ := drop_of_getElem? hjump
      rw [hmark]
      exact ((follows_jumpAt hlt).bind fun _ _ => hnext).mono (Nat.le_succ j)
    · obtain ⟨hlt, hmark⟩ := drop_of_getElem? hopen
      rw [hmark]
      exact ((hgroup hlt).bind fun _ _ => hnext).mono (Nat.le_succ j)
    · have hread := follows_endAt seen hj
      rcases hend with hend | hend | hend
      · have hnil : chars.drop j = [] := List.drop_eq_nil_of_le (List.getElem?_eq_none_iff.mp hend)
        rw [hnil] at hread ⊢
        exact hread
      · rw [(drop_of_getElem? hend).2] at hread ⊢
        exact hread
      · rw [(drop_of_getElem? hend).2] at hread ⊢
        exact hread
    · split
      · rename_i hmark
        exact absurd (getElem?_of_drop hmark).1 hjump
      · rename_i hmark
        exact absurd (getElem?_of_drop hmark).1 hopen
      · rename_i c rest _ _ hmark
        rw [(getElem?_of_drop hmark).1, not_or, not_or] at hend
        have hmarks : ¬(c = '|' ∨ c = ')') :=
          not_or.mpr ⟨fun hc => hend.2.1 (congrArg some hc), fun hc => hend.2.2 (congrArg some hc)⟩
        rw [if_neg hmarks, ← hmark]
        exact (follows_byteAt.bind fun _ _ => hnext).mono (Nat.le_succ j)
      · rename_i hmark
        exact absurd (.inl (List.getElem?_eq_none (List.drop_eq_nil_iff.mp hmark))) hend

private theorem follows_alternativesAt {sequenceAt : Nat → Walk (Option Hex × Nat)}
    {sequence : Chars → Except HexFault (Option Hex × Chars)} {rounds : Nat} {seen : Option Hex}
    (hsequence : ∀ {i}, i ≤ chars.length →
      Follows chars i (sequenceAt i) (sequence (chars.drop i)))
    (hi : i ≤ chars.length) (hrounds : chars.length - i < rounds) :
    Follows chars i (alternativesAt chars sequenceAt rounds seen i)
      (readAlternatives sequence rounds seen (chars.drop i)) := by
  induction rounds generalizing seen i with
  | zero => exact absurd hrounds (Nat.not_lt_zero _)
  | succ rounds ih =>
    rw [alternativesAt, readAlternatives]
    refine (hsequence hi).bind fun read j hij hj => ?_
    cases read with
    | none => exact .failed
    | some part =>
      obtain ⟨k, hpeek, hjk, hk, hskip⟩ := exists_peekAt hj
      refine Follows.mono ?_ hjk
      dsimp only
      rw [hpeek, pure_bind, hskip]
      dsimp only
      split_ifs with hbar hclose
      · obtain ⟨hlt, hmark⟩ := drop_of_getElem? hbar
        rw [hmark]
        exact (ih hlt (by omega)).mono (Nat.le_succ k)
      · obtain ⟨hlt, hmark⟩ := drop_of_getElem? hclose
        rw [hmark]
        exact .found (Nat.le_succ k) hlt
      · split
        · rename_i hmark
          exact absurd (getElem?_of_drop hmark).1 hbar
        · rename_i hmark
          exact absurd (getElem?_of_drop hmark).1 hclose
        · exact .failed

private theorem follows_sequenceAt (depth : Nat) (hi : i ≤ chars.length) :
    Follows chars i (sequenceAt chars depth i)
      (readSequence (chars.length + 1) depth (chars.drop i)) := by
  have hrounds (i : Nat) : chars.length - i < chars.length + 1 :=
    Nat.lt_succ_of_le (Nat.sub_le _ _)
  induction depth generalizing i with
  | zero => exact follows_partsAt (fun _ => .failed) hi (hrounds i)
  | succ depth ih =>
    exact follows_partsAt (fun hj => follows_alternativesAt ih hj (hrounds _)) hi (hrounds i)

/-! ### Bodies -/

/-- **The walk is never lost**, and it answers what the reader answers. -/
theorem run_scan (body : String) : (scan body.toList).run = some (parse body) := by
  have hreads := readsSequences_readSequence (body.toList.length + 1) Limits.hexNesting
  have hwalk : Follows body.toList 0 (sequenceAt body.toList Limits.hexNesting 0)
      (readSequence (body.toList.length + 1) Limits.hexNesting (body.toList.drop 0)) :=
    follows_sequenceAt Limits.hexNesting (Nat.zero_le _)
  rw [List.drop_zero] at hwalk
  rw [scan, parse]
  dsimp only
  generalize hread : readSequence _ _ _ = read at hwalk ⊢
  generalize sequenceAt _ _ _ = walk at hwalk ⊢
  cases hwalk with
  | failed => rfl
  | @found read j _ hj =>
    have hend := hreads.atEnd (Nat.lt_succ_self _) hread
    obtain ⟨k, hpeek, -, hk, hskip⟩ := exists_peekAt hj
    rw [hend.skip] at hskip
    rw [hskip] at hend ⊢
    rw [pure_bind, Outcome.ok_bind]
    dsimp only
    rw [hpeek, pure_bind]
    dsimp only
    cases hdrop : body.toList.drop k with
    | nil =>
      have hdone := List.drop_eq_nil_iff.mp hdrop
      have hnone (c : Char) : none ≠ some c := (Option.some_ne_none c).symm
      rw [List.getElem?_eq_none hdone, if_neg (hnone _), if_neg (hnone _),
        if_neg (Nat.not_lt.mpr hdone)]
      cases read with
      | none => rfl
      | some h => rfl
    | cons c rest =>
      rw [(getElem?_of_drop hdrop).1]
      rw [hdrop] at hend
      rcases hend c rfl with rfl | rfl
      · rfl
      · rfl

/-- **What the walk accepts**: it is never lost, it answers what the reader answers, and where the
numbers on both sides of a dash fit thirty-two bits, it accepts what the grammar derives and nothing
else. -/
theorem scan_decides_isBody (body : String) :
    (scan body.toList).run = some (parse body) ∧
      (JumpsFit body.toList →
        ((∃ h, parse body = .ok h) ↔ ∃ h, IsBody body.toList h)) :=
  ⟨run_scan body, fun hfit => exists_congr fun _ => parse_eq_ok_iff_isBody hfit⟩

/-- What a body with a group in a group and with white space in a jump is read as. -/
def nestedTree : Hex :=
  .seq (.seq (.seq (.byte (some 4) (some 13)) (.jump 2 (some 4)))
    (.group (.alt (.byte (some 5) (some 10))
      (.group (.alt (.seq (.byte none none) (.byte (some 0) none)) (.byte (some 15) (some 15)))))))
    (.byte (some 0) (some 0))

/-- The body is accepted; one that ends with a jump is not. -/
theorem scan_decides_isBody_nested :
    (scan "4D [ 2-4 ] (5A|( ?? 0? | fF )) 00".toList).run = some (.ok nestedTree) ∧
      JumpsFit "4D [ 2-4 ] (5A|( ?? 0? | fF )) 00".toList ∧
      (∃ h, IsBody "4D [ 2-4 ] (5A|( ?? 0? | fF )) 00".toList h) ∧
      (scan "4D [2]".toList).run = some (.error .jumpAtEnd) ∧
      JumpsFit "4D [2]".toList ∧ ¬∃ h, IsBody "4D [2]".toList h := by
  have hread : parse "4D [ 2-4 ] (5A|( ?? 0? | fF )) 00" = .ok nestedTree := by decide +kernel
  have hfit : JumpsFit "4D [ 2-4 ] (5A|( ?? 0? | fF )) 00".toList :=
    (numbersFit_of_length_filter_le (by decide)).jumpsFit
  have hrefused : parse "4D [2]" = .error .jumpAtEnd := by decide +kernel
  have hfit' : JumpsFit "4D [2]".toList := (numbersFit_of_length_filter_le (by decide)).jumpsFit
  obtain ⟨hscan, haccepts⟩ := scan_decides_isBody "4D [ 2-4 ] (5A|( ?? 0? | fF )) 00"
  obtain ⟨hscan', haccepts'⟩ := scan_decides_isBody "4D [2]"
  refine ⟨hread ▸ hscan, hfit, (haccepts hfit).mp ⟨_, hread⟩, hrefused ▸ hscan', hfit',
    fun hbody => ?_⟩
  obtain ⟨h, hparse⟩ := (haccepts' hfit').mpr hbody
  rw [hrefused] at hparse
  exact nomatch hparse

end Hex

end PackageScan
