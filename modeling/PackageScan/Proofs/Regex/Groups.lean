import PackageScan.Proofs.Regex.Reading

/-!
# Reading groups, repetitions and classes

What the reader makes of the larger pieces of an expression follows from what it makes of the pieces
inside them. A level matches what one of its alternatives matches (`Level.matches_whole`), a group
adds its level as one item (`adds_group`), a counted repetition takes the place of the item before
it (`Adds.repeated`), and a class adds the set of the bytes that it lists (`exists_adds_range`,
`exists_adds_listing`). The bounds of a repetition are decimal numbers, which are read back as they
are written (`bounds_repr`).
-/

namespace PackageScan

namespace Regex

namespace Reader

variable {data : ByteArray} {p q : Nat} {flags : Flags} {text : Chars}

/-! ### Levels -/

/-- A level matches what one of its alternatives matches. -/
theorem Level.matches_whole (level : Level) :
    level.whole.regex.Matches data p q ↔
      ∃ item ∈ level.sequence :: level.alternatives, item.regex.Matches data p q := by
  have hfoldl (items : List Item) (r : Regex) :
      (items.foldl (fun acc item => .alt acc item.regex) r).Matches data p q ↔
        r.Matches data p q ∨ ∃ item ∈ items, item.regex.Matches data p q := by
    induction items generalizing r with
    | nil => simp
    | cons item items ih =>
      rw [List.foldl_cons, ih, List.exists_mem_cons_iff, ← or_assoc]
      exact Iff.rfl
  rw [Level.whole]
  split
  · rename_i hnone
    rw [hnone]
    simp
  · dsimp only
    split
    · rename_i hnil
      exact absurd (List.reverse_eq_nil_iff.mp hnil) (List.cons_ne_nil _ _)
    · rename_i first others hall
      rw [hfoldl, ← List.exists_mem_cons_iff (p := fun item : Item => item.regex.Matches data p q),
        ← hall]
      simp only [List.mem_reverse]

theorem Level.depth_whole_le {level : Level} {depth : Nat}
    (h : ∀ item ∈ level.sequence :: level.alternatives, item.depth ≤ depth) :
    level.whole.depth ≤ depth + 1 := by
  rw [Level.whole]
  split
  · exact Nat.le_succ_of_le (h _ List.mem_cons_self)
  · dsimp only
    split
    · exact Nat.zero_le _
    · refine Nat.succ_le_succ (foldl_depth_le (Nat.zero_le _) fun item hitem => ?_)
      exact h item (List.mem_reverse.mp hitem)

/-! ### Groups -/

/-- A group that does not capture, with flags of its own inside: it adds what its level matches as
one item. -/
theorem adds_group (inner : Flags) (opening : Chars) {level : Level}
    (hverbose : flags.verbose = false) (hinner : inner.verbose = false)
    (hopen : ∀ (s : State) (rest : Chars), s.flags = flags →
      groupStart s (opening ++ rest) = .ok (s.openGroup false inner, rest))
    (htext : text.head? ≠ some '?')
    (hgoes : ∀ s : State, s.flags = inner → s.level = {} → Goes s text { s with level }) :
    Adds flags ('(' :: opening ++ (text ++ [')']))
      { regex := level.whole.regex, depth := level.whole.depth + 1 } := by
  intro s hs
  have hopens : Goes s ('(' :: opening) (s.openGroup false inner) := by
    refine goes_of_step (hs ▸ hverbose) fun rest _ => ?_
    exact hopen s rest hs
  have hcloses : Goes { s.openGroup false inner with level } [')']
      (s.add { regex := level.whole.regex, depth := level.whole.depth + 1 }) := by
    refine goes_of_step hinner fun rest _ => ?_
    rfl
  have hbody : Goes (s.openGroup false inner) text { s.openGroup false inner with level } :=
    hgoes _ rfl rfl
  exact hopens.append (hbody.append hcloses (by decide)) (head?_append_ne htext (by decide))

private theorem adds_dot (hverbose : flags.verbose = false) :
    Adds flags ['.'] { regex := .set (dot flags) } := by
  rintro s rfl
  exact goes_of_step hverbose fun rest _ => rfl

/-- Any byte at all, which is a group since the flags need not say so. -/
theorem adds_renderAny (hverbose : flags.verbose = false) :
    Adds flags Hex.renderAny { regex := .set .all, depth := 1 } := by
  let inner : Flags := { flags with dotAll := true }
  have hdot (s : State) (hs : s.flags = inner) (hlevel : s.level = {}) :
      Goes s ['.'] { s with level := { items := [{ regex := .set .all }] } } := by
    have hadds : Adds inner ['.'] { regex := .set .all } := adds_dot hverbose
    have hgoes := hadds s hs
    rw [State.add, hlevel] at hgoes
    exact hgoes
  refine adds_group inner "?s-u:".toList hverbose hverbose (fun s rest hs => ?_) (by decide) hdot
  rw [groupStart, skip_eq (hs ▸ hverbose), hs]
  rfl

/-! ### Repetitions -/

/-- Once more is what has been added last. -/
theorem Adds.repeated {item : Item} {written : Chars} {least : Nat} {most : Option Nat}
    (h : Adds flags text item) (hverbose : flags.verbose = false)
    (hrepeatable : item.repeatable = true)
    (hbounds : ∀ rest, bounds flags (written ++ rest) = .ok (least, most, rest)) :
    Adds flags (text ++ '\x7b' :: written)
      { regex := .repeated item.regex least most (true != flags.swapGreed)
        depth := item.depth + 1 } := by
  rintro s rfl
  have hbrace : ('\x7b' :: written).head? ≠ some '?' := fun hc => nomatch Option.some.inj hc
  refine (h s rfl).append (goes_of_step hverbose fun rest hrest => ?_) hbrace
  have hlazy : lazyMark rest = (false, rest) := by
    rw [lazyMark]
    rintro more rfl
    exact hrest rfl
  have hhead : (s.add item).level.items.head?.any Item.repeatable = true := hrepeatable
  rw [step]
  dsimp only
  rw [if_pos hhead, show (s.add item).flags = s.flags from rfl, hbounds, Outcome.ok_bind]
  dsimp only
  rw [skip_eq hverbose, hlazy]
  dsimp only
  have hlast : repeatLast s.flags (s.add item).level least most true =
      .ok { s.level with items :=
        { regex := .repeated item.regex least most (true != s.flags.swapGreed)
          depth := item.depth + 1 } :: s.level.items } := by
    rw [repeatLast]
    exact if_pos hrepeatable
  rw [Bool.not_false, hlast]
  rfl

/-- The digits of a number are read as the number. -/
private theorem decimal_toDigits {n : Nat} {c : Char} (hn : n < 2 ^ 32)
    (hblank : Text.isBlank c = false)
    (hdigit : c.isDigit = false) (rest : Chars) :
    decimal (Nat.toDigits 10 n ++ c :: rest) = .ok (some n, c :: rest) := by
  have hdigits (d : Char) (hd : d ∈ Nat.toDigits 10 n) : d.isDigit = true :=
    Decimal.isDigit_of_mem_toDigits hd
  have hstart : (Nat.toDigits 10 n ++ c :: rest).dropWhile Text.isBlank =
      Nat.toDigits 10 n ++ c :: rest := by
    obtain ⟨d, ds, hds⟩ := List.exists_cons_of_ne_nil (Nat.toDigits_ne_nil (n := n) (b := 10))
    have hd := Decimal.not_isBlank_of_isDigit (hdigits d (hds ▸ List.mem_cons_self))
    rw [hds]
    exact List.dropWhile_cons_of_neg (Bool.eq_false_iff.mp hd)
  have htake : (Nat.toDigits 10 n ++ c :: rest).takeWhile Char.isDigit = Nat.toDigits 10 n :=
    Text.takeWhile_append_of_stop hdigits hdigit
  have hlength : ((Nat.toDigits 10 n).dropWhile (· == '0')).length ≤ 10 := by
    refine Decimal.length_dropWhile_le hdigits ?_
    rw [Decimal.value_toDigits]
    exact Nat.lt_trans hn (by decide)
  have hvalue : (Nat.toDigits 10 n).foldl (fun n d => n * 10 + (d.toNat - 48)) 0 = n :=
    Decimal.value_toDigits n
  have hsmall : ¬Nat.pow 2 32 ≤ n := Nat.not_le.mpr hn
  rw [decimal]
  dsimp only
  rw [hstart, htake, List.drop_left, List.dropWhile_cons_of_neg (Bool.eq_false_iff.mp hblank)]
  simp only [List.isEmpty_iff]
  rw [if_neg Nat.toDigits_ne_nil, if_neg (Nat.not_lt.mpr hlength), hvalue, if_neg hsmall]

/-- The bounds of a repetition are read as they are written. -/
theorem bounds_repr {least : Nat} {most : Option Nat} (hverbose : flags.verbose = false)
    (hleast : least < 2 ^ 32) (hmost : ∀ m ∈ most, least ≤ m ∧ m < 2 ^ 32) (rest : Chars) :
    bounds flags ((Nat.repr least).toList ++ (',' :: (most.elim [] fun m => (Nat.repr m).toList) ++
      ['\x7d']) ++ rest) = .ok (least, most, rest) := by
  rw [Decimal.toList_repr, List.append_assoc, List.cons_append, List.cons_append, bounds,
    skip_eq hverbose, decimal_toDigits hleast (by decide) (by decide), Outcome.ok_bind]
  cases most with
  | none =>
    simp only [Option.elim, List.nil_append, List.singleton_append, skip_eq hverbose]
    rfl
  | some m =>
    obtain ⟨hle, hm⟩ := hmost m rfl
    simp only [Option.elim, Decimal.toList_repr, List.append_assoc, List.singleton_append,
      skip_eq hverbose]
    split
    · rename_i more heq
      -- the digits of the greatest number do not begin with the brace
      obtain ⟨d, ds, hds⟩ := List.exists_cons_of_ne_nil (Nat.toDigits_ne_nil (n := m) (b := 10))
      have hd : d.isDigit = true := Decimal.isDigit_of_mem_toDigits (hds ▸ List.mem_cons_self)
      rw [hds] at heq
      obtain rfl := (List.cons.inj heq).1
      exact absurd hd (by decide)
    · rw [decimal_toDigits hm (by decide) (by decide), Outcome.ok_bind, Outcome.ok_bind]
      exact if_neg fun hlt => Nat.not_lt.mpr hle (of_decide_eq_true hlt)

/-! ### Classes -/

section Classes

variable {s : ByteSet} {state : ClassState} {rest : Chars} {fuel : Nat}

private theorem openClass_escape (hverbose : flags.verbose = false) (rest : Chars) :
    openClass flags ('\\' :: rest) = .ok ({ negated := false }, '\\' :: rest) := by
  rw [openClass, skip_eq hverbose]
  rfl

private theorem classItem_renderByte (hverbose : flags.verbose = false) (b : UInt8) (rest : Chars) :
    ∃ c : Char, c.toNat = b.toNat ∧
      classItem flags (Hex.renderByte b.toNat ++ rest) = .ok (.literal c true, rest) := by
  obtain ⟨c, hc, hescape⟩ := escape_upperByte hverbose b rest
  refine ⟨c, hc, ?_⟩
  rw [Hex.renderByte, show b.toNat.toUInt8 = b from UInt8.ofNat_toNat]
  exact hescape

private theorem classByte_eq {c : Char} {b : UInt8} (hc : c.toNat = b.toNat) :
    classByte c true = .ok b := by
  have hb : c.toNat < 256 := hc ▸ b.toNat_lt
  rw [classByte, if_pos (by simpa using .inr hb), hc]
  exact congrArg Except.ok UInt8.ofNat_toNat

/-- A byte inside a class stands for itself, unless a dash follows. -/
private theorem classRange_renderByte (hverbose : flags.verbose = false) (b : UInt8) {c : Char}
    (hc : c ≠ '-') (rest : Chars) :
    classRange flags (Hex.renderByte b.toNat ++ c :: rest) = .ok (.single b, c :: rest) := by
  obtain ⟨d, hd, hitem⟩ := classItem_renderByte hverbose b (c :: rest)
  rw [classRange, hitem, Outcome.ok_bind]
  dsimp only
  rw [skip_eq hverbose, List.isEmpty_cons, if_neg Bool.false_ne_true]
  split
  · rename_i heq
    exact absurd (List.cons.inj heq).1 hc
  · rw [classByte_eq hd]
    rfl

/-- Two bytes with a dash between them stand for all from the one to the other. -/
private theorem classRange_range (hverbose : flags.verbose = false) {low high : UInt8}
    (hle : low.toNat ≤ high.toNat) (rest : Chars) :
    classRange flags
      (Hex.renderByte low.toNat ++ '-' :: (Hex.renderByte high.toNat ++ rest)) =
        .ok (.range low high, rest) := by
  obtain ⟨c, hc, hfirst⟩ :=
    classItem_renderByte hverbose low ('-' :: (Hex.renderByte high.toNat ++ rest))
  obtain ⟨d, hd, hlast⟩ := classItem_renderByte hverbose high rest
  rw [classRange, hfirst, Outcome.ok_bind]
  dsimp only
  rw [skip_eq hverbose, List.isEmpty_cons, if_neg Bool.false_ne_true]
  simp only [skip_eq hverbose]
  rw [Hex.renderByte, List.cons_append] at hlast ⊢
  split
  · rename_i heq
    exact absurd (List.cons.inj heq).1 (by decide)
  · rename_i heq
    exact absurd (List.cons.inj heq).1 (by decide)
  · rename_i heq
    exact absurd heq (List.cons_ne_nil _ _)
  · rw [hlast, Outcome.ok_bind]
    have hlt : ¬d.toNat < c.toNat := by omega
    simp only [if_neg hlt, classByte_eq hc, classByte_eq hd, Outcome.ok_bind]

private theorem classBody_escape (hverbose : flags.verbose = false)
    (h : classRange flags ('\\' :: text) = .ok (s, rest)) :
    classBody flags (fuel + 1) state ('\\' :: text) = classBody flags fuel (state.add s) rest := by
  rw [classBody, skip_eq hverbose]
  exact congrArg (fun read => read >>= fun next => classBody flags fuel (state.add next.1) next.2) h

/-- A class that lists bytes and nothing else. -/
structure Plain (state : ClassState) : Prop where
  negated_eq : state.negated = false
  pending_eq : state.pending = none
  depth_eq : state.depth = 0

theorem Plain.add (h : Plain state) (s : ByteSet) : Plain (state.add s) where
  negated_eq := h.negated_eq
  pending_eq := h.pending_eq
  depth_eq := (Nat.max_zero _).trans h.depth_eq

theorem Plain.close (h : Plain state) (hcase : flags.ignoreCase = false) :
    (state.close flags).1 = state.listed ∧ (state.close flags).2 ≤ 2 := by
  have hfold : fold flags state.listed = state.listed := by
    rw [fold, hcase]
    rfl
  have hdepth : state.listDepth ≤ 1 := by
    rw [ClassState.listDepth, h.depth_eq]
    split_ifs <;> decide
  rw [ClassState.close, ClassState.value, h.pending_eq, h.negated_eq]
  exact ⟨hfold, Nat.succ_le_succ hdepth⟩

/-- The class that lists the bytes after what it has listed. -/
def listing (state : ClassState) (bytes : List UInt8) : ClassState :=
  bytes.foldl (fun state b => state.add (.single b)) state

private theorem plain_listing (h : Plain state) (bytes : List UInt8) :
    Plain (listing state bytes) := by
  induction bytes generalizing state with
  | nil => exact h
  | cons b bytes ih => exact ih (h.add (.single b))

private theorem contains_listing (bytes : List UInt8) {b : UInt8} :
    (listing state bytes).listed.contains b = true ↔
      state.listed.contains b = true ∨ b ∈ bytes := by
  induction bytes generalizing state with
  | nil => simp [listing]
  | cons b' bytes ih =>
    have hadd : (state.add (.single b')).listed.contains b = true ↔
        state.listed.contains b = true ∨ b = b' := by
      change (state.listed.contains b || b == b') = true ↔ _
      rw [Bool.or_eq_true, beq_iff_eq]
    have hrest : (listing (state.add (.single b')) bytes).listed.contains b = true ↔ _ := ih
    rw [hadd, or_assoc, ← List.mem_cons] at hrest
    exact hrest

private theorem classBody_renderBytes (hverbose : flags.verbose = false) (bytes : List UInt8)
    (rest : Chars) :
    classBody flags (bytes.length + fuel) state
        (bytes.flatMap (fun b => Hex.renderByte b.toNat) ++ ']' :: rest) =
      classBody flags fuel (listing state bytes) (']' :: rest) := by
  induction bytes generalizing state with
  | nil =>
    rw [List.length_nil, Nat.zero_add]
    rfl
  | cons b bytes ih =>
    rw [List.flatMap_cons, List.append_assoc, List.length_cons, Nat.add_right_comm]
    have hread : classRange flags (Hex.renderByte b.toNat ++
        (bytes.flatMap (fun b => Hex.renderByte b.toNat) ++ ']' :: rest)) =
        .ok (.single b, bytes.flatMap (fun b => Hex.renderByte b.toNat) ++ ']' :: rest) := by
      cases bytes with
      | nil => exact classRange_renderByte hverbose b (by decide) rest
      | cons b' bytes =>
        rw [List.flatMap_cons, Hex.renderByte.eq_def b'.toNat]
        exact classRange_renderByte hverbose b (by decide) _
    rw [Hex.renderByte] at hread ⊢
    exact (classBody_escape hverbose hread).trans ih

/-- What is read between brackets adds the set that it lists. -/
private theorem exists_adds_class {n : Nat} (hverbose : flags.verbose = false)
    (hcase : flags.ignoreCase = false) (hn : n ≤ text.length) (hplain : Plain state)
    (hbody : ∀ fuel rest, classBody flags (n + fuel) { negated := false }
      ('\\' :: (text ++ ']' :: rest)) = classBody flags fuel state (']' :: rest)) :
    ∃ depth ≤ 2,
      Adds flags ('[' :: '\\' :: (text ++ [']'])) { regex := .set state.listed, depth } := by
  obtain ⟨hset, hdepth⟩ := hplain.close hcase
  refine ⟨_, hdepth, ?_⟩
  rintro s rfl
  refine goes_of_step hverbose fun rest _ => ?_
  obtain ⟨fuel, hfuel⟩ : ∃ fuel,
      ('\\' :: (text ++ ']' :: rest)).length + 1 = n + (fuel + 1) := by
    refine ⟨text.length - n + rest.length + 2, ?_⟩
    simp only [List.length_cons, List.length_append]
    omega
  have hclose : classBody s.flags (fuel + 1) state (']' :: rest) =
      .ok (state.listed, (state.close s.flags).2, rest) := by
    rw [classBody, skip_eq hverbose, ← hset]
    rfl
  rw [step, List.cons_append, List.append_assoc, List.singleton_append]
  dsimp only
  rw [openClass_escape hverbose, Outcome.ok_bind]
  dsimp only
  rw [hfuel, hbody, hclose]
  rfl

/-- A class of the bytes between two. -/
theorem exists_adds_range (hverbose : flags.verbose = false) (hcase : flags.ignoreCase = false)
    {low high : UInt8} (hle : low.toNat ≤ high.toNat) :
    ∃ s : ByteSet, ∃ depth ≤ 2,
      (∀ b, s.contains b = true ↔ low.toNat ≤ b.toNat ∧ b.toNat ≤ high.toNat) ∧
      Adds flags ('[' :: Hex.renderByte low.toNat ++ '-' :: Hex.renderByte high.toNat ++ [']'])
        { regex := .set s, depth } := by
  let opened : ClassState := { negated := false }
  have hplain : Plain opened := ⟨rfl, rfl, rfl⟩
  let text : Chars :=
    'x' :: (Hexadecimal.upperByte low.toNat.toUInt8 ++ '-' :: Hex.renderByte high.toNat)
  have hbody (fuel : Nat) (rest : Chars) :
      classBody flags (1 + fuel) opened ('\\' :: (text ++ ']' :: rest)) =
        classBody flags fuel (opened.add (.range low high)) (']' :: rest) := by
    rw [Nat.add_comm]
    exact classBody_escape hverbose (classRange_range hverbose hle (']' :: rest))
  obtain ⟨depth, hdepth, hadds⟩ :=
    exists_adds_class hverbose hcase (Nat.le_add_left 1 _) (hplain.add _) hbody
  refine ⟨_, depth, hdepth, fun b => ?_, hadds⟩
  change (false || (decide (low ≤ b) && decide (b ≤ high))) = true ↔ _
  rw [Bool.false_or, Bool.and_eq_true, decide_eq_true_eq, decide_eq_true_eq]
  exact Iff.rfl

/-- A class of bytes that are listed. -/
theorem exists_adds_listing (hverbose : flags.verbose = false) (hcase : flags.ignoreCase = false)
    {bytes : List UInt8} (hne : bytes ≠ []) :
    ∃ s : ByteSet, ∃ depth ≤ 2, (∀ b, s.contains b = true ↔ b ∈ bytes) ∧
      Adds flags ('[' :: (bytes.flatMap fun b => Hex.renderByte b.toNat) ++ [']'])
        { regex := .set s, depth } := by
  let opened : ClassState := { negated := false }
  have hplain : Plain opened := ⟨rfl, rfl, rfl⟩
  obtain ⟨text, htext⟩ :
      ∃ text, (bytes.flatMap fun b => Hex.renderByte b.toNat) = '\\' :: text := by
    obtain ⟨b, bytes, rfl⟩ := List.exists_cons_of_ne_nil hne
    exact ⟨_, rfl⟩
  have hlength : bytes.length ≤ text.length := by
    have hfour (b : UInt8) : (Hex.renderByte b.toNat).length = 4 := rfl
    have hsum := congrArg List.length htext
    simp only [List.length_flatMap, hfour, List.map_const', List.sum_replicate_nat,
      List.length_cons] at hsum
    have hpos := List.length_pos_iff.mpr hne
    omega
  have hbody (fuel : Nat) (rest : Chars) :
      classBody flags (bytes.length + fuel) opened ('\\' :: (text ++ ']' :: rest)) =
        classBody flags fuel (listing opened bytes) (']' :: rest) := by
    rw [← List.cons_append, ← htext]
    exact classBody_renderBytes hverbose bytes rest
  obtain ⟨depth, hdepth, hadds⟩ :=
    exists_adds_class hverbose hcase hlength (plain_listing hplain bytes) hbody
  refine ⟨(listing opened bytes).listed, depth, hdepth, fun b => ?_, ?_⟩
  · exact (contains_listing bytes).trans (or_iff_right Bool.false_ne_true)
  · rw [htext]
    exact hadds

end Classes

end Reader

end Regex

end PackageScan
