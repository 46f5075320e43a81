import Mathlib.Data.List.Basic
import Mathlib.Data.List.TakeWhile
import PackageScan.Proofs.Outcome
import PackageScan.Proofs.Text.Digits
import PackageScan.Rule.Lexer

/-!
# Reading one token

Where a token ends is found by looking at what follows it. The next character decides, and neither
white space nor a slash goes on with a token. So in place of what follows a token anything may
stand that begins with the same character, with white space or with a slash (`EndsLike`), and the
token is read as before (`Token.Settled`).

There is one lemma per reader. For the readers of literals it is an induction over the characters
up to the closing mark, one unit at a time (`Token.Takes.prepend`); for the others the run of
characters that they take stops where it did (`Token.exists_run`).
-/

namespace PackageScan

/-- A text that may stand after a token in place of the text `next`: it is empty, or it begins with
the same character, with white space or with a slash. -/
def EndsLike (next more : List Char) : Prop :=
  ∀ c, more.head? = some c → next.head? = some c ∨ Text.isBlank c = true ∨ c = '/'

namespace EndsLike

variable {next more : List Char}

/-- The same characters before both. -/
theorem append (h : EndsLike next more) (cs : List Char) :
    EndsLike (cs ++ next) (cs ++ more) := by
  cases cs with
  | nil => exact h
  | cons c cs => exact fun d hd => Or.inl hd

/-- What begins neither in white space nor with a slash begins the one only if it begins the
other. -/
theorem any_head? (h : EndsLike next more) {p : Char → Bool}
    (hp : ∀ c, Text.isBlank c = true ∨ c = '/' → p c = false)
    (hnext : next.head?.any p = false) : more.head?.any p = false := by
  cases hmore : more.head? with
  | none => rfl
  | some c =>
    rcases h c hmore with hc | hc
    · rwa [hc] at hnext
    · exact hp c hc

end EndsLike

namespace Token

variable {cs next more : List Char}

/-- Characters of words are among those from the first digit to the last letter. -/
theorem range_of_isWordChar {c : Char} (h : isWordChar c = true) :
    48 ≤ c.toNat ∧ c.toNat ≤ 122 := by
  rcases Bool.or_eq_true_iff.mp h with halphanum | hline
  · rcases Bool.or_eq_true_iff.mp halphanum with halpha | hdigit
    · rcases Bool.or_eq_true_iff.mp halpha with hupper | hlower
      · obtain ⟨hlow, hhigh⟩ := of_decide_eq_true hupper
        exact ⟨Nat.le_trans (by decide) hlow, Nat.le_trans hhigh (by decide)⟩
      · obtain ⟨hlow, hhigh⟩ := Bool.and_eq_true_iff.mp hlower
        exact ⟨Nat.le_trans (by decide) (of_decide_eq_true hlow), of_decide_eq_true hhigh⟩
    · obtain ⟨hlow, hhigh⟩ := Bool.and_eq_true_iff.mp hdigit
      exact ⟨of_decide_eq_true hlow, Nat.le_trans (of_decide_eq_true hhigh) (by decide)⟩
  · rw [beq_iff_eq.mp hline]
    decide

/-- Neither white space nor a slash is part of a word. -/
private theorem not_isWordChar {c : Char} (h : Text.isBlank c = true ∨ c = '/') :
    isWordChar c = false := by
  rw [Bool.eq_false_iff]
  intro hword
  obtain ⟨hlow, hhigh⟩ := range_of_isWordChar hword
  rcases h with hblank | rfl
  · simp only [Text.isBlank, Bool.or_eq_true, Bool.and_eq_true, decide_eq_true_eq,
      beq_iff_eq] at hblank
    omega
  · exact absurd hlow (by decide)

/-- With `before` characters counted already, the value is read from the first characters of a text
and all of these are counted. Something else may follow them. -/
def Takes {α : Type} (read : List Char → Except (LexFault × Nat) (α × Nat)) (before : Nat)
    (cs : List Char) (a : α) (w : Nat) : Prop :=
  ∃ taken next, cs = taken ++ next ∧ w = before + taken.length ∧
    ∀ more, EndsLike next more → read (taken ++ more) = .ok (a, w)

/-- Whatever has been read was taken from the first characters. -/
def Settled {α : Type} (read : List Char → Except (LexFault × Nat) (α × Nat)) (before : Nat) :
    Prop :=
  ∀ ⦃cs : List Char⦄ ⦃a : α⦄ ⦃w : Nat⦄, read cs = .ok (a, w) → Takes read before cs a w

/-- A unit before what is taken. -/
theorem Takes.prepend {α : Type} {read read' : List Char → Except (LexFault × Nat) (α × Nat)}
    {before w : Nat} {rest : List Char} {a : α} (unit : List Char)
    (hstep : ∀ cs, read (unit ++ cs) = read' cs)
    (h : Takes read' (before + unit.length) rest a w) : Takes read before (unit ++ rest) a w := by
  obtain ⟨taken, next, rfl, rfl, hread⟩ := h
  refine ⟨unit ++ taken, next, (List.append_assoc ..).symm, ?_, fun more hmore => ?_⟩
  · rw [List.length_append, Nat.add_assoc]
  · rw [List.append_assoc, hstep]
    exact hread more hmore

/-! ### Runs of characters -/

/-- A run of characters that belong to words ends where it did. -/
theorem exists_run {p : Char → Bool} (hp : ∀ c, p c = true → isWordChar c = true)
    (cs : List Char) :
    ∃ next, cs = cs.takeWhile p ++ next ∧ next.head?.any p = false ∧
      ∀ more, EndsLike next more → (cs.takeWhile p ++ more).takeWhile p = cs.takeWhile p := by
  have hgap (c : Char) (hc : Text.isBlank c = true ∨ c = '/') : p c = false := by
    rw [Bool.eq_false_iff]
    exact fun h => Bool.eq_false_iff.mp (not_isWordChar hc) (hp c h)
  have hnext : (cs.dropWhile p).head?.any p = false := by
    have hhead := List.head?_dropWhile_not p cs
    cases hd : (cs.dropWhile p).head? with
    | none => rfl
    | some c =>
      rw [hd] at hhead
      exact hhead
  exact ⟨cs.dropWhile p, List.takeWhile_append_dropWhile.symm, hnext, fun more hmore =>
    Text.takeWhile_append_of_stop (fun _ => List.mem_takeWhile_imp) (hmore.any_head? hgap hnext)⟩

/-- The characters of a word end where they did. -/
theorem exists_wordOf (cs : List Char) :
    ∃ next, cs = wordOf cs ++ next ∧
      ∀ more, EndsLike next more → wordOf (wordOf cs ++ more) = wordOf cs := by
  obtain ⟨next, hsplit, -, hrun⟩ := exists_run (fun _ h => h) cs
  exact ⟨next, hsplit, hrun⟩

/-! ### Literals -/

/-- A character of a quoted text that stands for itself. -/
theorem readText_cons {bytes : List UInt8} {size width : Nat} {c : Char} {rest : List Char}
    (hquote : c ≠ '"') (hstop : ¬(c = '\n' ∨ c = '\\'))
    (hsize : ¬ Limits.literalSize < size + c.utf8Size) :
    readText bytes size width (c :: rest) =
      readText ((Utf8.encodeChar c).reverse ++ bytes) (size + c.utf8Size) (width + 1) rest := by
  obtain ⟨hline, hslash⟩ := not_or.mp hstop
  simp [readText, hquote, hline, hslash, hsize]

private theorem readText_settled (bytes : List UInt8) (size width : Nat) :
    Settled (readText bytes size width) width := by
  intro cs a w h
  fun_induction readText bytes size width cs with
  | case3 bytes size width high low rest b hb hsize ih =>
    exact (ih h).prepend ['\\', 'x', high, low] fun cs => by simp [readText, hb, hsize]
  | case7 bytes size width c rest hc b hb hsize ih =>
    exact (ih h).prepend ['\\', c] fun cs => by simp [readText, hb, hsize]
  | case9 bytes size width rest =>
    cases h
    exact ⟨['"'], rest, rfl, rfl, fun more _ => by simp [readText]⟩
  | case12 bytes size width c rest hx hc hquote hstop size' hsize ih =>
    exact (ih h).prepend [c] fun cs => readText_cons hquote hstop hsize
  | _ => exact nomatch h

private theorem readHex_settled (body : List Char) (size width : Nat) :
    Settled (readHex body size width) width := by
  intro cs a w h
  fun_induction readHex body size width cs with
  | case2 body size width rest =>
    cases h
    exact ⟨['\x7d'], rest, rfl, rfl, fun more _ => by simp [readHex]⟩
  | case4 body size width c rest hclose size' hsize ih =>
    refine (ih h).prepend [c] fun cs => ?_
    rw [List.singleton_append, readHex, if_neg hclose]
    exact if_neg hsize
  | _ => exact nomatch h

/-- A character of a regular expression that stands for itself. -/
theorem readRegex_cons {pattern : List Char} {size width : Nat} {c : Char} {rest : List Char}
    (hslash : c ≠ '/') (hstop : ¬(c = '\n' ∨ c = '\\'))
    (hsize : ¬ Limits.literalSize < size + c.utf8Size) :
    readRegex pattern size width (c :: rest) =
      readRegex (c :: pattern) (size + c.utf8Size) (width + 1) rest := by
  obtain ⟨hline, hback⟩ := not_or.mp hstop
  simp [readRegex, hslash, hline, hback, hsize]

private theorem readRegex_settled (pattern : List Char) (size width : Nat) :
    Settled (readRegex pattern size width) width := by
  intro cs a w h
  fun_induction readRegex pattern size width cs with
  | case4 pattern size width rest hsize _ ih =>
    exact (ih h).prepend ['\\', '/'] fun cs => by simp [readRegex, hsize]
  | case6 pattern size width c rest hline hslash size' hsize ih =>
    refine (ih h).prepend ['\\', c] fun cs => ?_
    rw [List.cons_append, List.singleton_append, readRegex, if_neg hline, if_neg hslash]
    exact if_neg hsize
  | case7 pattern size width rest =>
    cases h
    exact ⟨['/'], rest, rfl, rfl, fun more _ => by simp [readRegex]⟩
  | case10 pattern size width c rest hc hslash hstop size' hsize ih =>
    exact (ih h).prepend [c] fun cs => readRegex_cons hslash hstop hsize
  | _ => exact nomatch h

/-- The flags after a regular expression end where they did. -/
private theorem exists_regexFlags (cs : List Char) :
    ∃ next, cs = regexFlags cs ++ next ∧
      ∀ more, EndsLike next more → regexFlags (regexFlags cs ++ more) = regexFlags cs := by
  have hword (c : Char) (hc : (c == 'i' || c == 's') = true) : isWordChar c = true := by
    rcases Bool.or_eq_true_iff.mp hc with hc | hc
    · rw [beq_iff_eq.mp hc]
      rfl
    · rw [beq_iff_eq.mp hc]
      rfl
  obtain ⟨next, hsplit, -, hrun⟩ := exists_run hword cs
  exact ⟨next, hsplit, hrun⟩

/-- A literal is settled, its first character counted. -/
private theorem readLiteral_settled (opening : Char) : Settled (readLiteral opening) 1 := by
  intro cs t w h
  rw [readLiteral] at h
  split_ifs at h with hquote hslash
  · obtain ⟨⟨bytes, width⟩, hread, h⟩ := Outcome.bind_eq_ok.mp h
    cases h
    obtain ⟨taken, next, rfl, rfl, hread⟩ := readText_settled [] 0 1 hread
    refine ⟨taken, next, rfl, rfl, fun more hmore => ?_⟩
    rw [readLiteral, if_pos hquote]
    exact Outcome.bind_eq_ok.mpr ⟨_, hread more hmore, rfl⟩
  · obtain ⟨⟨pattern, width⟩, hread, h⟩ := Outcome.bind_eq_ok.mp h
    cases h
    obtain ⟨taken, next, rfl, rfl, hread⟩ := readRegex_settled [] 0 1 hread
    have hdrop (more : List Char) : (taken ++ more).drop (1 + taken.length - 1) = more := by
      rw [Nat.add_sub_cancel_left, List.drop_left]
    -- the flags follow the closing slash, and what follows them may be something else
    obtain ⟨rest, hnext, hflags⟩ := exists_regexFlags next
    rw [hdrop]
    refine ⟨taken ++ regexFlags next, rest, ?_, ?_, fun more hmore => ?_⟩
    · rw [List.append_assoc, ← hnext]
    · rw [List.length_append, Nat.add_assoc]
    · have hlike : EndsLike next (regexFlags next ++ more) := by
        have happend := hmore.append (regexFlags next)
        rwa [← hnext] at happend
      rw [readLiteral, if_neg hquote, if_pos hslash, List.append_assoc]
      refine Outcome.bind_eq_ok.mpr ⟨_, hread _ hlike, ?_⟩
      dsimp only
      rw [hdrop, hflags more hmore]
  · obtain ⟨⟨body, width⟩, hread, h⟩ := Outcome.bind_eq_ok.mp h
    cases h
    obtain ⟨taken, next, rfl, rfl, hread⟩ := readHex_settled [] 0 1 hread
    refine ⟨taken, next, rfl, rfl, fun more hmore => ?_⟩
    rw [readLiteral, if_neg hquote, if_neg hslash]
    exact Outcome.bind_eq_ok.mpr ⟨_, hread more hmore, rfl⟩

/-! ### Words and names -/

private theorem readWord_settled : Settled readWord 0 := by
  intro cs t w h
  obtain ⟨next, hsplit, hword⟩ := exists_wordOf cs
  refine ⟨wordOf cs, next, hsplit, ?_, fun more hmore => ?_⟩
  · obtain ⟨_, -, h⟩ := Outcome.bind_eq_ok.mp h
    rw [Nat.zero_add]
    dsimp only at h
    split at h
    · cases h
      rfl
    · cases h
      rfl
  · rw [readWord, hword more hmore]
    exact h

/-- Words begin with characters of words. -/
theorem isWordChar_of_start {c : Char} (h : (c.isAlpha || c = '_') = true) :
    isWordChar c = true := by
  rw [isWordChar, Char.isAlphanum]
  rcases Bool.or_eq_true_iff.mp h with halpha | hline
  · rw [halpha]
    rfl
  · rw [of_decide_eq_true hline]
    rfl

private theorem pos_of_readWord {c : Char} {t : Token} {w : Nat}
    (hc : (c.isAlpha || c = '_') = true)
    (h : readWord (c :: cs) = .ok (t, w)) : 0 < w := by
  have hname : 0 < (wordOf (c :: cs)).length := by
    rw [wordOf, List.takeWhile_cons_of_pos (isWordChar_of_start hc)]
    exact Nat.succ_pos _
  obtain ⟨_, -, h⟩ := Outcome.bind_eq_ok.mp h
  dsimp only at h
  split at h <;> cases h <;> exact hname

private theorem readStringCount_settled : Settled readStringCount 1 := by
  intro cs t w h
  obtain ⟨next, hsplit, hword⟩ := exists_wordOf cs
  rw [readStringCount] at h
  refine ⟨wordOf cs, next, hsplit, ?_, fun more hmore => ?_⟩
  · split at h
    · exact nomatch h
    · obtain ⟨_, -, h⟩ := Outcome.bind_eq_ok.mp h
      cases h
      exact Nat.add_comm _ _
  · rw [readStringCount, hword more hmore]
    exact h

/-- A name is followed by an asterisk or by something else. -/
theorem readStringName_append {name : List Char} (hword : wordOf (name ++ more) = name)
    (hlength : checkLength name = .ok ()) :
    readStringName (name ++ more) =
      if more.head? = some '*' then .ok (.stringPrefix (String.ofList name), name.length + 2)
      else .ok (.stringName (String.ofList name), name.length + 1) := by
  rw [readStringName, hword, hlength, List.drop_left]
  cases more with
  | nil => rfl
  | cons c more =>
    split_ifs with hc
    · cases Option.some.inj hc
      rfl
    · have hne : c ≠ '*' := fun he => hc (congrArg some he)
      simp [bind, Except.bind, hne]

private theorem readStringName_settled : Settled readStringName 1 := by
  intro cs t w h
  obtain ⟨next, hsplit, hword⟩ := exists_wordOf cs
  obtain ⟨_, hlength, -⟩ := Outcome.bind_eq_ok.mp h
  have hown : EndsLike next next := fun c hc => Or.inl hc
  rw [hsplit, readStringName_append (hword next hown) hlength] at h
  split_ifs at h with hstar
  · cases h
    obtain ⟨rest, rfl⟩ : ∃ rest, next = '*' :: rest := List.head?_eq_some_iff.mp hstar
    refine ⟨wordOf cs ++ ['*'], rest, ?_, ?_, fun more _ => ?_⟩
    · rw [List.append_assoc]
      exact hsplit
    · rw [List.length_append, List.length_singleton]
      omega
    · have hlike : EndsLike ('*' :: rest) ('*' :: more) := fun c hc => Or.inl hc
      rw [List.append_assoc, List.singleton_append,
        readStringName_append (hword _ hlike) hlength]
      rfl
  · cases h
    refine ⟨wordOf cs, next, hsplit, Nat.add_comm _ _, fun more hmore => ?_⟩
    rw [readStringName_append (hword more hmore) hlength, if_neg]
    intro hhead
    rcases hmore '*' hhead with hc | hc | hc
    · exact hstar hc
    · exact absurd hc (by decide)
    · exact absurd hc (by decide)


/-! ### Integers -/

/-- A run of digits starts with the mark of base sixteen. -/
def hexMarked : List Char → Bool
  | '0' :: d :: _ => d == 'x' || d == 'X'
  | _ => false

theorem integerDigits_eq (cs : List Char) :
    integerDigits cs =
      if hexMarked cs then (16, 2, (cs.drop 2).takeWhile Hexadecimal.isDigit)
      else (10, 0, cs.takeWhile Char.isDigit) := by
  rw [integerDigits.eq_def]
  split
  · rfl
  · rfl
  · rename_i hx hX
    rw [if_neg]
    rw [hexMarked.eq_def]
    split
    · rename_i d rest
      rw [Bool.or_eq_true, beq_iff_eq, beq_iff_eq]
      rintro (rfl | rfl)
      · exact hx rest rfl
      · exact hX rest rfl
    · exact Bool.false_ne_true

theorem hexMarked_cons_cons (c d : Char) (cs : List Char) :
    hexMarked (c :: d :: cs) = (c == '0' && (d == 'x' || d == 'X')) := by
  by_cases hc : c = '0'
  · rw [hc]
    rfl
  · simp [hexMarked, hc]

/-- What follows a digit is the second character of a mark where it was one. -/
private theorem hexMarked_append (h : EndsLike next more) (hne : cs ≠ [])
    (hmarked : hexMarked (cs ++ next) = false) : hexMarked (cs ++ more) = false := by
  match cs with
  | [c] =>
    cases more with
    | nil => simp [hexMarked]
    | cons d more =>
      rw [List.singleton_append, hexMarked_cons_cons]
      rcases h d rfl with hd | hd
      · obtain ⟨rest, rfl⟩ : ∃ rest, next = d :: rest := List.head?_eq_some_iff.mp hd
        rwa [List.singleton_append, hexMarked_cons_cons] at hmarked
      · have hword : ¬isWordChar d = true := Bool.eq_false_iff.mp (not_isWordChar hd)
        have hx : d ≠ 'x' := by
          rintro rfl
          exact hword rfl
        have hX : d ≠ 'X' := by
          rintro rfl
          exact hword rfl
        simp [hx, hX]
  | c :: d :: cs =>
    rw [List.cons_append, List.cons_append, hexMarked_cons_cons] at hmarked ⊢
    exact hmarked

theorem isWordChar_of_isDigit {c : Char} (h : Hexadecimal.isDigit c = true) :
    isWordChar c = true := by
  obtain ⟨n, hn⟩ := Option.isSome_iff_exists.mp h
  have halphanum : c.isAlphanum = true := by
    obtain ⟨hlow, hhigh, -⟩ | ⟨hlow, hhigh, -⟩ | ⟨hlow, hhigh, -⟩ :=
      Hexadecimal.range_of_value? hn
    · have hdigit : c.isDigit = true := Char.isDigit_iff_toNat.mpr ⟨hlow, hhigh⟩
      exact Bool.or_eq_true_iff.mpr (.inr hdigit)
    · have hz : c.toNat ≤ 'z'.toNat := Nat.le_trans hhigh (by decide)
      have hlower : c.isLower = true :=
        Bool.and_eq_true_iff.mpr ⟨decide_eq_true hlow, decide_eq_true hz⟩
      exact Bool.or_eq_true_iff.mpr (.inl (Bool.or_eq_true_iff.mpr (.inr hlower)))
    · have hZ : c.toNat ≤ 'Z'.toNat := Nat.le_trans hhigh (by decide)
      have hupper : c.isUpper = true := decide_eq_true ⟨hlow, hZ⟩
      exact Bool.or_eq_true_iff.mpr (.inl (Bool.or_eq_true_iff.mpr (.inl hupper)))
  exact Bool.or_eq_true_iff.mpr (.inl halphanum)

/-- The digits of an integer, after the mark of their base, end where they did. -/
private theorem exists_integerDigits {base width : Nat} {digits : List Char}
    (h : integerDigits cs = (base, width, digits)) (hne : digits ≠ []) :
    ∃ mark next, mark.length = width ∧ cs = mark ++ digits ++ next ∧
      ∀ more, EndsLike next more →
        integerDigits (mark ++ digits ++ more) = (base, width, digits) := by
  rw [integerDigits_eq] at h
  split_ifs at h with hmarked
  · cases h
    match cs with
    | [] | [_] => simp [hexMarked] at hmarked
    | c :: d :: cs =>
      obtain ⟨next, hsplit, -, hrun⟩ := exists_run (fun _ => isWordChar_of_isDigit) cs
      refine ⟨[c, d], next, rfl, congrArg (c :: d :: ·) hsplit, fun more hmore => ?_⟩
      rw [hexMarked_cons_cons] at hmarked
      rw [List.append_assoc, integerDigits_eq, List.cons_append, List.cons_append,
        hexMarked_cons_cons, if_pos hmarked, List.drop_succ_cons, List.drop_succ_cons]
      simp [hrun more hmore]
  · cases h
    have hdigit (c : Char) (hc : c.isDigit = true) : isWordChar c = true := by
      simp [isWordChar, Char.isAlphanum, hc]
    obtain ⟨next, hsplit, -, hrun⟩ := exists_run hdigit cs
    refine ⟨[], next, rfl, hsplit, fun more hmore => ?_⟩
    have hunmarked : ¬hexMarked (cs.takeWhile Char.isDigit ++ more) = true := by
      rw [Bool.not_eq_true] at hmarked ⊢
      exact hexMarked_append hmore hne (hsplit ▸ hmarked)
    rw [List.nil_append, integerDigits_eq, if_neg hunmarked, hrun more hmore]

theorem integerSuffix_of_head? (h : cs.head?.any isWordChar = false) :
    integerSuffix cs = (1, 0) := by
  rw [integerSuffix.eq_def]
  split
  · exact absurd h (by simp [isWordChar])
  · exact absurd h (by simp [isWordChar])
  · rfl

/-- The suffix of an integer ends where it did, if no character of a word followed it. -/
private theorem exists_integerSuffix {factor width : Nat} (h : integerSuffix cs = (factor, width))
    (hfollowed : (cs.drop width).head?.any isWordChar = false) :
    ∃ suffix next, suffix.length = width ∧ cs = suffix ++ next ∧
      ∀ more, EndsLike next more → integerSuffix (suffix ++ more) = (factor, width) := by
  rw [integerSuffix.eq_def] at h
  split at h
  · cases h
    exact ⟨['K', 'B'], _, rfl, rfl, fun _ _ => rfl⟩
  · cases h
    exact ⟨['M', 'B'], _, rfl, rfl, fun _ _ => rfl⟩
  · cases h
    exact ⟨[], cs, rfl, rfl, fun more hmore =>
      integerSuffix_of_head? (hmore.any_head? (fun _ => not_isWordChar) hfollowed)⟩

/-- An integer is read when it has digits, no character of a word follows it and its value is in
range. -/
theorem readInteger_eq_ok {negative : Bool} {t : Token} {w : Nat} :
    readInteger negative cs = .ok (t, w) ↔
      let digits := integerDigits cs
      let rest := cs.drop (digits.2.1 + digits.2.2.length)
      let suffix := integerSuffix rest
      digits.2.2.isEmpty = false ∧ (rest.drop suffix.2).head?.any isWordChar = false ∧
        ∃ magnitude, integerValue? digits.1 suffix.1 digits.2.2 = some magnitude ∧
          t = .integer (if negative then -(magnitude : Int) else magnitude) ∧
          w = (if negative then 1 else 0) + digits.2.1 + digits.2.2.length + suffix.2 := by
  rw [readInteger]
  rcases integerDigits cs with ⟨base, markWidth, digits⟩
  dsimp only
  rcases integerSuffix (cs.drop (markWidth + digits.length)) with ⟨factor, suffixWidth⟩
  dsimp only
  generalize (cs.drop (markWidth + digits.length)).drop suffixWidth = rest
  cases digits.isEmpty with
  | true => simp
  | false =>
    rcases rest with _ | ⟨c, rest⟩
    · cases integerValue? base factor digits <;> simp [eq_comm]
    · cases hc : isWordChar c with
      | true => simp [hc]
      | false => cases integerValue? base factor digits <;> simp [hc, eq_comm]

private theorem readInteger_settled (negative : Bool) :
    Settled (readInteger negative) (if negative then 1 else 0) := by
  intro cs t w h
  obtain ⟨hempty, hfollowed, magnitude, hvalue, rfl, rfl⟩ := readInteger_eq_ok.mp h
  rcases hdigits : integerDigits cs with ⟨base, markWidth, digits⟩
  rw [hdigits] at hempty hfollowed hvalue
  dsimp only at hempty hfollowed hvalue ⊢
  obtain ⟨mark, rest, hmark, hsplit, hrun⟩ :=
    exists_integerDigits hdigits (List.isEmpty_eq_false_iff.mp hempty)
  have hdrop (more : List Char) :
      (mark ++ digits ++ more).drop (markWidth + digits.length) = more := by
    rw [← hmark, ← List.length_append, List.drop_left]
  rw [hsplit, hdrop] at hfollowed hvalue
  rw [hsplit, hdrop]
  rcases hsuffix : integerSuffix rest with ⟨factor, suffixWidth⟩
  rw [hsuffix] at hfollowed hvalue
  dsimp only at hfollowed hvalue ⊢
  obtain ⟨suffix, next, hwidth, rfl, hend⟩ := exists_integerSuffix hsuffix hfollowed
  rw [← hwidth, List.drop_left] at hfollowed
  refine ⟨mark ++ digits ++ suffix, next, by simp, ?_, fun more hmore => readInteger_eq_ok.mpr ?_⟩
  · simp only [List.length_append]
    omega
  · dsimp only
    rw [List.append_assoc _ suffix, hrun _ (hmore.append suffix)]
    dsimp only
    rw [hdrop, hend more hmore]
    dsimp only
    rw [← hwidth, List.drop_left]
    exact ⟨hempty, hmore.any_head? (fun _ => not_isWordChar) hfollowed, magnitude, hvalue, rfl,
      rfl⟩

/-- An integer has digits. -/
private theorem lt_of_readInteger {negative : Bool} {t : Token} {w : Nat}
    (h : readInteger negative cs = .ok (t, w)) : (if negative then 1 else 0) < w := by
  obtain ⟨hdigits, -, magnitude, -, -, rfl⟩ := readInteger_eq_ok.mp h
  have hlength : 0 < (integerDigits cs).2.2.length := by
    rw [List.length_pos_iff]
    exact List.isEmpty_eq_false_iff.mp hdigits
  omega

/-! ### Any token -/

private theorem readPunctuation_settled : Settled readPunctuation 0 := by
  intro cs t w h
  rw [readPunctuation.eq_def] at h
  split at h
  all_goals cases h
  -- a mark of one character begins a longer one if an equals sign follows
  all_goals first
    | exact ⟨[_], _, rfl, rfl, fun _ _ => rfl⟩
    | exact ⟨[_, _], _, rfl, rfl, fun _ _ => rfl⟩
    | (rename_i rest hne
       refine ⟨[_], rest, rfl, rfl, fun more hmore => ?_⟩
       cases more with
       | nil => rfl
       | cons d more =>
         have hd : d ≠ '=' := by
           rintro rfl
           rcases hmore '=' rfl with hd | hd | hd
           · obtain ⟨rest, rfl⟩ := List.head?_eq_some_iff.mp hd
             exact hne rest rfl
           · exact absurd hd (by decide)
           · exact absurd hd (by decide)
         simp [readPunctuation, hd])

private theorem pos_of_readPunctuation {t : Token} {w : Nat} (h : readPunctuation cs = .ok (t, w)) :
    0 < w := by
  rw [readPunctuation.eq_def] at h
  split at h <;> cases h <;> exact Nat.succ_pos _

/-- The first character of what is taken, given apart. -/
theorem Takes.tail {read : List Char → Reading} {c : Char} {t : Token} {w : Nat}
    (h : Takes read 0 (c :: cs) t w) (hw : 0 < w) :
    Takes (fun cs => read (c :: cs)) 1 cs t w := by
  obtain ⟨taken, next, hsplit, rfl, hread⟩ := h
  cases taken with
  | nil => exact absurd hw (Nat.lt_irrefl 0)
  | cons d taken =>
    obtain ⟨rfl, rfl⟩ := List.cons.inj hsplit
    refine ⟨taken, next, rfl, ?_, hread⟩
    rw [List.length_cons]
    omega

/-- A reader that does the same with what is taken, whatever follows. -/
theorem Takes.congr {read read' : List Char → Reading} {before w : Nat} {t : Token}
    (h : Takes read before cs t w)
    (heq : ∀ taken next more, cs = taken ++ next → w = before + taken.length →
      read' (taken ++ more) = read (taken ++ more)) : Takes read' before cs t w := by
  obtain ⟨taken, next, hsplit, hw, hread⟩ := h
  refine ⟨taken, next, hsplit, hw, fun more hmore => ?_⟩
  rw [heq taken next more hsplit hw, hread more hmore]

/-- **Tokens are settled.** A token is taken from the first characters of a text, and what follows
these may be something else. -/
theorem read_settled (due : Bool) (c : Char) : Settled (read due c) 1 := by
  intro cs t w h
  rw [read] at h
  split_ifs at h with hopens hdollar hnumber hdigit hminus hword
  · refine (readLiteral_settled c h).congr fun _ _ _ _ _ => ?_
    rw [read, if_pos hopens]
  · refine (readStringName_settled h).congr fun _ _ _ _ _ => ?_
    rw [read, if_neg hopens, if_pos hdollar]
  · refine (readStringCount_settled h).congr fun _ _ _ _ _ => ?_
    rw [read, if_neg hopens, if_neg hdollar, if_pos hnumber]
  · refine ((readInteger_settled false h).tail (lt_of_readInteger h)).congr fun _ _ _ _ _ => ?_
    rw [read, if_neg hopens, if_neg hdollar, if_neg hnumber, if_pos hdigit]
  · have hlt := lt_of_readInteger h
    rw [if_pos rfl] at hlt
    refine (readInteger_settled true h).congr fun taken next more hsplit hw => ?_
    -- the digit after the sign is among what is taken
    have hsame : (taken ++ more).head? = cs.head? := by
      cases taken with
      | nil =>
        rw [if_pos rfl, List.length_nil] at hw
        omega
      | cons d taken =>
        rw [hsplit]
        rfl
    rw [read, hsame, if_neg hopens, if_neg hdollar, if_neg hnumber, if_neg hdigit, if_pos hminus]
  · have hc : c ≠ '-' := by
      rintro rfl
      exact absurd hword (by decide)
    refine ((readWord_settled h).tail (pos_of_readWord hword h)).congr fun _ _ _ _ _ => ?_
    rw [read, if_neg hopens, if_neg hdollar, if_neg hnumber, if_neg hdigit, if_neg (by simp [hc]),
      if_pos hword]
  · have hc : c ≠ '-' := by
      rintro rfl
      exact nomatch h
    refine ((readPunctuation_settled h).tail (pos_of_readPunctuation h)).congr fun _ _ _ _ _ => ?_
    rw [read, if_neg hopens, if_neg hdollar, if_neg hnumber, if_neg hdigit, if_neg (by simp [hc]),
      if_neg hword]

/-! ### Integers in range -/

/-- An integer that a token writes fits sixty-four bits with a sign. -/
def InRange : Token → Prop
  | .integer n => -(integerMax : Int) - 1 ≤ n ∧ n ≤ integerMax
  | _ => True

private theorem inRange_of_readInteger {negative : Bool} {t : Token} {w : Nat}
    (h : readInteger negative cs = .ok (t, w)) : t.InRange := by
  obtain ⟨-, -, magnitude, hvalue, rfl, -⟩ := readInteger_eq_ok.mp h
  have hmax : magnitude ≤ integerMax := by
    rw [integerValue?] at hvalue
    dsimp only at hvalue
    split_ifs at hvalue with hlength hmax
    exact Option.some.inj hvalue ▸ Nat.not_lt.mp hmax
  split_ifs <;> exact ⟨by omega, by omega⟩

theorem inRange_of_read {due : Bool} {c : Char} {t : Token} {w : Nat}
    (h : read due c cs = .ok (t, w)) : t.InRange := by
  rw [read] at h
  split_ifs at h
  · rw [readLiteral] at h
    split_ifs at h
    all_goals
      obtain ⟨_, -, h⟩ := Outcome.bind_eq_ok.mp h
      cases h
      trivial
  · obtain ⟨_, -, h⟩ := Outcome.bind_eq_ok.mp h
    split at h <;> cases h <;> trivial
  · rw [readStringCount] at h
    split at h
    · exact nomatch h
    · obtain ⟨_, -, h⟩ := Outcome.bind_eq_ok.mp h
      cases h
      trivial
  · exact inRange_of_readInteger h
  · exact inRange_of_readInteger h
  · obtain ⟨_, -, h⟩ := Outcome.bind_eq_ok.mp h
    dsimp only at h
    split at h <;> cases h <;> trivial
  · rw [readPunctuation.eq_def] at h
    split at h <;> cases h <;> trivial

end Token

end PackageScan
