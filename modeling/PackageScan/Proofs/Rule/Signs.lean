import PackageScan.Proofs.Rule.Limits
import PackageScan.Proofs.Rule.Numerals
import PackageScan.Proofs.Rule.TextParts
import PackageScan.Proofs.Rule.Tiling

/-!
# Where a minus stands

No gap ends in a minus (`Gap.IsGap.unsigned`), and no token does (`Token.closes_of_read`), although
there may be one inside a comment or a literal. So the text before a token does not end in a minus
(`Lexer.Reaches.exists_unsigned`), and one that stands directly before digits is part of the token.
-/

namespace PackageScan

/-- The characters do not end in a minus. -/
def Unsigned (cs : List Char) : Prop := cs.getLast? ≠ some '-'

namespace Unsigned

variable {cs ds : List Char} {c : Char}

theorem nil : Unsigned [] := nofun

theorem append (h : Unsigned cs) (h' : Unsigned ds) : Unsigned (cs ++ ds) := by
  rw [Unsigned, List.getLast?_append]
  cases hlast : ds.getLast? with
  | none => exact h
  | some c =>
    rw [Unsigned, hlast] at h'
    exact h'

private theorem concat (cs : List Char) (hc : c ≠ '-') : Unsigned (cs ++ [c]) := by
  rw [Unsigned, List.getLast?_concat]
  exact fun h => hc (Option.some.inj h)

end Unsigned

/-- A gap before a token ends in white space or in the slash that closes a comment. -/
theorem Gap.IsGap.unsigned {gap : List Char} (h : IsGap false gap) : Unsigned gap := by
  induction h with
  | nil => exact .nil
  | @blank c cs hblank _ ih =>
    have hc : c ≠ '-' := by
      rintro rfl
      exact absurd hblank (by decide)
    exact (Unsigned.concat [] hc).append ih
  | @line body cs _ _ ih =>
    have hline : Unsigned ('/' :: '/' :: body ++ ['\n']) := .concat _ (by decide)
    simpa using hline.append ih
  | lastLine hlast => exact absurd hlast Bool.false_ne_true
  | @block body cs _ _ ih =>
    have hblock : Unsigned ('/' :: '*' :: body ++ ['*'] ++ ['/']) := .concat _ (by decide)
    simpa using hblock.append ih

namespace Token

variable {due : Bool} {c : Char} {cs rest next : List Char} {t : Token} {before w : Nat}

/-! ### The end of a token -/

/-- `EndsIn d before cs w`: with `before` characters counted already, as many are taken from the
characters as make `w`, and the last one of these is `d`. -/
def EndsIn (d : Char) (before : Nat) (cs : List Char) (w : Nat) : Prop :=
  ∃ taken next, cs = taken ++ d :: next ∧ w = before + taken.length + 1

/-- A unit before what is taken. -/
theorem EndsIn.prepend {d : Char} (unit : List Char)
    (h : EndsIn d (before + unit.length) rest w) : EndsIn d before (unit ++ rest) w := by
  obtain ⟨taken, next, rfl, rfl⟩ := h
  refine ⟨unit ++ taken, next, (List.append_assoc ..).symm, ?_⟩
  rw [List.length_append, Nat.add_assoc before]

/-- The last character that is taken is no minus. -/
def Closes (before : Nat) (cs : List Char) (w : Nat) : Prop :=
  ∃ d, d ≠ '-' ∧ EndsIn d before cs w

theorem Closes.prepend (unit : List Char) (h : Closes (before + unit.length) rest w) :
    Closes before (unit ++ rest) w := by
  obtain ⟨d, hd, hends⟩ := h
  exact ⟨d, hd, hends.prepend unit⟩

theorem Closes.unsigned (h : Closes 0 cs w) : Unsigned (cs.take w) := by
  obtain ⟨d, hd, taken, next, rfl, rfl⟩ := h
  have htake : (taken ++ d :: next).take (0 + taken.length + 1) = taken ++ [d] := by
    rw [Nat.zero_add, List.take_length_add_append]
    rfl
  rw [htake]
  exact .concat taken hd

/-- A character and a run of characters of words behind it. -/
theorem closes_run (before : Nat) (hc : c ≠ '-') {run : List Char}
    (hrun : ∀ d ∈ run, isWordChar d = true) (next : List Char) :
    Closes before (c :: (run ++ next)) (before + run.length + 1) := by
  rcases List.eq_nil_or_concat run with rfl | ⟨run, d, rfl⟩
  · exact ⟨c, hc, [], next, rfl, rfl⟩
  · have hd : d ≠ '-' := by
      rintro rfl
      exact absurd (hrun '-' (by simp)) (by decide)
    exact ⟨d, hd, c :: run, next, by simp, by simp⟩

/-- A character and all that follow it and belong to words, or only some kind of them. -/
private theorem closes_takeWhile (before : Nat) (hc : c ≠ '-') {p : Char → Bool}
    (hp : ∀ d, p d = true → isWordChar d = true) (rest : List Char) :
    Closes before (c :: rest) (before + (rest.takeWhile p).length + 1) := by
  have hword : ∀ d ∈ rest.takeWhile p, isWordChar d = true :=
    fun d hd => hp d (List.mem_takeWhile_imp hd)
  have hrun := closes_run before hc hword (rest.dropWhile p)
  rwa [List.takeWhile_append_dropWhile] at hrun

/-! ### Literals -/

private theorem endsIn_of_readText {bytes : List UInt8} (h : readText [] 0 1 cs = .ok (bytes, w)) :
    EndsIn '"' 1 cs w := by
  obtain ⟨parts, rest, rfl, -, -, -, rfl⟩ := inTextParts_of_readText h (Nat.zero_le _)
  exact ⟨_, rest, rfl, rfl⟩

private theorem endsIn_of_readHex {body a : List Char} {size width : Nat}
    (h : readHex body size width cs = .ok (a, w)) : EndsIn '\x7d' width cs w := by
  fun_induction readHex body size width cs with
  | case2 body size width rest =>
    cases h
    exact ⟨[], rest, rfl, rfl⟩
  | case4 body size width c rest hclose size' hlimit ih => exact (ih h).prepend [c]
  | _ => cases h

private theorem endsIn_of_readRegex {pattern a : List Char} {size width : Nat}
    (h : readRegex pattern size width cs = .ok (a, w)) : EndsIn '/' width cs w := by
  fun_induction readRegex pattern size width cs with
  | case4 pattern size width rest hlimit hline ih => exact (ih h).prepend ['\\', '/']
  | case6 pattern size width c rest hline hslash size' hlimit ih =>
    exact (ih h).prepend ['\\', c]
  | case7 pattern size width rest =>
    cases h
    exact ⟨[], rest, rfl, rfl⟩
  | case10 pattern size width c rest hx hslash hstop size' hlimit ih => exact (ih h).prepend [c]
  | _ => cases h

private theorem closes_of_readLiteral (h : readLiteral c rest = .ok (t, w)) : Closes 1 rest w := by
  rw [readLiteral] at h
  split_ifs at h
  · obtain ⟨⟨bytes, width⟩, hread, h⟩ := Outcome.bind_eq_ok.mp h
    cases h
    exact ⟨'"', by decide, endsIn_of_readText hread⟩
  · obtain ⟨⟨pattern, width⟩, hread, h⟩ := Outcome.bind_eq_ok.mp h
    cases h
    -- flags may follow the slash
    obtain ⟨taken, next, rfl, rfl⟩ := endsIn_of_readRegex hread
    have hdrop : (taken ++ '/' :: next).drop (1 + taken.length + 1 - 1) = next := by
      rw [Nat.add_sub_cancel, Nat.add_comm, ← List.drop_drop, List.drop_left]
      rfl
    rw [hdrop]
    have hflags : ∀ d, (d == 'i' || d == 's') = true → isWordChar d = true := by
      intro d hd
      rcases Bool.or_eq_true_iff.mp hd with hi | hs
      · rw [beq_iff_eq.mp hi]
        rfl
      · rw [beq_iff_eq.mp hs]
        rfl
    have hrun := closes_takeWhile (1 + taken.length) (show '/' ≠ '-' by decide) hflags next
    rw [Nat.add_right_comm] at hrun
    exact hrun.prepend taken
  · obtain ⟨⟨body, width⟩, hread, h⟩ := Outcome.bind_eq_ok.mp h
    cases h
    exact ⟨'\x7d', by decide, endsIn_of_readHex hread⟩

/-! ### Words, names and integers -/

private theorem closes_wordOf (hc : c ≠ '-') (rest : List Char) :
    Closes 0 (c :: rest) ((wordOf rest).length + 1) := by
  have hword := closes_takeWhile 0 hc (fun _ h => h) rest
  rwa [Nat.zero_add] at hword

private theorem closes_of_readWord (hc : (c.isAlpha || c = '_') = true)
    (h : readWord (c :: rest) = .ok (t, w)) : Closes 0 (c :: rest) w := by
  have hword := isWordChar_of_start hc
  have hne : c ≠ '-' := by
    rintro rfl
    exact absurd hword (by decide)
  have hname : wordOf (c :: rest) = c :: wordOf rest := List.takeWhile_cons_of_pos hword
  have hrun : Closes 0 (c :: rest) (wordOf (c :: rest)).length := by
    rw [hname]
    exact closes_wordOf hne rest
  obtain ⟨_, -, h⟩ := Outcome.bind_eq_ok.mp h
  dsimp only at h
  split at h <;> cases h <;> exact hrun

private theorem closes_of_readStringName (h : readStringName rest = .ok (t, w)) :
    Closes 0 ('$' :: rest) w := by
  obtain ⟨next, hsplit, hword⟩ := exists_wordOf rest
  obtain ⟨_, hlength, -⟩ := Outcome.bind_eq_ok.mp h
  have hown : EndsLike next next := fun c hc => Or.inl hc
  rw [hsplit, readStringName_append (hword next hown) hlength] at h
  split_ifs at h with hstar
  · cases h
    obtain ⟨more, rfl⟩ : ∃ more, next = '*' :: more := List.head?_eq_some_iff.mp hstar
    refine ⟨'*', by decide, '$' :: wordOf rest, more, congrArg ('$' :: ·) hsplit, ?_⟩
    rw [List.length_cons, Nat.zero_add]
  · cases h
    exact closes_wordOf (by decide) rest

private theorem closes_of_readStringCount (h : readStringCount rest = .ok (t, w)) :
    Closes 0 ('#' :: rest) w := by
  rw [readStringCount] at h
  split at h
  · cases h
  · obtain ⟨_, -, h⟩ := Outcome.bind_eq_ok.mp h
    cases h
    exact closes_wordOf (by decide) rest

private theorem closes_of_readInteger {negative : Bool} (h : readInteger negative cs = .ok (t, w)) :
    Closes 0 (Numeral.signText negative ++ cs) w := by
  rcases exists_numeral_or_malformed negative cs with ⟨n, after, rfl, hafter⟩ | ⟨_, _, -, herror⟩
  · rw [readInteger_text_append negative n hafter] at h
    split_ifs at h
    cases h
    obtain ⟨c, run, htext⟩ := List.exists_cons_of_ne_nil n.text_ne_nil
    have hword := n.isWordChar_of_mem_text
    rw [htext] at hword
    have hc : c ≠ '-' := by
      rintro rfl
      exact absurd (hword '-' List.mem_cons_self) (by decide)
    rw [htext]
    refine Closes.prepend _ ?_
    rw [Nat.zero_add]
    exact closes_run _ hc (fun d hd => hword d (List.mem_cons_of_mem c hd)) after
  · rw [herror] at h
    cases h

/-! ### Any token -/

private theorem closes_of_readPunctuation (h : readPunctuation cs = .ok (t, w)) :
    Closes 0 cs w := by
  rw [readPunctuation.eq_def] at h
  split at h
  all_goals cases h
  all_goals first
    | exact ⟨_, by decide, [], _, rfl, rfl⟩
    | exact ⟨_, by decide, [_], _, rfl, rfl⟩

/-- **No token ends in a minus.** -/
theorem closes_of_read (h : read due c rest = .ok (t, w)) : Closes 0 (c :: rest) w := by
  rw [read] at h
  split_ifs at h with hopens hname hcount hdigit hminus hword
  · exact (closes_of_readLiteral h).prepend [c]
  · rw [hname]
    exact closes_of_readStringName h
  · rw [hcount]
    exact closes_of_readStringCount h
  · exact closes_of_readInteger h
  · obtain ⟨hc, -⟩ := Bool.and_eq_true_iff.mp hminus
    rw [of_decide_eq_true hc]
    exact closes_of_readInteger h
  · exact closes_of_readWord hword h
  · exact closes_of_readPunctuation h

end Token

namespace Lexer

variable {seen ts : List Token} {cs rest : List Char}

/-- **No text before a token ends in a minus.** -/
theorem Reaches.exists_unsigned (h : Reaches seen cs ts rest) :
    ∃ before, cs = before ++ rest ∧ Unsigned before := by
  induction h with
  | here hskips =>
    obtain ⟨gap, hcs, hgap⟩ := hskips.exists_goesOver
    exact ⟨gap, hcs, Gap.IsGap.unsigned hgap⟩
  | @token seen cs c rest t w ts left hskips hread _ ih =>
    obtain ⟨gap, rfl, hgap⟩ := hskips.exists_goesOver
    obtain ⟨before, hdrop, hbefore⟩ := ih
    have htoken := (Token.closes_of_read hread).unsigned
    refine ⟨gap ++ ((c :: rest).take w ++ before), ?_,
      (Gap.IsGap.unsigned hgap).append (htoken.append hbefore)⟩
    rw [List.append_assoc, List.append_assoc, ← hdrop, List.take_append_drop]

end Lexer

end PackageScan
