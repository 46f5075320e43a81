import PackageScan.Proofs.Rule.Writing
import PackageScan.Proofs.Text.Digits

/-!
# Tokens are read again as they are written

A token in canonical form with a space or nothing behind it is read as that very token
(`Token.isReread`), provided that it can be read at all and stands where it stood. There is one
lemma per form: a run of characters stops at the space, a literal at its closing mark, and no mark
of one character goes on.

So tokens that have been read from a source, written one after another with single spaces, lex as
they did before (`Lexer.lexes_canonical`). The tokens before a token are the same in both texts, and
with them whether the value of a string is due.
-/

namespace PackageScan

namespace Token

variable {due : Bool} {c : Char} {rest : List Char} {t : Token} {name : String}

/-- Nothing follows, or a space. -/
def Ends (rest : List Char) : Prop := ∀ c, rest.head? = some c → c = ' '

theorem Ends.any_head? (h : Ends rest) {p : Char → Bool} (hp : p ' ' = false) :
    rest.head?.any p = false := by
  cases rest with
  | nil => rfl
  | cons c rest =>
    rw [h c rfl]
    exact hp

/-- `IsReread due t rest`: before the rest, the written token is no part of a gap and is read as the
token again. -/
def IsReread (due : Bool) (t : Token) (rest : List Char) : Prop :=
  ∃ c cs, t.write = c :: cs ∧ Gap.Skips .blank (c :: (cs ++ rest)) (c :: (cs ++ rest)) ∧
    read due c (cs ++ rest) = .ok (t, t.write.length)

private theorem skips_of_ne_slash {cs : List Char} (hblank : Text.isBlank c = false)
    (hslash : c ≠ '/') :
    Gap.Skips .blank (c :: cs) (c :: cs) :=
  .stop hblank (fun h => hslash h.1) fun h => hslash h.1

/-! ### Words and names -/

private theorem IsName.wordOf_append (h : IsName name) (hrest : rest.head?.any isWordChar = false) :
    wordOf (name.toList ++ rest) = name.toList :=
  Text.takeWhile_append_of_stop h.chars hrest

private theorem IsName.checkLength_eq (h : IsName name) : checkLength name.toList = .ok () :=
  if_neg (Nat.not_lt.mpr h.length_le)

private theorem IsName.readWord_append (h : IsName name) (hend : Ends rest) :
    readWord (name.toList ++ rest) =
      match Keyword.ofWord? name with
      | some k => .ok (.keyword k, name.toList.length)
      | none => .ok (.identifier name, name.toList.length) := by
  rw [readWord, h.wordOf_append (hend.any_head? rfl), h.checkLength_eq, String.ofList_toList]
  rfl

/-- Words begin with characters that begin nothing else. -/
private theorem range_of_start (h : (c.isAlpha || c = '_') = true) :
    65 ≤ c.toNat ∧ c.toNat ≤ 122 := by
  rcases Bool.or_eq_true_iff.mp h with halpha | hline
  · rcases Bool.or_eq_true_iff.mp halpha with hupper | hlower
    · obtain ⟨hlow, hhigh⟩ := of_decide_eq_true hupper
      exact ⟨hlow, Nat.le_trans hhigh (by decide)⟩
    · obtain ⟨hlow, hhigh⟩ := Bool.and_eq_true_iff.mp hlower
      exact ⟨Nat.le_trans (by decide) (of_decide_eq_true hlow), of_decide_eq_true hhigh⟩
  · rw [of_decide_eq_true hline]
    decide

private theorem read_of_start (h : (c.isAlpha || c = '_') = true) (rest : List Char) :
    read due c rest = readWord (c :: rest) := by
  obtain ⟨hlow, hhigh⟩ := range_of_start h
  have hne (d : Char) (hd : d.toNat < 65 ∨ 122 < d.toNat) : c ≠ d := by
    rintro rfl
    omega
  have hopens : ¬opensLiteral due c = true := by
    simp [opensLiteral, hne '"' (by decide), hne '\x7b' (by decide), hne '/' (by decide)]
  have hdigit : ¬c.isDigit = true := by
    intro hdigit
    simp only [Char.isDigit, Bool.and_eq_true, decide_eq_true_eq] at hdigit
    have hnine : c.toNat ≤ 57 := hdigit.2
    omega
  have hminus : ¬(c = '-' && rest.head?.any Char.isDigit) = true := by
    simp [hne '-' (by decide)]
  rw [read, if_neg hopens, if_neg (hne '$' (by decide)), if_neg (hne '#' (by decide)),
    if_neg hdigit, if_neg hminus, if_pos h]

/-- A token that is written as a word is read again if that word is read as the token. -/
private theorem isReread_of_word {more : List Char} (hwrite : t.write = c :: more)
    (hstart : (c.isAlpha || c = '_') = true)
    (hread : readWord (c :: more ++ rest) = .ok (t, (c :: more).length)) :
    IsReread due t rest := by
  obtain ⟨hlow, hhigh⟩ := range_of_start hstart
  have hblank : Text.isBlank c = false := by
    simp only [Text.isBlank, Bool.or_eq_false_iff, Bool.and_eq_false_iff, decide_eq_false_iff_not,
      beq_eq_false_iff_ne]
    omega
  have hslash : c ≠ '/' := by
    rintro rfl
    exact absurd hlow (by decide)
  refine ⟨c, more, hwrite, skips_of_ne_slash hblank hslash, ?_⟩
  rw [read_of_start hstart, hwrite]
  exact hread

private theorem isReread_keyword (k : Keyword) (hend : Ends rest) :
    IsReread due (.keyword k) rest := by
  have hchars : k.word.toList.all isWordChar = true := by cases k <;> decide
  have hname : IsName k.word := ⟨List.all_eq_true.mp hchars, by cases k <;> decide⟩
  have hstart : k.word.toList.head?.any (fun c => c.isAlpha || c = '_') = true := by
    cases k <;> decide
  have hword : Keyword.ofWord? k.word = some k := by cases k <;> rfl
  obtain ⟨c, hfirst, hc⟩ := Option.any_eq_true _ _ |>.mp hstart
  obtain ⟨more, hcons⟩ := List.head?_eq_some_iff.mp hfirst
  have hread := hname.readWord_append hend
  rw [hword, hcons] at hread
  exact isReread_of_word hcons hc hread

private theorem isReread_identifier (h : (identifier name).Readable due) (hend : Ends rest) :
    IsReread due (.identifier name) rest := by
  obtain ⟨hname, hword, c, more, hchars, hc⟩ := h
  have hread := hname.readWord_append hend
  rw [hword, hchars] at hread
  exact isReread_of_word hchars hc hread

private theorem isReread_stringName (h : IsName name) (hend : Ends rest) :
    IsReread due (.stringName name) rest := by
  have hwrite : write (.stringName name) = '$' :: name.toList := by simp [write, display]
  have hopens : ¬opensLiteral due '$' = true := by cases due <;> decide
  refine ⟨'$', name.toList, hwrite, skips_of_ne_slash (by decide) (by decide), ?_⟩
  rw [read, if_neg hopens, if_pos rfl, readStringName, h.wordOf_append (hend.any_head? rfl),
    h.checkLength_eq, hwrite, List.drop_left, String.ofList_toList]
  cases rest with
  | nil => rfl
  | cons d rest =>
    rw [hend d rfl]
    rfl

private theorem isReread_stringPrefix (h : IsName name) :
    IsReread due (.stringPrefix name) rest := by
  have hwrite : write (.stringPrefix name) = '$' :: (name.toList ++ ['*']) := by
    simp [write, display]
  have hopens : ¬opensLiteral due '$' = true := by cases due <;> decide
  refine ⟨'$', name.toList ++ ['*'], hwrite, skips_of_ne_slash (by decide) (by decide), ?_⟩
  rw [List.append_assoc, List.singleton_append, read, if_neg hopens, if_pos rfl, readStringName,
    h.wordOf_append rfl, h.checkLength_eq, hwrite, List.drop_left, String.ofList_toList,
    List.length_cons, List.length_append]
  rfl

private theorem isReread_stringCount (h : IsName name) (hne : name.toList ≠ []) (hend : Ends rest) :
    IsReread due (.stringCount name) rest := by
  have hwrite : write (.stringCount name) = '#' :: name.toList := by simp [write, display]
  have hopens : ¬opensLiteral due '#' = true := by cases due <;> decide
  have hempty : ¬name.toList.isEmpty = true := fun hempty => hne (List.isEmpty_iff.mp hempty)
  refine ⟨'#', name.toList, hwrite, skips_of_ne_slash (by decide) (by decide), ?_⟩
  rw [read, if_neg hopens, if_neg (by decide), if_pos rfl, readStringCount,
    h.wordOf_append (hend.any_head? rfl), hwrite]
  dsimp only
  rw [if_neg hempty, h.checkLength_eq, String.ofList_toList]
  rfl

/-! ### Quoted texts -/

/-- Two digits for each byte. -/
def digitParts (bytes : List UInt8) : List TextPart :=
  bytes.map fun b => .byte (Hexadecimal.lower (b.toNat / 16)) (Hexadecimal.lower (b.toNat % 16))

private theorem flatMap_source_digitParts (bytes : List UInt8) :
    (digitParts bytes).flatMap TextPart.source = bytes.flatMap writeByte := by
  rw [digitParts, List.flatMap_map]
  rfl

private theorem digits_lower (b : UInt8) :
    Hexadecimal.value? (Hexadecimal.lower (b.toNat / 16)) = some (b.toNat / 16) ∧
      Hexadecimal.value? (Hexadecimal.lower (b.toNat % 16)) = some (b.toNat % 16) := by
  have hb : b.toNat < 256 := b.toNat_lt
  exact ⟨Hexadecimal.value?_lower (by omega), Hexadecimal.value?_lower (by omega)⟩

private theorem flatMap_bytes_digitParts (bytes : List UInt8) :
    (digitParts bytes).flatMap TextPart.bytes = bytes := by
  induction bytes with
  | nil => rfl
  | cons b bytes ih =>
    obtain ⟨hhigh, hlow⟩ := digits_lower b
    rw [digitParts, List.map_cons, List.flatMap_cons, ← digitParts, ih, TextPart.bytes,
      TextPart.bytes.digit, TextPart.bytes.digit, hhigh, hlow, Option.getD_some, Option.getD_some,
      Nat.div_add_mod', Nat.toUInt8_eq, UInt8.ofNat_toNat, List.singleton_append]

private theorem isProper_digitParts {bytes : List UInt8} : ∀ p ∈ digitParts bytes, p.IsProper := by
  intro p hp
  obtain ⟨b, -, rfl⟩ := List.mem_map.mp hp
  obtain ⟨hhigh, hlow⟩ := digits_lower b
  exact ⟨Option.isSome_of_eq_some hhigh, Option.isSome_of_eq_some hlow⟩

private theorem isReread_text {bytes : List UInt8} (h : bytes.length ≤ Limits.literalSize) :
    IsReread due (.text bytes) rest := by
  have hlength : (write (.text bytes)).length = 1 + (bytes.flatMap writeByte).length + 1 := by
    rw [write, List.length_cons, List.length_append, List.length_singleton]
    omega
  have hparts : InTextParts [] 0 1 (bytes.flatMap writeByte ++ '"' :: rest) bytes
      (write (.text bytes)).length := by
    rw [hlength, ← flatMap_source_digitParts]
    refine ⟨digitParts bytes, rest, rfl, isProper_digitParts, ?_, ?_, rfl⟩
    · rw [flatMap_bytes_digitParts]
      rfl
    · rwa [flatMap_bytes_digitParts, Nat.zero_add]
  refine ⟨'"', bytes.flatMap writeByte ++ ['"'], rfl, skips_of_ne_slash (by decide) (by decide), ?_⟩
  rw [List.append_assoc, List.singleton_append]
  exact read_eq_text_iff.mpr ⟨rfl, hparts⟩

/-! ### Hex strings -/

private theorem readHex_append {body acc : List Char} {size width : Nat} (hbody : '\x7d' ∉ body)
    (hsize : size + byteSize body ≤ Limits.literalSize) :
    readHex acc size width (body ++ '\x7d' :: rest) =
      .ok (acc.reverse ++ body, width + body.length + 1) := by
  induction body generalizing acc size width with
  | nil => simp [readHex]
  | cons c body ih =>
    have hc : c ≠ '\x7d' := fun hc => hbody (hc ▸ List.mem_cons_self)
    have hrest : '\x7d' ∉ body := fun hmem => hbody (List.mem_cons_of_mem c hmem)
    rw [byteSize, List.map_cons, List.sum_cons, ← byteSize] at hsize
    rw [List.cons_append, readHex, if_neg hc]
    dsimp only
    rw [if_neg (by omega), ih hrest (by omega), List.reverse_cons, List.append_assoc,
      List.singleton_append, List.length_cons]
    congr 3
    omega

private theorem isReread_hex {body : String} (h : (hex body).Readable due) :
    IsReread due (.hex body) rest := by
  obtain ⟨rfl, hbody, hsize⟩ := h
  have hwrite : write (.hex body) = '\x7b' :: (body.toList ++ ['\x7d']) := by simp [write, display]
  have hlength : (write (.hex body)).length = 1 + body.toList.length + 1 := by
    rw [hwrite, List.length_cons, List.length_append, List.length_singleton]
    omega
  have hread : readHex [] 0 1 (body.toList ++ '\x7d' :: rest) =
      .ok (body.toList, (write (.hex body)).length) := by
    rw [readHex_append hbody (by omega), hlength]
    rfl
  refine ⟨'\x7b', body.toList ++ ['\x7d'], hwrite, skips_of_ne_slash (by decide) (by decide), ?_⟩
  rw [List.append_assoc, List.singleton_append, read, if_pos (by decide), readLiteral,
    if_neg (by decide), if_neg (by decide)]
  refine Outcome.bind_eq_ok.mpr ⟨_, hread, ?_⟩
  dsimp only
  rw [String.ofList_toList]

/-! ### Regular expressions -/

/-- A part of a pattern is read as what it stands for. -/
private theorem readRegex_source_append {p : RegexPart} (h : p.IsProper) {acc : List Char}
    {size width : Nat} (hsize : size + p.size ≤ Limits.literalSize) :
    readRegex acc size width (p.source ++ rest) =
      readRegex (p.text.reverse ++ acc) (size + p.size) (width + p.source.length) rest := by
  have hlimit : ¬Limits.literalSize < size + p.size := Nat.not_lt.mpr hsize
  cases p with
  | plain c =>
    obtain ⟨hslash, hline, hback⟩ := h
    exact readRegex_cons hslash (not_or.mpr ⟨hline, hback⟩) hlimit
  | escaped c =>
    obtain ⟨hslash, hline⟩ := h
    rw [RegexPart.size, ← Nat.add_assoc] at hlimit ⊢
    simp [RegexPart.source, RegexPart.text, readRegex, hslash, hline, hlimit]
  | slash =>
    rw [RegexPart.size] at hlimit ⊢
    simp [RegexPart.source, RegexPart.text, readRegex, hlimit]

private theorem readRegex_flatMap_source {parts : List RegexPart} {acc : List Char}
    {size width : Nat}
    (hproper : ∀ p ∈ parts, p.IsProper)
    (hsize : size + (parts.map RegexPart.size).sum ≤ Limits.literalSize) :
    readRegex acc size width (parts.flatMap RegexPart.source ++ '/' :: rest) =
      .ok (acc.reverse ++ parts.flatMap RegexPart.text,
        width + (parts.flatMap RegexPart.source).length + 1) := by
  induction parts generalizing acc size width with
  | nil => simp [readRegex]
  | cons p parts ih =>
    obtain ⟨hp, hproper⟩ := List.forall_mem_cons.mp hproper
    rw [List.map_cons, List.sum_cons] at hsize
    rw [List.flatMap_cons, List.append_assoc, readRegex_source_append hp (by omega),
      ih hproper (by omega), List.flatMap_cons, List.length_append, List.reverse_append,
      List.reverse_reverse, List.append_assoc]
    congr 3
    omega

private theorem regexFlags_writeFlags (literal : RegexLiteral) (hend : Ends rest) :
    regexFlags (writeFlags literal ++ rest) = writeFlags literal := by
  refine Text.takeWhile_append_of_stop (fun c hc => ?_) (hend.any_head? rfl)
  rw [writeFlags] at hc
  split_ifs at hc <;> simp_all

private theorem contains_writeFlags (literal : RegexLiteral) :
    (writeFlags literal).contains 'i' = literal.caseInsensitive ∧
      (writeFlags literal).contains 's' = literal.dotMatchesNewline := by
  rcases literal with ⟨_, _ | _, _ | _⟩ <;> exact ⟨rfl, rfl⟩

private theorem isReread_regex {literal : RegexLiteral} (h : (regex literal).Readable due)
    (hend : Ends rest) : IsReread due (.regex literal) rest := by
  obtain ⟨rfl, parts, hparts, hpattern⟩ := h
  have hwrite : write (.regex literal) =
      '/' :: (parts.flatMap RegexPart.source ++ '/' :: writeFlags literal) := by
    rw [write, hpattern, String.toList_ofList, RegexPart.flatMap_writeRegexChar hparts.proper]
  have hread : readRegex [] 0 1
      (parts.flatMap RegexPart.source ++ '/' :: (writeFlags literal ++ rest)) =
      .ok (parts.flatMap RegexPart.text, 1 + (parts.flatMap RegexPart.source).length + 1) := by
    have hsize := hparts.size_le
    rw [readRegex_flatMap_source hparts.proper (by omega)]
    rfl
  have hflags : regexFlags ((parts.flatMap RegexPart.source ++
      '/' :: (writeFlags literal ++ rest)).drop (1 + (parts.flatMap RegexPart.source).length)) =
      writeFlags literal := by
    rw [Nat.add_comm, ← List.drop_drop, List.drop_left]
    exact regexFlags_writeFlags literal hend
  refine ⟨'/', _, hwrite, ?_, ?_⟩
  · -- a slash opens no comment here, for no expression begins with a slash or a star
    rw [List.append_assoc]
    exact hparts.skips _
  · rw [List.append_assoc, List.cons_append, read, if_pos (by decide), readLiteral,
      if_neg (by decide), if_pos rfl]
    refine Outcome.bind_eq_ok.mpr ⟨_, hread, ?_⟩
    dsimp only
    rw [Nat.add_sub_cancel, hflags, (contains_writeFlags literal).1,
      (contains_writeFlags literal).2, ← hpattern, hwrite, List.length_cons, List.length_append,
      List.length_cons]
    congr 2
    omega

/-! ### Integers -/

private theorem digitsValue_eq {ds : List Char} (h : ∀ d ∈ ds, d.isDigit = true) :
    digitsValue 10 ds = Decimal.value ds := by
  refine List.foldl_ext _ _ 0 fun n d hd => ?_
  have hdigit := h d hd
  simp only [Char.isDigit, Bool.and_eq_true, decide_eq_true_eq] at hdigit
  have hvalue : Hexadecimal.value? d = some (d.toNat - 48) := if_pos hdigit
  rw [hvalue]
  rfl

/-- The decimal digits of a number are no digits of base sixteen. -/
private theorem hexMarked_toDigits (n : Nat) (hend : Ends rest) :
    hexMarked (Nat.toDigits 10 n ++ rest) = false := by
  rw [hexMarked.eq_def]
  split
  · rename_i d more heq
    -- the second character is a digit too, or what ends the number
    have hd : d.isDigit = true ∨ d = ' ' := by
      cases hdigits : Nat.toDigits 10 n with
      | nil => exact absurd hdigits Nat.toDigits_ne_nil
      | cons e ds =>
        rw [hdigits, List.cons_append] at heq
        obtain ⟨-, heq⟩ := List.cons.inj heq
        cases ds with
        | nil => exact .inr (hend d (by rw [← List.nil_append rest, heq]; rfl))
        | cons e' ds =>
          have hmem : d ∈ Nat.toDigits 10 n := by
            rw [hdigits, ← (List.cons.inj heq).1]
            simp
          exact .inl (Decimal.isDigit_of_mem_toDigits hmem)
    rcases hd with hd | rfl
    · rw [Bool.or_eq_false_iff, beq_eq_false_iff_ne, beq_eq_false_iff_ne]
      exact ⟨by rintro rfl; exact absurd hd (by decide), by rintro rfl; exact absurd hd (by decide)⟩
    · rfl
  · rfl

private theorem integerSuffix_of_ends (hend : Ends rest) : integerSuffix rest = (1, 0) := by
  cases rest with
  | nil => rfl
  | cons c rest =>
    rw [hend c rfl]
    rfl

/-- The digits of a number that is not too large have that number as their value. -/
private theorem integerValue?_toDigits {n : Nat} (h : n ≤ integerMax) :
    integerValue? 10 1 (Nat.toDigits 10 n) = some n := by
  have hlength : (Nat.toDigits 10 n).length ≤ 19 :=
    (Nat.length_toDigits_le_iff (by decide) (by decide)).mpr
      (Nat.lt_of_le_of_lt h (by decide))
  have hshort : ¬19 < ((Nat.toDigits 10 n).dropWhile (· == '0')).length :=
    Nat.not_lt.mpr (Nat.le_trans (List.dropWhile_sublist _).length_le hlength)
  have hdigits : digitsValue 10 (Nat.toDigits 10 n) = n := by
    rw [digitsValue_eq fun d => Decimal.isDigit_of_mem_toDigits, Decimal.value_toDigits]
  rw [integerValue?, if_neg hshort]
  dsimp only
  rw [hdigits, Nat.mul_one, if_neg (Nat.not_lt.mpr h)]

private theorem readInteger_toDigits {negative : Bool} {n : Nat} (h : n ≤ integerMax)
    (hend : Ends rest) :
    readInteger negative (Nat.toDigits 10 n ++ rest) =
      .ok (.integer (if negative then -(n : Int) else n),
        (if negative then 1 else 0) + (Nat.toDigits 10 n).length) := by
  have hdigits : integerDigits (Nat.toDigits 10 n ++ rest) = (10, 0, Nat.toDigits 10 n) := by
    rw [integerDigits_eq, hexMarked_toDigits n hend, if_neg Bool.false_ne_true,
      Text.takeWhile_append_of_stop (fun d => Decimal.isDigit_of_mem_toDigits) (hend.any_head? rfl)]
  refine readInteger_eq_ok.mpr ?_
  dsimp only
  rw [hdigits]
  dsimp only
  rw [Nat.zero_add, List.drop_left, integerSuffix_of_ends hend]
  refine ⟨?_, hend.any_head? rfl, n, integerValue?_toDigits h, rfl, rfl⟩
  exact List.isEmpty_eq_false_iff.mpr Nat.toDigits_ne_nil

theorem read_of_isDigit (h : c.isDigit = true) (rest : List Char) :
    read due c rest = readInteger false (c :: rest) := by
  have hopens : ¬opensLiteral due c = true := by
    rw [opensLiteral, Bool.or_eq_true, Bool.and_eq_true, Bool.or_eq_true]
    rintro (hquote | ⟨-, hbrace | hslash⟩)
    · exact absurd h (by rw [beq_iff_eq.mp hquote]; decide)
    · exact absurd h (by rw [beq_iff_eq.mp hbrace]; decide)
    · exact absurd h (by rw [beq_iff_eq.mp hslash]; decide)
  have hdollar : c ≠ '$' := by
    rintro rfl
    exact absurd h (by decide)
  have hnumber : c ≠ '#' := by
    rintro rfl
    exact absurd h (by decide)
  rw [read, if_neg hopens, if_neg hdollar, if_neg hnumber, if_pos h]

private theorem isReread_natCast {n : Nat} (h : n ≤ integerMax) (hend : Ends rest) :
    IsReread due (.integer n) rest := by
  have hwrite : write (.integer n) = Nat.toDigits 10 n := by
    have hrepr : write (.integer n) = (Nat.repr n).toList := rfl
    rw [hrepr, Nat.repr_eq_ofList_toDigits, String.toList_ofList]
  have hread : readInteger false (Nat.toDigits 10 n ++ rest) =
      .ok (.integer n, 0 + (Nat.toDigits 10 n).length) := readInteger_toDigits h hend
  obtain ⟨d, ds, hds⟩ := List.exists_cons_of_ne_nil (Nat.toDigits_ne_nil (n := n) (b := 10))
  have hd : d.isDigit = true := Decimal.isDigit_of_mem_toDigits (n := n) (by rw [hds]; simp)
  have hslash : d ≠ '/' := by
    rintro rfl
    exact absurd hd (by decide)
  rw [hds] at hwrite hread
  refine ⟨d, ds, hwrite, skips_of_ne_slash (Decimal.not_isBlank_of_isDigit hd) hslash, ?_⟩
  rw [read_of_isDigit hd, hwrite]
  rw [Nat.zero_add] at hread
  exact hread

private theorem isReread_negSucc {n : Nat} (h : n + 1 ≤ integerMax) (hend : Ends rest) :
    IsReread due (.integer (.negSucc n)) rest := by
  have hwrite : write (.integer (.negSucc n)) = '-' :: Nat.toDigits 10 (n + 1) := by
    have hrepr : write (.integer (.negSucc n)) = ("-" ++ Nat.repr (n + 1)).toList := rfl
    have hsign : "-".toList = ['-'] := by decide
    rw [hrepr, Nat.repr_eq_ofList_toDigits, String.toList_append, hsign, String.toList_ofList]
    rfl
  have hread : readInteger true (Nat.toDigits 10 (n + 1) ++ rest) =
      .ok (.integer (.negSucc n), 1 + (Nat.toDigits 10 (n + 1)).length) :=
    readInteger_toDigits h hend
  have hopens : ¬opensLiteral due '-' = true := by cases due <;> decide
  have hsign : ('-' = '-' && (Nat.toDigits 10 (n + 1) ++ rest).head?.any Char.isDigit) = true := by
    obtain ⟨d, ds, hds⟩ := List.exists_cons_of_ne_nil (Nat.toDigits_ne_nil (n := n + 1) (b := 10))
    have hd : d.isDigit = true := Decimal.isDigit_of_mem_toDigits (n := n + 1) (by rw [hds]; simp)
    rw [hds]
    exact hd
  refine ⟨'-', _, hwrite, skips_of_ne_slash (by decide) (by decide), ?_⟩
  rw [read, if_neg hopens, if_neg (by decide), if_neg (by decide), if_neg (by decide),
    if_pos hsign, hread, hwrite, List.length_cons, Nat.add_comm 1]

private theorem isReread_integer {n : Int} (h : n.natAbs ≤ integerMax) (hend : Ends rest) :
    IsReread due (.integer n) rest := by
  cases n with
  | ofNat n => exact isReread_natCast h hend
  | negSucc n => exact isReread_negSucc h hend

/-! ### Any token -/

/-- A mark is read again if no other mark goes on from it. -/
private theorem isReread_of_mark {more : List Char} (hwrite : t.write = c :: more)
    (hblank : Text.isBlank c = false) (hslash : c ≠ '/')
    (hread : read due c (more ++ rest) = .ok (t, (c :: more).length)) : IsReread due t rest :=
  ⟨c, more, hwrite, skips_of_ne_slash hblank hslash, by rw [hwrite]; exact hread⟩

/-- **A token is read again as it is written**, before a space or nothing. -/
theorem isReread (h : t.Readable due) (hend : Ends rest) : IsReread due t rest := by
  cases t with
  | keyword k => exact isReread_keyword k hend
  | identifier name => exact isReread_identifier h hend
  | stringName name => exact isReread_stringName h hend
  | stringPrefix name => exact isReread_stringPrefix h
  | stringCount name => exact isReread_stringCount h.1 h.2 hend
  | text bytes => exact isReread_text h
  | hex body => exact isReread_hex h
  | regex literal => exact isReread_regex h hend
  | integer n => exact isReread_integer h hend
  | leftBrace =>
    have hdue : due = false := h
    rw [hdue]
    exact isReread_of_mark rfl (by decide) (by decide) rfl
  | assign | less | greater =>
    refine isReread_of_mark rfl (by decide) (by decide) ?_
    -- with a sign of equality behind it the mark would be another one
    cases rest with
    | nil => cases due <;> rfl
    | cons d rest =>
      rw [hend d rfl]
      cases due <;> rfl
  | colon | rightBrace | leftParen | rightParen | comma | equal | notEqual | lessEqual
  | greaterEqual => exact isReread_of_mark rfl (by decide) (by decide) (by cases due <;> rfl)

end Token

/-! ### Sources -/

namespace Lexer

variable {seen ts : List Token} {cs rest : List Char}

/-- The tokens can be read one after another, after the tokens `seen`, the latest first. -/
def AllReadable : List Token → List Token → Prop
  | _, [] => True
  | seen, t :: ts => t.Readable (isDue seen) ∧ AllReadable (t :: seen) ts

/-- Tokens that have been read can be read. -/
theorem Lexes.allReadable (h : Lexes seen cs ts) : AllReadable seen ts := by
  induction h with
  | done => trivial
  | token hskips hread _ ih =>
    obtain ⟨-, hline, hblock⟩ := hskips.stops
    exact ⟨Token.readable_of_read hline hblock hread, ih⟩

/-- A space before a text is part of its first gap. -/
theorem Lexes.space (h : Lexes seen cs ts) : Lexes seen (' ' :: cs) ts := by
  cases h with
  | done hskips => exact .done (.blank (by decide) hskips)
  | token hskips hread hrest => exact .token (.blank (by decide) hskips) hread hrest

/-- A written token comes before the tokens of the rest. -/
private theorem lexes_write_append {t : Token} (hread : Token.IsReread (isDue seen) t rest)
    (h : Lexes (t :: seen) rest ts) : Lexes seen (t.write ++ rest) (t :: ts) := by
  obtain ⟨c, more, hwrite, hskips, hread⟩ := hread
  have hdrop : (c :: (more ++ rest)).drop t.write.length = rest := by
    rw [← List.cons_append, ← hwrite, List.drop_left]
  rw [hwrite, List.cons_append]
  refine .token hskips hread ?_
  rw [hdrop]
  exact h

/-- **Written tokens lex as themselves.** -/
theorem lexes_canonical (h : AllReadable seen ts) :
    Lexes seen ([' '].intercalate (ts.map Token.write)) ts := by
  induction ts generalizing seen with
  | nil => exact .done .blankEnd
  | cons t ts ih =>
    obtain ⟨ht, hts⟩ := h
    cases ts with
    | nil =>
      have hend : Token.Ends [] := fun c hc => nomatch hc
      rw [List.map_singleton, List.intercalate_singleton, ← List.append_nil t.write]
      exact lexes_write_append (Token.isReread ht hend) (.done .blankEnd)
    | cons u ts =>
      have hend (cs : List Char) : Token.Ends (' ' :: cs) := fun c hc => (Option.some.inj hc).symm
      rw [List.map_cons, List.map_cons, List.intercalate_cons_cons, List.append_assoc]
      exact lexes_write_append (Token.isReread ht (hend _)) (ih hts).space

/-- **Tokens survive a round trip through text.** The tokens of a source, written in canonical form
with single spaces between them, are the tokens of what is written, unless that is too large. -/
theorem tokenize_canonical {source : String} {stream : TokenStream}
    (h : tokenize source = .ok stream)
    (hsize : (canonical stream.values).utf8ByteSize ≤ Limits.sourceSize) :
    ∃ again, tokenize (canonical stream.values) = .ok again ∧ again.values = stream.values := by
  obtain ⟨-, hcount, hlexes⟩ := lexes_of_tokenize h
  have hlength : stream.values.length ≤ Limits.tokenCount := by
    rw [TokenStream.values, List.length_map]
    exact hcount
  refine exists_tokenize hsize hlength ?_
  rw [canonical, String.toList_ofList]
  exact lexes_canonical hlexes.allReadable

/-- An expression with a backslash and a slash in it, a text with an escape, and a number with a
mark and a suffix. -/
def literals : String := "$a = /\\\\\\/b/si$b=\"\\n\" #a >= 0x1KB"

/-- The tokens of this source. -/
def literalTokens : TokenStream where
  tokens :=
    [⟨.stringName "a", ⟨⟨0, 1, 1⟩, ⟨2, 1, 3⟩⟩⟩, ⟨.assign, ⟨⟨3, 1, 4⟩, ⟨4, 1, 5⟩⟩⟩,
      ⟨.regex ⟨"\\\\/b", true, true⟩, ⟨⟨5, 1, 6⟩, ⟨14, 1, 15⟩⟩⟩,
      ⟨.stringName "b", ⟨⟨14, 1, 15⟩, ⟨16, 1, 17⟩⟩⟩, ⟨.assign, ⟨⟨16, 1, 17⟩, ⟨17, 1, 18⟩⟩⟩,
      ⟨.text [10], ⟨⟨17, 1, 18⟩, ⟨21, 1, 22⟩⟩⟩, ⟨.stringCount "a", ⟨⟨22, 1, 23⟩, ⟨24, 1, 25⟩⟩⟩,
      ⟨.greaterEqual, ⟨⟨25, 1, 26⟩, ⟨27, 1, 28⟩⟩⟩, ⟨.integer 1024, ⟨⟨28, 1, 29⟩, ⟨33, 1, 34⟩⟩⟩]
  stop := ⟨33, 1, 34⟩

/-- The tokens of this source survive. -/
theorem tokenize_canonical_literals :
    tokenize literals = .ok literalTokens ∧
      canonical literalTokens.values = "$a = /\\\\\\/b/is $b = \"\\x0a\" #a >= 1024" ∧
      ∃ again, tokenize (canonical literalTokens.values) = .ok again ∧
        again.values = literalTokens.values := by
  have hread : tokenize literals = .ok literalTokens := by decide +kernel
  have hwrite : canonical literalTokens.values =
      "$a = /\\\\\\/b/is $b = \"\\x0a\" #a >= 1024" := by decide +kernel
  have hsize : (canonical literalTokens.values).utf8ByteSize ≤ Limits.sourceSize := by
    rw [hwrite]
    decide +kernel
  exact ⟨hread, hwrite, tokenize_canonical hread hsize⟩

end Lexer

end PackageScan
