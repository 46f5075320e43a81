import Mathlib.Algebra.Ring.Nat
import Mathlib.Data.List.TakeWhile
import PackageScan.Proofs.Rule.Lexing
import PackageScan.Proofs.Rule.TextParts

/-!
# Tokens in writing, and what can be read at all

A token is written in one canonical form (`Token.write`). Most tokens are written as they stand in a
source. Those that leave something open are settled: the bytes of a quoted text are all escaped, an
integer is decimal without a suffix, and the flags of a regular expression follow it in one order.

Not every token can be read from a source. A name has a length, a literal a size, a hex string no
brace inside, and a regular expression is made of parts in each of which a slash or a backslash has
its place (`RegexPart`); it is not empty and does not begin with a star, since that would have been
a comment. What a reader answers with is always of this kind (`Token.readable_of_read`), and whether
a brace opens a block or a hex string depends on the tokens before it alone.
-/

namespace PackageScan

/-! ### Canonical form -/

namespace Token

/-- A byte of a quoted text, escaped. -/
def writeByte (b : UInt8) : List Char := '\\' :: 'x' :: Hexadecimal.lowerByte b

/-- A character of a regular expression, slashes with their backslash. -/
def writeRegexChar (c : Char) : List Char := if c = '/' then ['\\', '/'] else [c]

/-- The flags of a regular expression. -/
def writeFlags (literal : RegexLiteral) : List Char :=
  (if literal.caseInsensitive then ['i'] else []) ++
    if literal.dotMatchesNewline then ['s'] else []

/-- The token in canonical form. -/
def write : Token → List Char
  | text bytes => '"' :: (bytes.flatMap writeByte ++ ['"'])
  | regex literal =>
    '/' :: (literal.pattern.toList.flatMap writeRegexChar ++ '/' :: writeFlags literal)
  | token => token.display.toList

end Token

/-- Tokens in canonical form with single spaces between them. -/
def Lexer.canonical (ts : List Token) : String :=
  String.ofList ([' '].intercalate (ts.map Token.write))

/-! ### Regular expressions in parts -/

/-- A part of a regular expression. -/
inductive RegexPart where
  /-- A character that stands for itself. -/
  | plain (c : Char)
  /-- A backslash and the character after it. -/
  | escaped (c : Char)
  /-- A slash, which loses its backslash. -/
  | slash

namespace RegexPart

/-- The part as it stands in the source. -/
def source : RegexPart → List Char
  | plain c => [c]
  | escaped c => ['\\', c]
  | slash => ['\\', '/']

/-- The part as it stands in the expression. -/
def text : RegexPart → List Char
  | plain c => [c]
  | escaped c => ['\\', c]
  | slash => ['/']

/-- Number of bytes in the expression. -/
def size : RegexPart → Nat
  | plain c => c.utf8Size
  | escaped c => 1 + c.utf8Size
  | slash => 1

/-- The part is none of the others, and on one line. -/
def IsProper : RegexPart → Prop
  | plain c => c ≠ '/' ∧ c ≠ '\n' ∧ c ≠ '\\'
  | escaped c => c ≠ '/' ∧ c ≠ '\n'
  | slash => True

/-- The parts make up an expression that is no comment. -/
structure IsExpression (parts : List RegexPart) : Prop where
  proper : ∀ p ∈ parts, p.IsProper
  size_le : (parts.map size).sum ≤ Limits.literalSize
  ne_nil : parts ≠ []
  head : parts.head? ≠ some (.plain '*')

/-- An expression does not go on from its first slash to a comment. -/
theorem IsExpression.skips {parts : List RegexPart} (h : IsExpression parts) (cs : List Char) :
    Gap.Skips .blank ('/' :: (parts.flatMap source ++ cs))
      ('/' :: (parts.flatMap source ++ cs)) := by
  obtain ⟨p, more, rfl⟩ := List.exists_cons_of_ne_nil h.ne_nil
  have hp := h.proper p List.mem_cons_self
  rw [List.flatMap_cons, List.append_assoc]
  refine .stop (by decide) (fun hline => ?_) fun hblock => ?_
  · cases p with
    | plain c => exact hp.1 (Option.some.inj hline.2)
    | escaped c => exact absurd (Option.some.inj hline.2) (show '\\' ≠ '/' by decide)
    | slash => exact absurd (Option.some.inj hline.2) (show '\\' ≠ '/' by decide)
  · cases p with
    | plain c => exact h.head (congrArg (Option.map RegexPart.plain) hblock.2)
    | escaped c => exact absurd (Option.some.inj hblock.2) (show '\\' ≠ '*' by decide)
    | slash => exact absurd (Option.some.inj hblock.2) (show '\\' ≠ '*' by decide)

/-- Every slash of an expression gets its backslash back. -/
theorem flatMap_writeRegexChar {parts : List RegexPart} (h : ∀ p ∈ parts, p.IsProper) :
    (parts.flatMap text).flatMap Token.writeRegexChar = parts.flatMap source := by
  rw [List.flatMap_assoc]
  refine List.flatMap_congr fun p hp => ?_
  have hproper := h p hp
  cases p with
  | plain c => simp [text, source, Token.writeRegexChar, hproper.1]
  | escaped c => simp [text, source, Token.writeRegexChar, hproper.1]
  | slash => rfl

end RegexPart

/-! ### What can be read -/

namespace Token

/-- The characters are those of words, and not too many. -/
structure IsName (name : String) : Prop where
  chars : ∀ c ∈ name.toList, isWordChar c = true
  length_le : name.toList.length ≤ Limits.identifierLength

/-- Number of bytes of some characters. -/
def byteSize (cs : List Char) : Nat := (cs.map Char.utf8Size).sum

/-- Can the token be read, where the value of a string is due or not? -/
def Readable (due : Bool) : Token → Prop
  | identifier name => IsName name ∧ Keyword.ofWord? name = none ∧
      ∃ c rest, name.toList = c :: rest ∧ (c.isAlpha || c = '_') = true
  | stringName name | stringPrefix name => IsName name
  | stringCount name => IsName name ∧ name.toList ≠ []
  | text bytes => bytes.length ≤ Limits.literalSize
  | hex body => due = true ∧ '\x7d' ∉ body.toList ∧ byteSize body.toList ≤ Limits.literalSize
  | regex literal => due = true ∧ ∃ parts, RegexPart.IsExpression parts ∧
      literal.pattern = String.ofList (parts.flatMap RegexPart.text)
  | integer n => n.natAbs ≤ integerMax
  | leftBrace => due = false
  | _ => True

variable {due negative : Bool} {c : Char} {cs rest : List Char} {t : Token} {w : Nat}

/-! ### Names and numbers -/

private theorem isName_wordOf {u : Unit} (h : checkLength (wordOf cs) = .ok u) :
    IsName (String.ofList (wordOf cs)) := by
  rw [checkLength] at h
  split_ifs at h with hlength
  refine ⟨fun c hc => ?_, ?_⟩
  · rw [String.toList_ofList] at hc
    exact List.mem_takeWhile_imp hc
  · rw [String.toList_ofList]
    exact Nat.not_lt.mp hlength

private theorem readable_of_readWord (hc : (c.isAlpha || c = '_') = true)
    (h : readWord (c :: rest) = .ok (t, w)) : t.Readable due := by
  obtain ⟨u, hlength, h⟩ := Outcome.bind_eq_ok.mp h
  have hname := isName_wordOf hlength
  dsimp only at h
  cases hkeyword : Keyword.ofWord? (String.ofList (wordOf (c :: rest))) with
  | some k =>
    rw [hkeyword] at h
    cases h
    trivial
  | none =>
    rw [hkeyword] at h
    cases h
    refine ⟨hname, hkeyword, c, wordOf rest, ?_, hc⟩
    rw [String.toList_ofList, wordOf, List.takeWhile_cons_of_pos (isWordChar_of_start hc), wordOf]

private theorem readable_of_readStringName (h : readStringName cs = .ok (t, w)) :
    t.Readable due := by
  obtain ⟨u, hlength, h⟩ := Outcome.bind_eq_ok.mp h
  have hname := isName_wordOf hlength
  split at h <;> cases h <;> exact hname

private theorem readable_of_readStringCount (h : readStringCount cs = .ok (t, w)) :
    t.Readable due := by
  rw [readStringCount] at h
  split at h
  · cases h
  · rename_i hempty
    obtain ⟨u, hlength, h⟩ := Outcome.bind_eq_ok.mp h
    cases h
    refine ⟨isName_wordOf hlength, fun hnil => hempty ?_⟩
    rw [String.toList_ofList] at hnil
    exact List.isEmpty_iff.mpr hnil

private theorem readable_of_readInteger (h : readInteger negative cs = .ok (t, w)) :
    t.Readable due := by
  obtain ⟨-, -, magnitude, hvalue, rfl, -⟩ := readInteger_eq_ok.mp h
  have hmax : magnitude ≤ integerMax := by
    rw [integerValue?] at hvalue
    dsimp only at hvalue
    split_ifs at hvalue with hlength hmax
    exact Option.some.inj hvalue ▸ Nat.not_lt.mp hmax
  cases negative with
  | true => exact Nat.le_trans (Nat.le_of_eq (Int.natAbs_neg magnitude)) hmax
  | false => exact hmax

/-! ### Literals -/

/-- A hex string ends at its first closing brace. -/
private theorem of_readHex {body a : List Char} {size width : Nat}
    (h : readHex body size width cs = .ok (a, w)) (hle : size ≤ Limits.literalSize) :
    ∃ front, a = body.reverse ++ front ∧ '\x7d' ∉ front ∧
      size + byteSize front ≤ Limits.literalSize := by
  fun_induction readHex body size width cs with
  | case2 =>
    cases h
    exact ⟨[], (List.append_nil _).symm, List.not_mem_nil, hle⟩
  | case4 body size width c rest hclose size' hlimit ih =>
    obtain ⟨front, rfl, hfront, hsize⟩ := ih h (Nat.not_lt.mp hlimit)
    refine ⟨c :: front, by simp, ?_, ?_⟩
    · exact List.not_mem_cons_of_ne_of_not_mem (Ne.symm hclose) hfront
    · rw [byteSize, List.map_cons, List.sum_cons, ← byteSize]
      omega
  | _ => cases h

/-- `InParts pattern size cs a`: the characters `cs` are proper parts up to a slash, which make `a`
out of what has been read of the pattern, and are not too long together with it. -/
def InParts (pattern : List Char) (size : Nat) (cs a : List Char) : Prop :=
  ∃ (parts : List RegexPart) (rest : List Char),
    cs = parts.flatMap RegexPart.source ++ '/' :: rest ∧ (∀ p ∈ parts, p.IsProper) ∧
    a = pattern.reverse ++ parts.flatMap RegexPart.text ∧
    size + (parts.map RegexPart.size).sum ≤ Limits.literalSize

theorem InParts.cons {p : RegexPart} {pattern a : List Char} {size : Nat} (hp : p.IsProper)
    (h : InParts (p.text.reverse ++ pattern) (size + p.size) cs a) :
    InParts pattern size (p.source ++ cs) a := by
  obtain ⟨parts, rest, rfl, hproper, rfl, hsize⟩ := h
  refine ⟨p :: parts, rest, ?_, List.forall_mem_cons.mpr ⟨hp, hproper⟩, ?_, ?_⟩
  · rw [List.flatMap_cons, List.append_assoc]
  · rw [List.flatMap_cons, List.reverse_append, List.reverse_reverse, List.append_assoc]
  · rw [List.map_cons, List.sum_cons, ← Nat.add_assoc]
    exact hsize

/-- A regular expression is read part by part up to its closing slash. -/
private theorem inParts_of_readRegex {pattern a : List Char} {size width : Nat}
    (h : readRegex pattern size width cs = .ok (a, w)) (hle : size ≤ Limits.literalSize) :
    InParts pattern size cs a := by
  fun_induction readRegex pattern size width cs with
  | case4 pattern size width rest hlimit hline ih =>
    exact (ih h (Nat.not_lt.mp hlimit)).cons (p := .slash) trivial
  | case6 pattern size width c rest hline hslash size' hlimit ih =>
    have hsize : size' = size + (RegexPart.escaped c).size := Nat.add_assoc ..
    exact (hsize ▸ ih h (Nat.not_lt.mp hlimit)).cons (p := .escaped c) ⟨hslash, hline⟩
  | case7 pattern size width rest =>
    cases h
    exact ⟨[], rest, rfl, List.forall_mem_nil _, (List.append_nil _).symm, hle⟩
  | case10 pattern size width c rest hx hslash hstop size' hlimit ih =>
    exact (ih h (Nat.not_lt.mp hlimit)).cons (p := .plain c)
      ⟨hslash, fun hline => hstop (.inl hline), fun hback => hstop (.inr hback)⟩
  | _ => cases h

/-- An expression that does not start a comment has parts, and the first one is no star. -/
private theorem isExpression_of_readRegex {a : List Char} (h : readRegex [] 0 1 cs = .ok (a, w))
    (hline : cs.head? ≠ some '/') (hblock : cs.head? ≠ some '*') :
    ∃ parts, RegexPart.IsExpression parts ∧ a = parts.flatMap RegexPart.text := by
  obtain ⟨parts, rest, rfl, hproper, rfl, hsize⟩ := inParts_of_readRegex h (Nat.zero_le _)
  refine ⟨parts, ⟨hproper, by omega, ?_, ?_⟩, rfl⟩
  · rintro rfl
    exact hline rfl
  · intro hstar
    obtain ⟨more, rfl⟩ := List.head?_eq_some_iff.mp hstar
    exact hblock rfl

private theorem readable_of_readLiteral (hopens : opensLiteral due c = true)
    (hline : ¬(c = '/' ∧ rest.head? = some '/')) (hblock : ¬(c = '/' ∧ rest.head? = some '*'))
    (h : readLiteral c rest = .ok (t, w)) : t.Readable due := by
  have hdue (hquote : c ≠ '"') : due = true := by
    rw [opensLiteral, beq_eq_false_iff_ne.mpr hquote, Bool.false_or, Bool.and_eq_true] at hopens
    exact hopens.1
  rw [readLiteral] at h
  split_ifs at h with hquote hslash
  · obtain ⟨⟨bytes, width⟩, hread, h⟩ := Outcome.bind_eq_ok.mp h
    cases h
    obtain ⟨parts, rest, -, -, rfl, hsize, -⟩ := inTextParts_of_readText hread (Nat.zero_le _)
    exact Nat.le_trans (Nat.le_add_left _ 0) hsize
  · obtain ⟨⟨pattern, width⟩, hread, h⟩ := Outcome.bind_eq_ok.mp h
    cases h
    obtain ⟨parts, hparts, rfl⟩ := isExpression_of_readRegex hread
      (fun hhead => hline ⟨hslash, hhead⟩) (fun hhead => hblock ⟨hslash, hhead⟩)
    exact ⟨hdue hquote, parts, hparts, rfl⟩
  · obtain ⟨⟨body, width⟩, hread, h⟩ := Outcome.bind_eq_ok.mp h
    cases h
    obtain ⟨front, rfl, hfront, hsize⟩ := of_readHex hread (Nat.zero_le _)
    refine ⟨hdue hquote, ?_, ?_⟩
    · rw [String.toList_ofList]
      exact hfront
    · rw [String.toList_ofList]
      exact Nat.le_trans (Nat.le_add_left _ 0) hsize

/-! ### Any token -/

/-- A brace that is no literal opens a block, and no value is due there. -/
private theorem readable_of_readPunctuation (hopens : ¬opensLiteral due c = true)
    (h : readPunctuation (c :: rest) = .ok (t, w)) : t.Readable due := by
  rw [readPunctuation.eq_def] at h
  split at h
  case h_3 _ more hcs =>
    cases h
    obtain ⟨rfl, -⟩ := List.cons.inj hcs
    cases due with
    | true => exact absurd rfl hopens
    | false => rfl
  all_goals cases h
  all_goals trivial

/-- **What can be read.** Where no comment begins, a reader answers with a token of this kind. -/
theorem readable_of_read (hline : ¬(c = '/' ∧ rest.head? = some '/'))
    (hblock : ¬(c = '/' ∧ rest.head? = some '*')) (h : read due c rest = .ok (t, w)) :
    t.Readable due := by
  rw [read] at h
  split_ifs at h with hopens hname hcount hdigit hminus hword
  · exact readable_of_readLiteral hopens hline hblock h
  · exact readable_of_readStringName h
  · exact readable_of_readStringCount h
  · exact readable_of_readInteger h
  · exact readable_of_readInteger h
  · exact readable_of_readWord (by simpa using hword) h
  · exact readable_of_readPunctuation hopens h

end Token

end PackageScan
