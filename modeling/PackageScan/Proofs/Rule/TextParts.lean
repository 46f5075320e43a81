import PackageScan.Proofs.Rule.TokenReading

/-!
# What quoted texts consist of

A quoted text consists of parts (`TextPart`): characters that stand for themselves, backslashes with
a letter or a mark, and bytes in hexadecimal. It is read part by part up to its closing quote
(`Token.readText_eq_ok_iff`). Only a quote begins a text, so the tokens that are texts are exactly
the proper parts between two quotes, with the bytes that the parts stand for
(`Token.read_eq_text_iff`).

The reader hands the two characters of a byte to a reader of numbers, which takes a plus sign for
the first one. So there is one more kind of part, a sign and a single digit (`TextPart.signed`).
-/

namespace PackageScan

/-! ### Parts of a quoted text -/

/-- A part of a quoted text. -/
inductive TextPart where
  /-- A character that stands for itself. -/
  | plain (c : Char)
  /-- A backslash, and the character after it that stands for a byte. -/
  | escape (c : Char) (b : UInt8)
  /-- A byte that two digits write. -/
  | byte (high low : Char)
  /-- A byte that a plus sign and one digit write. -/
  | signed (low : Char)
  deriving DecidableEq, Repr

namespace TextPart

/-- The characters of the part. -/
def source : TextPart → List Char
  | plain c => [c]
  | escape c _ => ['\\', c]
  | byte high low => ['\\', 'x', high, low]
  | signed low => ['\\', 'x', '+', low]

/-- The bytes that the part stands for. -/
def bytes : TextPart → List UInt8
  | plain c => String.utf8EncodeChar c
  | escape _ b => [b]
  | byte high low => [(digit high * 16 + digit low).toUInt8]
  | signed low => [(digit low).toUInt8]
where
  /-- Value of a digit in base sixteen. -/
  digit (c : Char) : Nat := (Hexadecimal.value? c).getD 0

/-- The characters that stand for a byte after a backslash. -/
def escapes : List (Char × UInt8) := [('n', 10), ('t', 9), ('r', 13), ('"', 34), ('\\', 92)]

/-- A character that stands for itself neither ends the text nor begins another part, and what
follows a backslash has a meaning. -/
def IsProper : TextPart → Prop
  | plain c => c ≠ '"' ∧ c ≠ '\n' ∧ c ≠ '\\'
  | escape c b => (c, b) ∈ escapes
  | byte high low => Hexadecimal.isDigit high = true ∧ Hexadecimal.isDigit low = true
  | signed low => Hexadecimal.isDigit low = true

/-- Is a byte written with a sign? -/
def isSigned : TextPart → Bool
  | signed _ => true
  | _ => false

variable {c high low : Char} {b : UInt8}

theorem mem_escapes_iff : (c, b) ∈ escapes ↔ Token.simpleEscape? c = some b := by
  rw [Token.simpleEscape?]
  split_ifs with hn ht hr hquote hslash
  all_goals simp_all [escapes, eq_comm]

/-- Digits are neither line breaks nor signs. -/
private theorem ne_of_isDigit {d : Char} (h : Hexadecimal.isDigit c = true)
    (hd : Hexadecimal.isDigit d = false) : c ≠ d := by
  rintro rfl
  exact absurd h (Bool.eq_false_iff.mp hd)

/-- No part goes over the end of a line. -/
theorem IsProper.notMem_source {p : TextPart} (h : p.IsProper) : '\n' ∉ p.source := by
  cases p with
  | plain c => exact fun hmem => h.2.1 (List.mem_singleton.mp hmem).symm
  | escape c b =>
    have hc : c ≠ '\n' := by
      rintro rfl
      exact absurd (mem_escapes_iff.mp h) (by simp [Token.simpleEscape?])
    simp [source, hc.symm]
  | byte high low =>
    have hhigh : high ≠ '\n' := ne_of_isDigit h.1 (by decide)
    have hlow : low ≠ '\n' := ne_of_isDigit h.2 (by decide)
    simp [source, hhigh.symm, hlow.symm]
  | signed low =>
    have hlow : low ≠ '\n' := ne_of_isDigit h (by decide)
    simp [source, hlow.symm]

/-- The two characters after the mark of a byte are digits, or the first one is a plus sign. -/
theorem exists_of_hexByte? (h : Token.hexByte? high low = some b) :
    ∃ p : TextPart, p.IsProper ∧ p.source = ['\\', 'x', high, low] ∧ p.bytes = [b] := by
  rw [Token.hexByte?] at h
  split at h
  · rename_i m n hm hn
    refine ⟨byte high low, ⟨Option.isSome_of_eq_some hm, Option.isSome_of_eq_some hn⟩, rfl, ?_⟩
    rw [← Option.some.inj h, bytes, bytes.digit, bytes.digit, hm, hn]
    rfl
  · rename_i n _ hn
    split_ifs at h with hsign
    refine ⟨signed low, Option.isSome_of_eq_some hn, by rw [hsign, source], ?_⟩
    rw [← Option.some.inj h, bytes, bytes.digit, hn]
    rfl
  · exact nomatch h

end TextPart

/-! ### The reader -/

namespace Token

open TextPart (source)

variable {rest : List Char} {c : Char} {w : Nat}

/-- A part is read before the rest of the text, if the bytes so far are within the limit. -/
private theorem readText_source_append {p : TextPart} (hp : p.IsProper) {read : List UInt8}
    {size width : Nat} (hsize : size + p.bytes.length ≤ Limits.literalSize) :
    readText read size width (p.source ++ rest) =
      readText (p.bytes.reverse ++ read) (size + p.bytes.length) (width + p.source.length)
        rest := by
  cases p with
  | plain c =>
    obtain ⟨hquote, hline, hslash⟩ := hp
    have hlength : (TextPart.plain c).bytes.length = c.utf8Size := String.length_utf8EncodeChar c
    rw [hlength] at hsize ⊢
    exact readText_cons hquote (not_or.mpr ⟨hline, hslash⟩) (Nat.not_lt.mpr hsize)
  | escape c b =>
    have hescape : simpleEscape? c = some b := TextPart.mem_escapes_iff.mp hp
    have hx : c ≠ 'x' := by
      rintro rfl
      simp [simpleEscape?] at hescape
    have hlimit : ¬ Limits.literalSize < size + 1 := Nat.not_lt.mpr hsize
    simp [source, TextPart.bytes, readText, hescape, hlimit]
  | byte high low =>
    obtain ⟨m, hm⟩ := Option.isSome_iff_exists.mp hp.1
    obtain ⟨n, hn⟩ := Option.isSome_iff_exists.mp hp.2
    have hlimit : ¬ Limits.literalSize < size + 1 := Nat.not_lt.mpr hsize
    simp [source, TextPart.bytes, TextPart.bytes.digit, readText, hexByte?, hm, hn, hlimit]
  | signed low =>
    obtain ⟨n, hn⟩ := Option.isSome_iff_exists.mp hp
    have hsign : Hexadecimal.value? '+' = none := by decide
    have hlimit : ¬ Limits.literalSize < size + 1 := Nat.not_lt.mpr hsize
    simp [source, TextPart.bytes, TextPart.bytes.digit, readText, hexByte?, hsign, hn, hlimit]

/-- `InTextParts read size width cs all w`: the characters `cs` are proper parts up to a quote,
which make `all` out of the bytes that have been read, and are not too many together with these;
`w` counts the characters up to the quote. -/
def InTextParts (read : List UInt8) (size width : Nat) (cs : List Char) (all : List UInt8)
    (w : Nat) : Prop :=
  ∃ (parts : List TextPart) (rest : List Char),
    cs = parts.flatMap source ++ '"' :: rest ∧ (∀ p ∈ parts, p.IsProper) ∧
    all = read.reverse ++ parts.flatMap TextPart.bytes ∧
    size + (parts.flatMap TextPart.bytes).length ≤ Limits.literalSize ∧
    w = width + (parts.flatMap source).length + 1

theorem InTextParts.cons {p : TextPart} {read all : List UInt8} {size width : Nat}
    (hp : p.IsProper)
    (h : InTextParts (p.bytes.reverse ++ read) (size + p.bytes.length) (width + p.source.length)
      rest all w) :
    InTextParts read size width (p.source ++ rest) all w := by
  obtain ⟨parts, rest, rfl, hproper, rfl, hsize, rfl⟩ := h
  refine ⟨p :: parts, rest, ?_, List.forall_mem_cons.mpr ⟨hp, hproper⟩, ?_, ?_, ?_⟩
  · rw [List.flatMap_cons, List.append_assoc]
  · rw [List.flatMap_cons, List.reverse_append, List.reverse_reverse, List.append_assoc]
  · rw [List.flatMap_cons, List.length_append, ← Nat.add_assoc]
    exact hsize
  · rw [List.flatMap_cons, List.length_append, ← Nat.add_assoc]

/-- A quoted text is read part by part up to its closing quote. -/
theorem inTextParts_of_readText {read all : List UInt8} {size width : Nat} {cs : List Char}
    (h : readText read size width cs = .ok (all, w)) (hle : size ≤ Limits.literalSize) :
    InTextParts read size width cs all w := by
  fun_induction readText read size width cs with
  | case3 read size width high low rest b hb hlimit ih =>
    obtain ⟨p, hp, hsource, hbytes⟩ := TextPart.exists_of_hexByte? hb
    have hparts : InTextParts read size width (p.source ++ rest) all w := by
      refine InTextParts.cons hp ?_
      rw [hsource, hbytes]
      exact ih h (Nat.not_lt.mp hlimit)
    rwa [hsource] at hparts
  | case7 read size width c rest hx b hb hlimit ih =>
    exact (ih h (Nat.not_lt.mp hlimit)).cons (p := .escape c b) (TextPart.mem_escapes_iff.mpr hb)
  | case9 read size width rest =>
    cases h
    exact ⟨[], rest, rfl, List.forall_mem_nil _, (List.append_nil _).symm, hle, rfl⟩
  | case12 read size width c rest hx hescape hquote hstop size' hlimit ih =>
    obtain ⟨hline, hslash⟩ := not_or.mp hstop
    have hlength : size' = size + (TextPart.plain c).bytes.length :=
      congrArg (size + ·) (String.length_utf8EncodeChar c).symm
    exact (hlength ▸ ih h (Nat.not_lt.mp hlimit)).cons (p := .plain c) ⟨hquote, hline, hslash⟩
  | _ => cases h

/-- Proper parts and a quote after them are read. -/
private theorem readText_of_parts {parts : List TextPart} (hparts : ∀ p ∈ parts, p.IsProper)
    {read : List UInt8} {size width : Nat}
    (hsize : size + (parts.flatMap TextPart.bytes).length ≤ Limits.literalSize) :
    readText read size width (parts.flatMap source ++ '"' :: rest) =
      .ok (read.reverse ++ parts.flatMap TextPart.bytes,
        width + (parts.flatMap source).length + 1) := by
  induction parts generalizing read size width with
  | nil => simp [readText]
  | cons p parts ih =>
    obtain ⟨hp, hparts⟩ := List.forall_mem_cons.mp hparts
    rw [List.flatMap_cons, List.length_append, ← Nat.add_assoc] at hsize
    rw [List.flatMap_cons, List.append_assoc,
      readText_source_append hp (Nat.le_trans (Nat.le_add_right _ _) hsize), ih hparts hsize,
      List.flatMap_cons, List.length_append, List.reverse_append, List.reverse_reverse,
      List.append_assoc, ← Nat.add_assoc]

/-- **Quoted texts.** What is read up to a closing quote are proper parts, and the bytes are those
that they stand for; all proper parts are read that stand for no more bytes than the limit. -/
theorem readText_eq_ok_iff {read all : List UInt8} {size width : Nat} {cs : List Char}
    (hle : size ≤ Limits.literalSize) :
    readText read size width cs = .ok (all, w) ↔ InTextParts read size width cs all w := by
  refine ⟨fun h => inTextParts_of_readText h hle, ?_⟩
  rintro ⟨parts, rest, rfl, hparts, rfl, hsize, rfl⟩
  exact readText_of_parts hparts hsize

/-- Only a quote begins a text. -/
private theorem eq_quote_of_read {due : Bool} {bytes : List UInt8}
    (h : read due c rest = .ok (.text bytes, w)) : c = '"' := by
  rw [read] at h
  split_ifs at h
  · rw [readLiteral] at h
    split_ifs at h with hquote
    · exact hquote
    all_goals
      obtain ⟨_, -, h⟩ := Outcome.bind_eq_ok.mp h
      cases h
  · obtain ⟨_, -, h⟩ := Outcome.bind_eq_ok.mp h
    split at h <;> cases h
  · rw [readStringCount] at h
    split at h
    · cases h
    · obtain ⟨_, -, h⟩ := Outcome.bind_eq_ok.mp h
      cases h
  · obtain ⟨-, -, _, -, h, -⟩ := readInteger_eq_ok.mp h
    cases h
  · obtain ⟨-, -, _, -, h, -⟩ := readInteger_eq_ok.mp h
    cases h
  · obtain ⟨_, -, h⟩ := Outcome.bind_eq_ok.mp h
    dsimp only at h
    split at h <;> cases h
  · rw [readPunctuation.eq_def] at h
    split at h <;> cases h

/-- **Texts are what stands between quotes.** -/
theorem read_eq_text_iff {due : Bool} {bytes : List UInt8} :
    read due c rest = .ok (.text bytes, w) ↔ c = '"' ∧ InTextParts [] 0 1 rest bytes w := by
  rw [← readText_eq_ok_iff (Nat.zero_le _)]
  have hquote (h : c = '"') : read due c rest = readLiteral '"' rest := by
    rw [h, read, if_pos (by rfl)]
  constructor
  · intro h
    have hc := eq_quote_of_read h
    rw [hquote hc, readLiteral, if_pos rfl] at h
    obtain ⟨⟨a, width⟩, hread, h⟩ := Outcome.bind_eq_ok.mp h
    cases h
    exact ⟨hc, hread⟩
  · rintro ⟨hc, hread⟩
    rw [hquote hc, readLiteral, if_pos rfl]
    exact Outcome.bind_eq_ok.mpr ⟨_, hread, rfl⟩

end Token

end PackageScan
