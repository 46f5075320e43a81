import PackageScan.Proofs.Rule.TextParts
import PackageScan.Proofs.Rule.Tiling
import PackageScan.Proofs.Source.Quoting

/-!
# What the texts in a source stand for

Each token that is a text is read from the characters that it covers, whatever may follow them, so
these are a quote, proper parts (`TextPart.IsProper`) and a quote, and nothing else.

* **Texts in a source**: each stands for the bytes of its parts; no part is a signed one where no
  plus sign follows the mark of a byte (`Lexer.isQuoted_of_tokenize`).
* **A sign in place of a digit** is read, although a byte has two digits
  (`Lexer.not_isQuoted_signed`).
-/

namespace PackageScan

namespace Lexer

open TextPart (source)

/-- `IsQuoted text bytes parts`: the text is a quote, proper parts on one line and a quote, and the
bytes are those that the parts stand for. -/
structure IsQuoted (text : List Char) (bytes : List UInt8) (parts : List TextPart) : Prop where
  /-- The parts stand between quotes. -/
  text_eq : text = '"' :: (parts.flatMap source ++ ['"'])
  /-- Each backslash that begins a part begins one with a meaning. -/
  isProper : ∀ p ∈ parts, p.IsProper
  /-- No line ends within the text. -/
  notMem : '\n' ∉ text
  /-- The bytes are those of the parts, one after another. -/
  bytes_eq : bytes = parts.flatMap TextPart.bytes
  /-- There are no more bytes than the limit. -/
  length_le : bytes.length ≤ Limits.literalSize

variable {seen : List Token} {before cs : List Char} {ts : List (Located Token)}

/-- A token that is a text is quoted where it stands. -/
private theorem Cuts.exists_isQuoted (h : Cuts seen before ts cs) (whole : List Char)
    (hwhole : whole = before ++ cs) :
    ∀ t ∈ ts, ∀ bytes, t.value = .text bytes →
      ∃ parts, IsQuoted (Source.textOf whole t.span) bytes parts := by
  induction h with
  | done => exact fun _ h => nomatch h
  | @token seen before gap taken cs c t ts _ hread _ ih =>
    refine List.forall_mem_cons.mpr ⟨fun bytes ht => ?_, ih (by rw [hwhole]; simp)⟩
    have hsplit : whole = (before ++ gap) ++ (c :: taken ++ cs) := by simp [hwhole]
    rw [hsplit, Source.textOf_covering]
    -- nothing has to follow the closing quote
    have hnone := hread [] fun _ h => nomatch h
    rw [List.append_nil, show t = .text bytes from ht, Token.read_eq_text_iff] at hnone
    obtain ⟨rfl, parts, rest, htaken, hparts, rfl, hsize, hwidth⟩ := hnone
    have hrest : rest = [] := by
      have hlength := congrArg List.length htaken
      rw [List.length_append, List.length_cons] at hlength
      exact List.length_eq_zero_iff.mp (by omega)
    rw [htaken, hrest]
    refine ⟨parts, rfl, hparts, ?_, rfl, ?_⟩
    · simp only [List.mem_cons, List.mem_append, List.mem_flatMap, not_or, not_exists]
      refine ⟨by decide, fun p => ?_, by decide, List.not_mem_nil⟩
      exact fun hp => (hparts p hp.1).notMem_source hp.2
    · rwa [Nat.zero_add] at hsize

/-- A part with a sign has a plus sign after the mark of a byte. -/
private theorem IsQuoted.isSigned_eq_false {text : List Char} {bytes : List UInt8}
    {parts : List TextPart} (h : IsQuoted text bytes parts)
    (hsign : ¬ ['\\', 'x', '+'] <:+: text) : ∀ p ∈ parts, p.isSigned = false := by
  intro p hp
  cases p with
  | signed low =>
    refine absurd ?_ hsign
    obtain ⟨front, back, rfl⟩ := List.append_of_mem hp
    exact ⟨'"' :: front.flatMap source, low :: (back.flatMap source ++ ['"']),
      by simp [h.text_eq, source]⟩
  | _ => rfl

/-- **Texts in a source that is read**: proper parts between two quotes, and the bytes that the
parts stand for. No part is written with a sign where none follows the mark of a byte. -/
theorem isQuoted_of_tokenize {source : String} {stream : TokenStream}
    (h : tokenize source = .ok stream) :
    ∀ t ∈ stream.tokens, ∀ bytes, t.value = .text bytes →
      ∃ parts, IsQuoted (Source.textOf source.toList t.span) bytes parts ∧
        (¬ ['\\', 'x', '+'] <:+: Source.textOf source.toList t.span →
          ∀ p ∈ parts, p.isSigned = false) := by
  intro t ht bytes hvalue
  obtain ⟨hcuts, -⟩ := cuts_of_tokenize h
  obtain ⟨parts, hparts⟩ := hcuts.exists_isQuoted source.toList rfl t ht bytes hvalue
  exact ⟨parts, hparts, hparts.isSigned_eq_false⟩

/-- A source with a text of each kind of part but the signed one. -/
def escaped : String := "$a = \"\\x4Bé\\n\""

/-- The tokens of this source. -/
def escapedTokens : TokenStream where
  tokens :=
    [⟨.stringName "a", ⟨⟨0, 1, 1⟩, ⟨2, 1, 3⟩⟩⟩, ⟨.assign, ⟨⟨3, 1, 4⟩, ⟨4, 1, 5⟩⟩⟩,
      ⟨.text [0x4B, 0xC3, 0xA9, 10], ⟨⟨5, 1, 6⟩, ⟨15, 1, 15⟩⟩⟩]
  stop := ⟨15, 1, 15⟩

/-- The parts of its text. -/
theorem isQuoted_of_tokenize_escaped :
    tokenize escaped = .ok escapedTokens ∧
      ∃ t ∈ escapedTokens.tokens, t.value = .text [0x4B, 0xC3, 0xA9, 10] ∧
        ∃ parts, IsQuoted (Source.textOf escaped.toList t.span) [0x4B, 0xC3, 0xA9, 10] parts ∧
          (¬ ['\\', 'x', '+'] <:+: Source.textOf escaped.toList t.span →
            ∀ p ∈ parts, p.isSigned = false) := by
  have hread : tokenize escaped = .ok escapedTokens := by decide +kernel
  have ht : escapedTokens.tokens[2] ∈ escapedTokens.tokens := List.getElem_mem _
  exact ⟨hread, _, ht, rfl, isQuoted_of_tokenize hread _ ht _ rfl⟩

/-- A source with a byte that is written with a sign. -/
def signedByte : String := "$a = \"\\x+5\""

/-- The tokens of this source. -/
def signedByteTokens : TokenStream where
  tokens :=
    [⟨.stringName "a", ⟨⟨0, 1, 1⟩, ⟨2, 1, 3⟩⟩⟩, ⟨.assign, ⟨⟨3, 1, 4⟩, ⟨4, 1, 5⟩⟩⟩,
      ⟨.text [5], ⟨⟨5, 1, 6⟩, ⟨11, 1, 12⟩⟩⟩]
  stop := ⟨11, 1, 12⟩

/-- **A sign in place of a digit** is read, and the text is quoted with a signed part only. -/
theorem not_isQuoted_signed :
    tokenize signedByte = .ok signedByteTokens ∧
      ∃ t ∈ signedByteTokens.tokens, t.value = .text [5] ∧
        ∀ parts, IsQuoted (Source.textOf signedByte.toList t.span) [5] parts →
          ∃ p ∈ parts, p.isSigned = true := by
  refine ⟨by decide +kernel, signedByteTokens.tokens[2], List.getElem_mem _, rfl,
    fun parts h => ?_⟩
  have htext : Source.textOf signedByte.toList signedByteTokens.tokens[2].span =
      ['"', '\\', 'x', '+', '5', '"'] := by decide +kernel
  have hparts := h.text_eq
  rw [htext] at hparts
  cases parts with
  | nil => exact nomatch hparts
  | cons p parts =>
    have hp := h.isProper p List.mem_cons_self
    refine ⟨p, List.mem_cons_self, ?_⟩
    -- the backslash begins none of the other parts
    cases p with
    | plain c =>
      cases (List.cons.inj (List.cons.inj hparts).2).1
      exact absurd rfl hp.2.2
    | escape c b =>
      cases (List.cons.inj (List.cons.inj (List.cons.inj hparts).2).2).1
      exact absurd (TextPart.mem_escapes_iff.mp hp) (by simp [Token.simpleEscape?])
    | byte high low =>
      cases (List.cons.inj (List.cons.inj (List.cons.inj (List.cons.inj hparts).2).2).2).1
      exact absurd hp.1 (by decide)
    | signed low => rfl

end Lexer

end PackageScan
