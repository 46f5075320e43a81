import PackageScan.Proofs.Rule.Rereading
import PackageScan.Proofs.Source.Places

/-!
# The limits of the scanner

A source whose tokens are read keeps to every limit (`Lexer.keepsLimits_of_tokenize`). Conversely a
limit is reported to be exceeded only where it is (`Lexer.isWarranted_of_tokenize`), and by the
number of bytes that is reported:

* a name by all characters of words that follow one another (`Token.Names`),
* a literal by what has been read of it so far, which need not have an end (`Token.Begins`),
* the tokens by one that begins after as many as there may be (`Lexer.BeginsAt`).

What a reader of one token reports is warranted by the characters that it is given
(`Token.Warranted`). Which characters these are is the matter of the run of the scanner up to a
token (`Lexer.Reaches`).
-/

namespace PackageScan

open Source (byteLength byteLength_append byteLength_cons byteLength_nil byteLength_toList)

/-! ### What a token is charged with -/

namespace Token

/-- The token is within the limits for names and literals, in bytes. -/
def KeepsLimits : Token → Prop
  | keyword k => k.word.utf8ByteSize ≤ Limits.identifierLength
  | identifier name | stringName name | stringPrefix name | stringCount name =>
    name.utf8ByteSize ≤ Limits.identifierLength
  | text bytes => bytes.length ≤ Limits.literalSize
  | hex body => body.utf8ByteSize ≤ Limits.literalSize
  | regex literal => literal.pattern.utf8ByteSize ≤ Limits.literalSize
  | _ => True

/-- `Names cs name`: the characters begin with a word or with a mark and the name of a string, and
`name` is all of it. -/
inductive Names : List Char → List Char → Prop
  | word {c : Char} {rest : List Char} : (c.isAlpha || c = '_') = true →
      Names (c :: rest) (wordOf (c :: rest))
  | string (rest : List Char) : Names ('$' :: rest) (wordOf rest)
  | count (rest : List Char) : Names ('#' :: rest) (wordOf rest)

/-- `Begins due cs size`: the characters begin with the first part of a literal, with as many bytes
once it is decoded; `due` says whether the value of a string declaration is due. -/
inductive Begins (due : Bool) : List Char → Nat → Prop
  | text {parts : List TextPart} (rest : List Char) : (∀ p ∈ parts, p.IsProper) →
      Begins due ('"' :: (parts.flatMap TextPart.source ++ rest))
        (parts.flatMap TextPart.bytes).length
  | hex {body : List Char} (rest : List Char) : due = true → '\x7d' ∉ body →
      Begins due ('\x7b' :: (body ++ rest)) (byteLength body)
  | regex {parts : List RegexPart} (rest : List Char) : due = true → (∀ p ∈ parts, p.IsProper) →
      Begins due ('/' :: (parts.flatMap RegexPart.source ++ rest))
        (byteLength (parts.flatMap RegexPart.text))

/-! ### Sizes in bytes -/

private theorem byteSize_eq (cs : List Char) : byteSize cs = byteLength cs := by
  induction cs with
  | nil => exact byteLength_nil.symm
  | cons c cs ih =>
    rw [byteSize, List.map_cons, List.sum_cons, ← byteSize, ih, byteLength_cons]

private theorem byteLength_wordOf (cs : List Char) :
    byteLength (wordOf cs) = (wordOf cs).length := by
  have hword : ∀ c ∈ wordOf cs, c.utf8Size = 1 := by
    intro c hc
    obtain ⟨-, hrange⟩ := range_of_isWordChar (List.mem_takeWhile_imp hc)
    exact Char.utf8Size_eq_one_iff.mpr
      (UInt32.le_iff_toNat_le.mpr (Nat.le_trans hrange (by decide)))
  rw [← byteSize_eq, byteSize, List.map_congr_left hword, List.map_const', List.sum_replicate_nat,
    Nat.mul_one]

private theorem byteLength_text (parts : List RegexPart) :
    byteLength (parts.flatMap RegexPart.text) = (parts.map RegexPart.size).sum := by
  induction parts with
  | nil => exact byteLength_nil
  | cons p parts ih =>
    have hp : byteLength p.text = p.size := by
      rw [← byteSize_eq]
      cases p <;> rfl
    rw [List.flatMap_cons, byteLength_append, ih, hp, List.map_cons, List.sum_cons]

/-- A readable token is within the limits. -/
private theorem Readable.keepsLimits {due : Bool} {t : Token} (h : t.Readable due) :
    t.KeepsLimits := by
  have hname {name : String} (h : IsName name) :
      name.utf8ByteSize ≤ Limits.identifierLength := by
    have hword : wordOf name.toList = name.toList := List.takeWhile_eq_self_iff.mpr h.chars
    rw [← byteLength_toList, ← hword, byteLength_wordOf, hword]
    exact h.length_le
  cases t with
  | keyword k =>
    change k.word.utf8ByteSize ≤ Limits.identifierLength
    cases k <;> decide
  | identifier name => exact hname h.1
  | stringName name | stringPrefix name => exact hname h
  | stringCount name => exact hname h.1
  | text bytes => exact h
  | hex body =>
    obtain ⟨-, -, hsize⟩ := h
    rwa [byteSize_eq, byteLength_toList] at hsize
  | regex literal =>
    obtain ⟨-, parts, hparts, hpattern⟩ := h
    have hsize := hparts.size_le
    rwa [← byteLength_text, byteLength, ← hpattern] at hsize
  | _ => trivial

/-! ### What the reader of a token reports -/

/-- A report that a limit is exceeded is warranted: it points at the start of the token, and the
number of bytes is beyond the limit and that of a name or of a literal. -/
def Warranted (OfName OfLiteral : Nat → Prop) : LexFault × Nat → Prop
  | (.identifierTooLong length, before) =>
    before = 0 ∧ Limits.identifierLength < length ∧ OfName length
  | (.stringTooLarge size, before) => before = 0 ∧ Limits.literalSize < size ∧ OfLiteral size
  | (.sourceTooLarge _, _) | (.tooManyTokens, _) => False
  | _ => True

variable {due : Bool} {c : Char} {cs rest : List Char} {e : LexFault × Nat}
variable {A A' B B' : Nat → Prop}

theorem Warranted.mono (h : Warranted A B e) (hA : ∀ n, A n → A' n) (hB : ∀ n, B n → B' n) :
    Warranted A' B' e := by
  obtain ⟨fault, before⟩ := e
  cases fault with
  | identifierTooLong length => exact ⟨h.1, h.2.1, hA _ h.2.2⟩
  | stringTooLarge size => exact ⟨h.1, h.2.1, hB _ h.2.2⟩
  | sourceTooLarge | tooManyTokens => exact h
  | _ => trivial

/-! ### Names -/

private theorem warranted_of_checkLength {name : List Char} (h : checkLength name = .error e) :
    Warranted (· = name.length) B e := by
  rw [checkLength] at h
  split_ifs at h with hlength
  cases h
  exact ⟨rfl, hlength, rfl⟩

/-- A chain that begins with checking a name reports nothing else of a limit. -/
private theorem warranted_of_bind {α : Type} {f : Unit → Except (LexFault × Nat) α}
    (h : (checkLength (wordOf cs) >>= f) = .error e) (hf : ∀ a, f a ≠ .error e) :
    Warranted (· = byteLength (wordOf cs)) B e := by
  rw [byteLength_wordOf]
  rcases Outcome.bind_eq_error.mp h with hlength | ⟨a, -, hrest⟩
  · exact warranted_of_checkLength hlength
  · exact absurd hrest (hf a)

private theorem warranted_of_readWord (h : readWord cs = .error e) :
    Warranted (· = byteLength (wordOf cs)) B e := by
  refine warranted_of_bind h fun _ hrest => ?_
  dsimp only at hrest
  split at hrest <;> cases hrest

private theorem warranted_of_readStringName (h : readStringName cs = .error e) :
    Warranted (· = byteLength (wordOf cs)) B e := by
  refine warranted_of_bind h fun _ hrest => ?_
  split at hrest <;> cases hrest

private theorem warranted_of_readStringCount (h : readStringCount cs = .error e) :
    Warranted (· = byteLength (wordOf cs)) B e := by
  rw [readStringCount] at h
  split at h
  · cases h
    trivial
  · refine warranted_of_bind h fun _ hrest => ?_
    cases hrest

/-! ### Literals -/

section Parts

variable {P : Type} {source : P → List Char} {size : P → Nat} {IsProper : P → Prop} {p : P}
variable {start total : Nat}

/-- The characters begin with proper parts, which together with what has been read before them have
the number of bytes. -/
def HasParts (source : P → List Char) (size : P → Nat) (IsProper : P → Prop) (start : Nat)
    (cs : List Char) (total : Nat) : Prop :=
  ∃ (parts : List P) (rest : List Char), cs = parts.flatMap source ++ rest ∧
    (∀ p ∈ parts, IsProper p) ∧ total = start + (parts.map size).sum

theorem HasParts.cons (hp : IsProper p)
    (h : HasParts source size IsProper (start + size p) cs total) :
    HasParts source size IsProper start (source p ++ cs) total := by
  obtain ⟨parts, rest, rfl, hparts, rfl⟩ := h
  refine ⟨p :: parts, rest, ?_, List.forall_mem_cons.mpr ⟨hp, hparts⟩, ?_⟩
  · rw [List.flatMap_cons, List.append_assoc]
  · rw [List.map_cons, List.sum_cons, ← Nat.add_assoc]

private theorem hasParts_one (hp : IsProper p) (cs : List Char) :
    HasParts source size IsProper start (source p ++ cs) (start + size p) :=
  HasParts.cons hp ⟨[], cs, rfl, List.forall_mem_nil _, rfl⟩

/-- What is reported of the rest is reported of the whole, when a part is read first. -/
theorem Warranted.cons (hp : IsProper p)
    (h : Warranted A (HasParts source size IsProper (start + size p) cs) e) :
    Warranted A (HasParts source size IsProper start (source p ++ cs)) e :=
  h.mono (fun _ hA => hA) fun _ htotal => htotal.cons hp

/-- A part that takes the literal beyond the limit. -/
private theorem warranted_tooLarge (hp : IsProper p)
    (hlimit : Limits.literalSize < start + size p) :
    Warranted A (HasParts source size IsProper start (source p ++ cs))
      (.stringTooLarge (start + size p), 0) :=
  ⟨rfl, hlimit, hasParts_one hp cs⟩

end Parts

/-- The characters begin with parts of a quoted text. -/
abbrev HasTextParts : Nat → List Char → Nat → Prop :=
  HasParts TextPart.source (fun p => p.bytes.length) TextPart.IsProper

/-- The characters begin with some that do not end a hex string. -/
abbrev HasBody : Nat → List Char → Nat → Prop :=
  HasParts (fun c => [c]) Char.utf8Size (· ≠ '\x7d')

/-- The characters begin with parts of a regular expression. -/
abbrev HasRegexParts : Nat → List Char → Nat → Prop :=
  HasParts RegexPart.source RegexPart.size RegexPart.IsProper

private theorem warranted_of_readText {read : List UInt8} {size width : Nat}
    (h : readText read size width cs = .error e) : Warranted A (HasTextParts size cs) e := by
  -- the cases are those of each kind of part, first beyond the limit and then within it
  fun_induction readText read size width cs with
  | case2 read size width high low rest b hb hlimit =>
    cases h
    obtain ⟨p, hp, hsource, hbytes⟩ := TextPart.exists_of_hexByte? hb
    have hsize : p.bytes.length = 1 := by rw [hbytes, List.length_singleton]
    have hpart : Warranted A (HasTextParts size (p.source ++ rest)) _ :=
      warranted_tooLarge hp (hsize.symm ▸ hlimit)
    rwa [hsource, hsize] at hpart
  | case3 read size width high low rest b hb hlimit ih =>
    obtain ⟨p, hp, hsource, hbytes⟩ := TextPart.exists_of_hexByte? hb
    have hsize : p.bytes.length = 1 := by rw [hbytes, List.length_singleton]
    have hpart : Warranted A (HasTextParts size (p.source ++ rest)) e :=
      Warranted.cons hp (hsize.symm ▸ ih h)
    rwa [hsource] at hpart
  | case6 read size width c rest hx b hb hlimit =>
    cases h
    have hescape : (TextPart.escape c b).IsProper := TextPart.mem_escapes_iff.mpr hb
    exact warranted_tooLarge hescape hlimit
  | case7 read size width c rest hx b hb hlimit ih =>
    have hescape : (TextPart.escape c b).IsProper := TextPart.mem_escapes_iff.mpr hb
    exact Warranted.cons hescape (ih h)
  | case9 => cases h
  | case11 read size width c rest hx hescape hquote hstop size' hlimit =>
    obtain ⟨hline, hslash⟩ := not_or.mp hstop
    have hplain : (TextPart.plain c).IsProper := ⟨hquote, hline, hslash⟩
    have hsize : size' = size + (TextPart.plain c).bytes.length :=
      congrArg (size + ·) (String.length_utf8EncodeChar c).symm
    cases h
    rw [hsize] at hlimit ⊢
    exact warranted_tooLarge hplain hlimit
  | case12 read size width c rest hx hescape hquote hstop size' hlimit ih =>
    obtain ⟨hline, hslash⟩ := not_or.mp hstop
    have hplain : (TextPart.plain c).IsProper := ⟨hquote, hline, hslash⟩
    have hsize : size' = size + (TextPart.plain c).bytes.length :=
      congrArg (size + ·) (String.length_utf8EncodeChar c).symm
    rw [hsize] at ih h
    exact Warranted.cons hplain (ih h)
  | _ =>
    cases h
    trivial

private theorem warranted_of_readHex {body : List Char} {size width : Nat}
    (h : readHex body size width cs = .error e) : Warranted A (HasBody size cs) e := by
  fun_induction readHex body size width cs with
  | case1 =>
    cases h
    trivial
  | case2 => cases h
  | case3 body size width c rest hclose size' hlimit =>
    cases h
    exact warranted_tooLarge (p := c) hclose hlimit
  | case4 body size width c rest hclose size' hlimit ih =>
    exact Warranted.cons (p := c) hclose (ih h)

private theorem warranted_of_readRegex {pattern : List Char} {size width : Nat}
    (h : readRegex pattern size width cs = .error e) : Warranted A (HasRegexParts size cs) e := by
  fun_induction readRegex pattern size width cs with
  | case3 pattern size width rest hlimit hline =>
    cases h
    exact warranted_tooLarge (p := RegexPart.slash) trivial hlimit
  | case4 pattern size width rest hlimit hline ih =>
    exact Warranted.cons (p := RegexPart.slash) trivial (ih h)
  | case5 pattern size width c rest hline hslash size' hlimit =>
    have hsize : size' = size + (RegexPart.escaped c).size := Nat.add_assoc ..
    cases h
    rw [hsize] at hlimit ⊢
    exact warranted_tooLarge (p := RegexPart.escaped c) ⟨hslash, hline⟩ hlimit
  | case6 pattern size width c rest hline hslash size' hlimit ih =>
    have hsize : size' = size + (RegexPart.escaped c).size := Nat.add_assoc ..
    rw [hsize] at ih h
    exact Warranted.cons (p := RegexPart.escaped c) ⟨hslash, hline⟩ (ih h)
  | case7 => cases h
  | case9 pattern size width c rest hx hslash hstop size' hlimit =>
    obtain ⟨hline, hback⟩ := not_or.mp hstop
    cases h
    exact warranted_tooLarge (p := RegexPart.plain c) ⟨hslash, hline, hback⟩ hlimit
  | case10 pattern size width c rest hx hslash hstop size' hlimit ih =>
    obtain ⟨hline, hback⟩ := not_or.mp hstop
    exact Warranted.cons (p := RegexPart.plain c) ⟨hslash, hline, hback⟩ (ih h)
  | _ =>
    cases h
    trivial

/-- Parts behind the mark that opens the literal begin it. -/
private theorem begins_text {total : Nat} (h : HasTextParts 0 cs total) :
    Begins due ('"' :: cs) total := by
  obtain ⟨parts, rest, rfl, hparts, rfl⟩ := h
  rw [Nat.zero_add, ← List.length_flatMap]
  exact .text rest hparts

private theorem begins_hex {total : Nat} (hdue : due = true) (h : HasBody 0 cs total) :
    Begins due ('\x7b' :: cs) total := by
  obtain ⟨body, rest, rfl, hbody, rfl⟩ := h
  rw [Nat.zero_add, ← byteSize, byteSize_eq, List.flatMap_singleton']
  exact .hex rest hdue fun hmem => hbody _ hmem rfl

private theorem begins_regex {total : Nat} (hdue : due = true) (h : HasRegexParts 0 cs total) :
    Begins due ('/' :: cs) total := by
  obtain ⟨parts, rest, rfl, hparts, rfl⟩ := h
  rw [Nat.zero_add, ← byteLength_text]
  exact .regex rest hdue hparts

/-- What a literal is reported for. -/
private theorem warranted_of_readLiteral (hopens : opensLiteral due c = true)
    (h : readLiteral c rest = .error e) : Warranted A (Begins due (c :: rest)) e := by
  rw [readLiteral] at h
  split_ifs at h with hquote hslash
  · obtain hread | ⟨_, -, hdone⟩ := Outcome.bind_eq_error.mp h
    · rw [hquote]
      exact (warranted_of_readText hread).mono (fun _ hA => hA) fun _ => begins_text
    · cases hdone
  · have hdue : due = true := by
      rw [hslash] at hopens
      simpa [opensLiteral] using hopens
    obtain hread | ⟨_, -, hdone⟩ := Outcome.bind_eq_error.mp h
    · rw [hslash]
      exact (warranted_of_readRegex hread).mono (fun _ hA => hA) fun _ => begins_regex hdue
    · cases hdone
  · have hbrace : due = true ∧ c = '\x7b' := by
      simpa [opensLiteral, hquote, hslash] using hopens
    obtain hread | ⟨_, -, hdone⟩ := Outcome.bind_eq_error.mp h
    · rw [hbrace.2]
      exact (warranted_of_readHex hread).mono (fun _ hA => hA) fun _ => begins_hex hbrace.1
    · cases hdone

/-! ### Any token -/

private theorem warranted_of_readInteger {negative : Bool}
    (h : readInteger negative cs = .error e) :
    Warranted A B e := by
  rw [readInteger] at h
  dsimp only at h
  generalize (if negative = true then 1 else 0) = signWidth at h
  split_ifs at h
  · cases h
    trivial
  · cases h
    trivial
  all_goals
    split at h <;> cases h
    trivial

private theorem warranted_of_readPunctuation (h : readPunctuation cs = .error e) :
    Warranted A B e := by
  rw [readPunctuation.eq_def] at h
  split at h <;> cases h <;> trivial

/-- **What a reader reports.** A name or a literal is reported to be too long only where the
characters begin with one that is. -/
theorem warranted_of_read (h : read due c rest = .error e) :
    Warranted (fun length => ∃ name, Names (c :: rest) name ∧ length = byteLength name)
      (Begins due (c :: rest)) e := by
  rw [read] at h
  split_ifs at h with hopens hname hcount hdigit hminus hword
  · exact warranted_of_readLiteral hopens h
  · refine (warranted_of_readStringName h).mono (fun length hlength => ?_) fun _ hB => hB
    exact ⟨_, hname ▸ .string rest, hlength⟩
  · refine (warranted_of_readStringCount h).mono (fun length hlength => ?_) fun _ hB => hB
    exact ⟨_, hcount ▸ .count rest, hlength⟩
  · exact warranted_of_readInteger h
  · exact warranted_of_readInteger h
  · refine (warranted_of_readWord h).mono (fun length hlength => ?_) fun _ hB => hB
    exact ⟨_, .word (by simpa using hword), hlength⟩
  · exact warranted_of_readPunctuation h

end Token

namespace Lexer

/-! ### Up to a token -/

/-- `Reaches seen cs ts rest`: after the tokens `seen`, the latest first, the tokens `ts` are read
from the characters `cs`, and what is left when another token begins is `rest`. -/
inductive Reaches : List Token → List Char → List Token → List Char → Prop
  | here {seen : List Token} {cs : List Char} {c : Char} {rest : List Char} :
      Gap.Skips .blank cs (c :: rest) → Reaches seen cs [] (c :: rest)
  | token {seen : List Token} {cs : List Char} {c : Char} {rest : List Char} {t : Token} {w : Nat}
      {ts : List Token} {left : List Char} : Gap.Skips .blank cs (c :: rest) →
      Token.read (isDue seen) c rest = .ok (t, w) →
      Reaches (t :: seen) ((c :: rest).drop w) ts left → Reaches seen cs (t :: ts) left

/-- Another token begins at the place, after the tokens `ts` and before the characters `rest`. -/
def BeginsAt (source : String) (place : Position) (ts : List Token) (rest : List Char) : Prop :=
  ∃ before, source.toList = before ++ rest ∧ place = .after before ∧
    Reaches [] source.toList ts rest

/-- What stands before a token, once the gap before it has been measured. -/
private theorem gap_before {cs rest : List Char} {c : Char} {position : Position}
    {before : List Char}
    (hclosed : (Gap.read .blank 0 0 cs).unclosed = none)
    (hrest : cs.drop (Gap.read .blank 0 0 cs).width = c :: rest)
    (hposition : position = .after before) :
    cs = cs.take (Gap.read .blank 0 0 cs).width ++ c :: rest ∧
      Gap.Skips .blank cs (c :: rest) ∧
      position.advanceAll (cs.take (Gap.read .blank 0 0 cs).width) =
        .after (before ++ cs.take (Gap.read .blank 0 0 cs).width) := by
  obtain ⟨-, hskips⟩ := Gap.skips_of_read hclosed
  refine ⟨?_, ?_, ?_⟩
  · rw [← hrest, List.take_append_drop]
  · rw [Nat.sub_zero, hrest] at hskips
    exact hskips
  · rw [hposition, Position.advanceAll_after]

/-- **Where the scanner fails.** It fails in a comment that has no end, or at a token that begins:
there may be no other, or it cannot be read. -/
theorem exists_reaches_of_scanFrom {budget : Nat} {cs : List Char} {position : Position}
    {seen : List (Located Token)} {metrics : LexMetrics} {e : LexError}
    (h : (scanFrom budget cs position seen metrics).2 = .error e) :
    ∀ before, position = .after before → e.fault = .unterminatedComment ∨
      ∃ ts between c rest, cs = between ++ c :: rest ∧
        Reaches (seen.map Located.value) cs ts (c :: rest) ∧
        (e = ⟨.tooManyTokens, .after (before ++ between)⟩ ∧ ts.length = budget ∨
          ts.length < budget ∧
            ∃ w, Token.read (isDue (ts.reverse ++ seen.map Located.value)) c rest =
                .error (e.fault, w) ∧
              e.position = .after (before ++ between ++ (c :: rest).take w)) := by
  fun_induction scanFrom budget cs position seen metrics with
  | case1 =>
    intro before hposition
    cases h
    exact .inl rfl
  | case2 => cases h
  | case3 cs position seen metrics gap _ hclosed start c rest hrest =>
    intro before hposition
    cases h
    obtain ⟨hsplit, hskips, hstart⟩ := gap_before hclosed hrest hposition
    exact .inr ⟨[], _, c, rest, hsplit, .here hskips, .inl ⟨congrArg _ hstart, rfl⟩⟩
  | case4 cs position seen metrics gap _ hclosed start c rest hrest budget due _ fault w hread =>
    intro before hposition
    cases h
    obtain ⟨hsplit, hskips, hstart⟩ := gap_before hclosed hrest hposition
    refine .inr ⟨[], _, c, rest, hsplit, .here hskips, .inr ⟨Nat.succ_pos _, w, ?_, ?_⟩⟩
    · rw [List.reverse_nil, List.nil_append, ← valueNext_eq]
      exact hread
    · exact (congrArg (·.advanceAll ((c :: rest).take w)) hstart).trans
        (Position.advanceAll_after _ _)
  | case5 cs position seen metrics gap _ hclosed start c rest hrest budget due _ t w hread stop
      ih =>
    intro before hposition
    obtain ⟨hsplit, hskips, hstart⟩ := gap_before hclosed hrest hposition
    have hstop : stop = .after (before ++ cs.take gap.width ++ (c :: rest).take w) :=
      (congrArg (·.advanceAll ((c :: rest).take w)) hstart).trans (Position.advanceAll_after _ _)
    have hread' : Token.read (isDue (seen.map Located.value)) c rest = .ok (t, w) := by
      rw [← valueNext_eq]
      exact hread
    obtain hcomment | ⟨ts, between, c', rest', hleft, hreaches, hfault⟩ := ih h _ hstop
    · exact .inl hcomment
    have hbefore : before ++ cs.take gap.width ++ (c :: rest).take w ++ between =
        before ++ (cs.take gap.width ++ (c :: rest).take w ++ between) := by
      simp only [List.append_assoc]
    have hseen : (t :: ts).reverse ++ seen.map Located.value =
        ts.reverse ++ t :: seen.map Located.value := by
      rw [List.reverse_cons, List.append_assoc, List.singleton_append]
    refine .inr ⟨t :: ts, cs.take gap.width ++ (c :: rest).take w ++ between, c', rest', ?_,
      .token hskips hread' hreaches, ?_⟩
    · rw [List.append_assoc, ← hleft, List.append_assoc, List.take_append_drop]
      exact hsplit
    · rw [hseen, ← hbefore]
      exact hfault.imp (fun hmany => ⟨hmany.1, congrArg (· + 1) hmany.2⟩)
        (And.imp_left Nat.succ_lt_succ)

/-! ### Sources -/

/-- A report that a limit is exceeded is warranted by the source. -/
def IsWarranted (source : String) : LexError → Prop
  | ⟨.sourceTooLarge size, _⟩ => size = source.utf8ByteSize ∧ Limits.sourceSize < size
  | ⟨.tooManyTokens, place⟩ =>
    ∃ ts rest, BeginsAt source place ts rest ∧ ts.length = Limits.tokenCount
  | ⟨.identifierTooLong length, place⟩ => ∃ ts rest name, BeginsAt source place ts rest ∧
      Token.Names rest name ∧ length = byteLength name ∧ Limits.identifierLength < length
  | ⟨.stringTooLarge size, place⟩ => ∃ ts rest, BeginsAt source place ts rest ∧
      Token.Begins (isDue ts.reverse) rest size ∧ Limits.literalSize < size
  | _ => True

/-- What a token at which the scanner fails is reported for. -/
private theorem isWarranted_of_read {source : String} {e : LexError} {before rest : List Char}
    {c : Char}
    {ts : List Token} {w : Nat} (hsource : source.toList = before ++ c :: rest)
    (hreaches : Reaches [] source.toList ts (c :: rest))
    (hread : Token.read (isDue ts.reverse) c rest = .error (e.fault, w))
    (hplace : e.position = .after (before ++ (c :: rest).take w)) : IsWarranted source e := by
  have hbegins (hw : w = 0) : BeginsAt source e.position ts (c :: rest) := by
    refine ⟨before, hsource, ?_, hreaches⟩
    rw [hplace, hw, List.take_zero, List.append_nil]
  have hwarranted := Token.warranted_of_read hread
  obtain ⟨fault, place⟩ := e
  cases fault with
  | identifierTooLong length =>
    obtain ⟨hw, hlimit, name, hname, hlength⟩ := hwarranted
    exact ⟨ts, c :: rest, name, hbegins hw, hname, hlength, hlimit⟩
  | stringTooLarge size =>
    obtain ⟨hw, hlimit, hsize⟩ := hwarranted
    exact ⟨ts, c :: rest, hbegins hw, hsize, hlimit⟩
  | sourceTooLarge | tooManyTokens => exact absurd hwarranted id
  | _ => trivial

/-- **A limit is reported only where it is exceeded.** -/
theorem isWarranted_of_tokenize {source : String} {e : LexError}
    (h : tokenize source = .error e) : IsWarranted source e := by
  rw [tokenize, scan] at h
  split_ifs at h with hsize
  · cases h
    exact ⟨rfl, hsize⟩
  obtain hcomment | ⟨ts, between, c, rest, hsource, hreaches, hfault⟩ :=
    exists_reaches_of_scanFrom h [] (Position.advanceAll_start [])
  · obtain ⟨fault, place⟩ := e
    rw [show fault = .unterminatedComment from hcomment]
    trivial
  · rw [List.nil_append, List.map_nil, List.append_nil] at hfault
    obtain ⟨rfl, hcount⟩ | ⟨-, w, hread, hplace⟩ := hfault
    · exact ⟨ts, c :: rest, ⟨between, hsource, rfl, hreaches⟩, hcount⟩
    · exact isWarranted_of_read hsource hreaches hread hplace

/-- The tokens that may be read after others are within the limits. -/
private theorem AllReadable.keepsLimits {seen ts : List Token} (h : AllReadable seen ts) :
    ∀ t ∈ ts, t.KeepsLimits := by
  induction ts generalizing seen with
  | nil => exact List.forall_mem_nil _
  | cons t ts ih => exact List.forall_mem_cons.mpr ⟨h.1.keepsLimits, ih h.2⟩

/-- **What is read keeps to the limits.** -/
theorem keepsLimits_of_tokenize {source : String} {stream : TokenStream}
    (h : tokenize source = .ok stream) :
    source.utf8ByteSize ≤ Limits.sourceSize ∧ stream.tokens.length ≤ Limits.tokenCount ∧
      ∀ t ∈ stream.values, t.KeepsLimits := by
  obtain ⟨hsize, hcount, hlexes⟩ := lexes_of_tokenize h
  exact ⟨hsize, hcount, hlexes.allReadable.keepsLimits⟩

/-- A word may have as many characters as the limit says, and no more. -/
example : (tokenize (String.ofList (List.replicate 128 'a'))).isOk = true ∧
    tokenize (String.ofList (List.replicate 129 'a')) =
      .error ⟨.identifierTooLong 129, .start⟩ := by
  decide +kernel

end Lexer

end PackageScan
