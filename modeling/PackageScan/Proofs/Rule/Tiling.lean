import PackageScan.Proofs.Rule.Lexing
import PackageScan.Proofs.Source.Places

/-!
# Tokens tile the source

A source that has been tokenized is its tokens and the gaps between them, one after another and
with nothing left over (`Lexer.Tiles`). What counts as a gap is said here as a text, without the
modes of the reader: white space and complete comments (`Gap.IsGap`). Only the gap at the end of a
source may end in a comment that no line break closes.

The reader keeps no text before the place it stands at. The invariant that carries the induction
is that its place is the one after the text that has been read (`Position.after`), so that every
recorded place is true. Together with the place of a token the run says what the token is read
from (`Lexer.Cuts`).
-/

namespace PackageScan

/-! ### Gaps as texts -/

namespace Gap

/-- White space and complete comments. A comment up to the end of its line is complete without the
line break if the gap is the last one. -/
inductive IsGap (isLast : Bool) : List Char → Prop
  | nil : IsGap isLast []
  | blank {c : Char} {cs : List Char} : Text.isBlank c = true → IsGap isLast cs →
      IsGap isLast (c :: cs)
  | line {body cs : List Char} : '\n' ∉ body → IsGap isLast cs →
      IsGap isLast ('/' :: '/' :: (body ++ '\n' :: cs))
  | lastLine {body : List Char} : isLast = true → '\n' ∉ body →
      IsGap isLast ('/' :: '/' :: body)
  | block {body cs : List Char} : ¬ ['*', '/'] <:+: body → IsGap isLast cs →
      IsGap isLast ('/' :: '*' :: (body ++ '*' :: '/' :: cs))

/-- What a gap that has been entered in the given mode goes over. -/
def Mode.GoesOver (isLast : Bool) : Mode → List Char → Prop
  | .blank, gap => IsGap isLast gap
  | .line, gap =>
    (∃ body cs, gap = body ++ '\n' :: cs ∧ '\n' ∉ body ∧ IsGap isLast cs) ∨
      isLast = true ∧ '\n' ∉ gap
  | .opening _, gap =>
    ∃ c body cs, gap = c :: (body ++ '*' :: '/' :: cs) ∧ ¬ ['*', '/'] <:+: body ∧
      IsGap isLast cs
  | .block _, gap =>
    ∃ body cs, gap = body ++ '*' :: '/' :: cs ∧ ¬ ['*', '/'] <:+: body ∧ IsGap isLast cs
  | .closing, gap => (∃ c cs, gap = c :: cs ∧ IsGap isLast cs) ∨ isLast = true ∧ gap = []

variable {gap rest : List Char}

/-- The first character of a comment up to the end of its line is the second slash. -/
private theorem isGap_openLine (hnext : (gap ++ rest).head? = some '/')
    (h : Mode.GoesOver rest.isEmpty .line gap) : IsGap rest.isEmpty ('/' :: gap) := by
  rcases h with ⟨body, cs, rfl, hbody, hcs⟩ | ⟨hlast, hgap⟩
  · cases body with
    | nil => exact absurd (Option.some.inj hnext) (by decide)
    | cons c body =>
      cases Option.some.inj hnext
      exact .line (fun hmem => hbody (List.mem_cons_of_mem _ hmem)) hcs
  · cases gap with
    | nil =>
      rw [List.isEmpty_iff.mp hlast] at hnext
      exact nomatch hnext
    | cons c gap =>
      cases Option.some.inj hnext
      exact .lastLine hlast fun hmem => hgap (List.mem_cons_of_mem _ hmem)

/-- One character more of a comment that is closed, if it does not close the comment. -/
private theorem notInfix_cons {c : Char} {body cs : List Char}
    (hc : ¬ (c = '*' ∧ (body ++ '*' :: cs).head? = some '/')) (hbody : ¬ ['*', '/'] <:+: body) :
    ¬ ['*', '/'] <:+: c :: body := by
  rw [List.infix_cons_iff, List.cons_prefix_cons, not_or]
  refine ⟨?_, hbody⟩
  rintro ⟨rfl, hslash⟩
  cases body with
  | nil => exact absurd (List.prefix_nil.mp hslash) (List.cons_ne_nil _ _)
  | cons d body =>
    obtain ⟨rfl, -⟩ := List.cons_prefix_cons.mp hslash
    exact hc ⟨rfl, rfl⟩

/-- **A skipped gap is a gap.** What has been skipped consists of white space and complete
comments; it is the last gap if nothing is left. -/
theorem Skips.exists_goesOver {m : Mode} {cs rest : List Char} (h : Skips m cs rest) :
    ∃ gap, cs = gap ++ rest ∧ m.GoesOver rest.isEmpty gap := by
  induction h with
  | blankEnd => exact ⟨[], rfl, IsGap.nil⟩
  | lineEnd => exact ⟨[], rfl, Or.inr ⟨rfl, List.not_mem_nil⟩⟩
  | closingEnd => exact ⟨[], rfl, Or.inr ⟨rfl, rfl⟩⟩
  | stop => exact ⟨[], rfl, IsGap.nil⟩
  | @blank c _ _ hb _ ih =>
    obtain ⟨gap, rfl, hgap⟩ := ih
    exact ⟨c :: gap, rfl, IsGap.blank hb hgap⟩
  | openLine hnext _ ih =>
    obtain ⟨gap, rfl, hgap⟩ := ih
    exact ⟨'/' :: gap, rfl, isGap_openLine hnext hgap⟩
  | openBlock hnext _ ih =>
    obtain ⟨gap, rfl, c, body, cs, rfl, hbody, hcs⟩ := ih
    cases Option.some.inj hnext
    exact ⟨'/' :: '*' :: (body ++ '*' :: '/' :: cs), rfl, IsGap.block hbody hcs⟩
  | @line c _ _ _ ih =>
    obtain ⟨gap, rfl, hgap⟩ := ih
    refine ⟨c :: gap, rfl, ?_⟩
    split_ifs at hgap with hc
    · exact Or.inl ⟨[], gap, by rw [hc, List.nil_append], List.not_mem_nil, hgap⟩
    · have hnotMem {body : List Char} (hbody : '\n' ∉ body) : '\n' ∉ c :: body := by
        rw [List.mem_cons, not_or]
        exact ⟨fun he => hc he.symm, hbody⟩
      rcases hgap with ⟨body, cs, rfl, hbody, hcs⟩ | ⟨hlast, hgap⟩
      · exact Or.inl ⟨c :: body, cs, rfl, hnotMem hbody, hcs⟩
      · exact Or.inr ⟨hlast, hnotMem hgap⟩
  | @opening c _ _ _ ih =>
    obtain ⟨gap, rfl, body, cs, rfl, hbody, hcs⟩ := ih
    exact ⟨c :: (body ++ '*' :: '/' :: cs), rfl, c, body, cs, rfl, hbody, hcs⟩
  | @block c _ rest _ ih =>
    obtain ⟨gap, rfl, hgap⟩ := ih
    refine ⟨c :: gap, rfl, ?_⟩
    split_ifs at hgap with hc
    · obtain ⟨rfl, hnext⟩ := hc
      rcases hgap with ⟨d, cs, rfl, hcs⟩ | ⟨hlast, rfl⟩
      · cases Option.some.inj hnext
        exact ⟨[], cs, rfl, by simp, hcs⟩
      · rw [List.isEmpty_iff.mp hlast] at hnext
        exact nomatch hnext
    · obtain ⟨body, cs, rfl, hbody, hcs⟩ := hgap
      refine ⟨c :: body, cs, rfl, ?_, hcs⟩
      rw [List.append_assoc, List.cons_append] at hc
      exact notInfix_cons hc hbody
  | @closing c _ _ _ ih =>
    obtain ⟨gap, rfl, hgap⟩ := ih
    exact ⟨c :: gap, rfl, Or.inl ⟨c, gap, rfl, hgap⟩⟩

/-- What is skipped before a rest of the text is a gap. -/
private theorem Skips.isGap (h : Skips .blank (gap ++ rest) rest) : IsGap rest.isEmpty gap := by
  obtain ⟨gap', hsplit, hgap⟩ := h.exists_goesOver
  rw [List.append_cancel_right hsplit]
  exact hgap

end Gap

/-! ### Tilings -/

namespace Lexer

/-- `Tiles before ts cs`: after the text `before`, the text `cs` is the tokens `ts` with gaps
before, between and after them. Each token stands where a stretch that is not empty does. -/
inductive Tiles : List Char → List (Located Token) → List Char → Prop
  | gap {before gap : List Char} : Gap.IsGap true gap → Tiles before [] gap
  | token {before gap stretch cs : List Char} {t : Token} {ts : List (Located Token)} :
      Gap.IsGap false gap → stretch ≠ [] → Tiles (before ++ gap ++ stretch) ts cs →
      Tiles before (⟨t, .covering (before ++ gap) stretch⟩ :: ts) (gap ++ stretch ++ cs)

variable {before cs : List Char} {ts : List (Located Token)}

/-- Each token stands where some stretch of the text does that is not empty. -/
private theorem Tiles.exists_stretch (h : Tiles before ts cs) :
    ∀ t ∈ ts, ∃ gap stretch rest, cs = gap ++ (stretch ++ rest) ∧ stretch ≠ [] ∧
      t.span = .covering (before ++ gap) stretch := by
  induction h with
  | gap => exact fun _ h => nomatch h
  | @token before gap stretch cs t ts _ hne _ ih =>
    refine List.forall_mem_cons.mpr ⟨?_, fun u hu => ?_⟩
    · exact ⟨gap, stretch, cs, List.append_assoc .., hne, rfl⟩
    · obtain ⟨gap', stretch', rest, rfl, hne', hspan⟩ := ih u hu
      refine ⟨gap ++ stretch ++ gap', stretch', rest, by simp, hne', ?_⟩
      rw [hspan]
      simp only [List.append_assoc]

/-- The tokens of a source stand in it and take a byte at least. -/
theorem Tiles.isIn (h : Tiles [] ts cs) :
    ∀ t ∈ ts, t.span.IsIn cs ∧ t.span.start.offset < t.span.stop.offset := by
  intro t ht
  obtain ⟨gap, stretch, rest, hsplit, hne, hspan⟩ := h.exists_stretch t ht
  rw [hspan]
  exact ⟨⟨gap, stretch, rest, hsplit, rfl⟩, Span.covering_start_lt_stop _ hne⟩

/-- The tokens stand one after another. -/
private theorem Tiles.pairwise (h : Tiles before ts cs) :
    ts.Pairwise fun t u => t.span.stop.offset ≤ u.span.start.offset := by
  induction h with
  | gap => exact List.Pairwise.nil
  | token _ _ hts ih =>
    refine List.Pairwise.cons (fun u hu => ?_) ih
    obtain ⟨gap, stretch, rest, -, -, hspan⟩ := hts.exists_stretch u hu
    rw [hspan]
    exact Span.covering_start_le_stop _ gap

/-- `Cuts seen before ts cs`: after the tokens `seen`, the latest first, and the text `before`, the
text `cs` is cut into the tokens `ts`. Before each a gap is skipped, and whatever may follow it, it
is read from the characters that it covers. -/
inductive Cuts : List Token → List Char → List (Located Token) → List Char → Prop
  | done {seen : List Token} {before gap : List Char} : Gap.Skips .blank gap [] →
      Cuts seen before [] gap
  | token {seen : List Token} {before gap taken cs : List Char} {c : Char} {t : Token}
      {ts : List (Located Token)} :
      Gap.Skips .blank (gap ++ c :: (taken ++ cs)) (c :: (taken ++ cs)) →
      (∀ more, EndsLike cs more →
        Token.read (isDue seen) c (taken ++ more) = .ok (t, 1 + taken.length)) →
      Cuts (t :: seen) (before ++ gap ++ c :: taken) ts cs →
      Cuts seen before (⟨t, .covering (before ++ gap) (c :: taken)⟩ :: ts)
        (gap ++ c :: taken ++ cs)

/-- A text that is cut is tiled. -/
theorem Cuts.tiles {seen : List Token} (h : Cuts seen before ts cs) : Tiles before ts cs := by
  induction h with
  | @done seen before gap hskips =>
    have hlast : Gap.Skips .blank (gap ++ []) [] := by rwa [List.append_nil]
    exact .gap hlast.isGap
  | token hskips _ _ ih => exact .token hskips.isGap (List.cons_ne_nil _ _) ih

/-- **A run of the scanner.** What is scanned after a text cuts the rest of the source. -/
theorem cuts_of_scanFrom {budget : Nat} {position : Position} {seen : List (Located Token)}
    {metrics metrics' : LexMetrics} {stream : TokenStream}
    (h : scanFrom budget cs position seen metrics = (metrics', .ok stream)) :
    ∀ before, position = .after before →
      ∃ ts, stream.tokens = seen.reverse ++ ts ∧ Cuts (seen.map Located.value) before ts cs ∧
        stream.stop = .after (before ++ cs) := by
  fun_induction scanFrom budget cs position seen metrics with
  | case1 | case3 | case4 => cases congrArg Prod.snd h
  | case2 budget cs position seen metrics gap _ hclosed start hend =>
    intro before hposition
    obtain ⟨-, hskips⟩ := Gap.skips_of_read hclosed
    rw [Nat.sub_zero, show cs.drop (Gap.read .blank 0 0 cs).width = [] from hend] at hskips
    -- nothing is left after the gap
    have hcs : cs.take gap.width = cs := by
      have hsplit := List.take_append_drop gap.width cs
      rwa [hend, List.append_nil] at hsplit
    cases h
    refine ⟨[], (List.append_nil _).symm, .done hskips, ?_⟩
    rw [show start = position.advanceAll (cs.take gap.width) from rfl, hcs, hposition,
      Position.advanceAll_after]
  | case5 cs position seen metrics gap _ hclosed start c rest hrest budget due _ t w hread stop
      ih =>
    intro before hposition
    obtain ⟨-, hskips⟩ := Gap.skips_of_read hclosed
    rw [Nat.sub_zero, show cs.drop (Gap.read .blank 0 0 cs).width = c :: rest from hrest] at hskips
    -- what is left is the gap, the characters that the token takes, and what is read after them
    obtain ⟨taken, next, rfl, rfl, hsettled⟩ := Token.read_settled _ _ hread
    have hsplit : cs = cs.take gap.width ++ c :: (taken ++ next) := by
      rw [← hrest, List.take_append_drop]
    have htake : (c :: (taken ++ next)).take (1 + taken.length) = c :: taken := by
      rw [Nat.add_comm, List.take_succ_cons, List.take_left]
    have hstart : start = .after (before ++ cs.take gap.width) := by
      rw [show start = position.advanceAll (cs.take gap.width) from rfl, hposition,
        Position.advanceAll_after]
    have hstop : stop = .after (before ++ cs.take gap.width ++ c :: taken) := by
      rw [show stop = start.advanceAll ((c :: (taken ++ next)).take (1 + taken.length)) from rfl,
        htake, hstart, Position.advanceAll_after]
    obtain ⟨ts, htokens, hcuts, hend⟩ := ih h _ hstop
    rw [drop_taken] at hcuts hend
    refine ⟨⟨t, ⟨start, stop⟩⟩ :: ts, ?_, ?_, ?_⟩
    · rw [htokens, List.reverse_cons, List.append_assoc, List.singleton_append]
    · have hspan : (⟨start, stop⟩ : Span) =
          .covering (before ++ cs.take gap.width) (c :: taken) := by
        rw [hstart, hstop, Span.covering]
      rw [hsplit] at hskips
      rw [show due = isDue (seen.map Located.value) from valueNext_eq seen] at hsettled
      have hcut := Cuts.token hskips hsettled hcuts
      rwa [← hspan, List.append_assoc, List.cons_append, ← hsplit] at hcut
    · rw [hend]
      refine congrArg Position.after ?_
      rw [List.append_assoc, List.append_assoc, List.cons_append, ← hsplit]

/-- The tokens of a source and the place where it ends are where they should be. -/
structure IsTiling (source : String) (stream : TokenStream) : Prop where
  /-- The source is the tokens with gaps before, between and after them. -/
  tiles : Tiles [] stream.tokens source.toList
  /-- A token stands where a stretch of the source does and takes at least one byte. -/
  isIn : ∀ t ∈ stream.tokens, t.span.IsIn source.toList ∧
    t.span.start.offset < t.span.stop.offset
  /-- The tokens are in order, and none overlaps another. -/
  pairwise : stream.tokens.Pairwise fun t u => t.span.stop.offset ≤ u.span.start.offset
  /-- The place where the source ends is the place after all of it. -/
  stop_eq : stream.stop = .after source.toList
  /-- No count of a place in the source is out of thirty-two bits. -/
  fits : ∀ before, before <+: source.toList → (Position.after before).Fits

/-- The places of a source that keeps to the limit can be counted in thirty-two bits. -/
theorem fits_of_size_le {source : String} (h : source.utf8ByteSize ≤ Limits.sourceSize)
    {before : List Char} (hbefore : before <+: source.toList) : (Position.after before).Fits := by
  obtain ⟨rest, hrest⟩ := hbefore
  have hsize : Source.byteLength before + Source.byteLength rest ≤ Limits.sourceSize := by
    rw [← Source.byteLength_append, hrest, Source.byteLength_toList]
    exact h
  have hlimit : Limits.sourceSize + 1 < 2 ^ 32 := by decide
  obtain ⟨hoffset, hline, hcolumn⟩ := Position.after_le before
  refine ⟨?_, ?_, ?_⟩ <;> omega

/-- A source that is read is cut, and it is read up to its end. -/
theorem cuts_of_tokenize {source : String} {stream : TokenStream}
    (h : tokenize source = .ok stream) :
    Cuts [] [] stream.tokens source.toList ∧ stream.stop = .after source.toList := by
  obtain ⟨hsize, -, -⟩ := lexes_of_tokenize h
  rw [tokenize, scan, if_neg (Nat.not_lt.mpr hsize)] at h
  obtain ⟨ts, htokens, hcuts, hstop⟩ :=
    cuts_of_scanFrom (Prod.ext rfl h) [] (Position.advanceAll_start [])
  rw [List.reverse_nil, List.nil_append] at htokens
  rw [← htokens] at hcuts
  exact ⟨hcuts, hstop⟩

/-- A source that is read is tiled, and it is read up to its end. -/
theorem tiles_of_tokenize {source : String} {stream : TokenStream}
    (h : tokenize source = .ok stream) :
    Tiles [] stream.tokens source.toList ∧ stream.stop = .after source.toList := by
  obtain ⟨hcuts, hstop⟩ := cuts_of_tokenize h
  exact ⟨hcuts.tiles, hstop⟩

/-- **Tokens tile the source.** In a source that is read, the tokens stand in order with nothing but
gaps between them, each where some characters of the source do, and all places are true. -/
theorem isTiling_of_tokenize {source : String} {stream : TokenStream}
    (h : tokenize source = .ok stream) : IsTiling source stream := by
  obtain ⟨htiles, hstop⟩ := tiles_of_tokenize h
  obtain ⟨hsize, -, -⟩ := lexes_of_tokenize h
  exact ⟨htiles, htiles.isIn, htiles.pairwise, hstop, fun _ => fits_of_size_le hsize⟩

/-- A source with a comment of either kind, the first one around a letter of two bytes. -/
def commented : String := "/* é */rule\n\ta// end"

/-- The tokens of this source. The comment up to its end is part of the last gap. -/
def commentedTokens : TokenStream where
  tokens :=
    [⟨.keyword .rule, ⟨⟨8, 1, 8⟩, ⟨12, 1, 12⟩⟩⟩, ⟨.identifier "a", ⟨⟨14, 2, 2⟩, ⟨15, 2, 3⟩⟩⟩]
  stop := ⟨21, 2, 9⟩

/-- The tokens tile this source. -/
theorem isTiling_of_tokenize_commented :
    tokenize commented = .ok commentedTokens ∧ IsTiling commented commentedTokens := by
  have hread : tokenize commented = .ok commentedTokens := by decide +kernel
  exact ⟨hread, isTiling_of_tokenize hread⟩

end Lexer

end PackageScan
