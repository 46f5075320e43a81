import PackageScan.Proofs.Rule.Tiling
import PackageScan.Proofs.RuleSet.Joining
import PackageScan.Proofs.Source.Quoting

/-!
# Spacing does not matter

White space and comments keep tokens apart and do nothing else. Any gap of a source may be replaced
by any other text that is a gap, as long as it is not empty and its last comment is closed: the
tokens are the same, and with them the rules up to their places and the compiled rule set
(`Lexer.tokenize_respaced`).

Two facts carry this. A text that is a gap is skipped as far as what follows it is
(`Gap.IsGap.skips`), the converse of what tilings rest on. And a gap begins with white space or with
a slash, so it ends a token wherever that ended before (`Gap.IsGap.endsLike`): numbers, words and
flags, whose ends are found by looking at what follows, as well as literals after an equals sign.
-/

namespace PackageScan

/-! ### Gaps are skipped -/

namespace Gap

variable {rest stop : List Char}

/-- A comment up to the end of its line, from inside. -/
private theorem skips_line {body : List Char} (hbody : '\n' ∉ body) (h : Skips .blank rest stop) :
    Skips .line (body ++ '\n' :: rest) stop := by
  induction body with
  | nil => exact .line h
  | cons c body ih =>
    rw [List.mem_cons, not_or] at hbody
    have hc : c ≠ '\n' := fun he => hbody.1 he.symm
    refine .line ?_
    rw [if_neg hc]
    exact ih hbody.2

/-- A comment that is closed, from inside. -/
private theorem skips_block {body : List Char} (hbody : ¬ ['*', '/'] <:+: body)
    (h : Skips .blank rest stop) : Skips (.block 0) (body ++ '*' :: '/' :: rest) stop := by
  induction body with
  | nil => exact .block (.closing h)
  | cons c body ih =>
    rw [List.infix_cons_iff, not_or, List.cons_prefix_cons] at hbody
    rw [List.cons_append]
    refine .block ?_
    -- an asterisk of the text is not followed by a slash, be it the last one
    have hopen : ¬(c = '*' ∧ (body ++ '*' :: '/' :: rest).head? = some '/') := by
      rintro ⟨rfl, hslash⟩
      cases body with
      | nil => exact absurd (Option.some.inj hslash) (by decide)
      | cons d body =>
        cases Option.some.inj hslash
        exact hbody.1 ⟨rfl, List.cons_prefix_cons.mpr ⟨rfl, List.nil_prefix⟩⟩
    rw [if_neg hopen]
    exact ih hbody.2

/-- **A gap is skipped.** A gap whose comments are closed is skipped together with the one that
follows it. -/
theorem IsGap.skips {gap : List Char} (hgap : IsGap false gap) (h : Skips .blank rest stop) :
    Skips .blank (gap ++ rest) stop := by
  induction hgap with
  | nil => exact h
  | blank hblank _ ih => exact .blank hblank ih
  | @line body cs hbody _ ih =>
    have hslash : '\n' ∉ '/' :: body := by
      rw [List.mem_cons, not_or]
      exact ⟨by decide, hbody⟩
    have hsplit : '/' :: '/' :: (body ++ '\n' :: cs) ++ rest =
        '/' :: ('/' :: body ++ '\n' :: (cs ++ rest)) := by simp
    rw [hsplit]
    exact .openLine rfl (skips_line hslash ih)
  | lastLine hlast => exact nomatch hlast
  | @block body cs hbody _ ih =>
    have hsplit : '/' :: '*' :: (body ++ '*' :: '/' :: cs) ++ rest =
        '/' :: '*' :: (body ++ '*' :: '/' :: (cs ++ rest)) := by simp
    rw [hsplit]
    exact .openBlock rfl (.opening (skips_block hbody ih))

/-- A gap that is not empty ends whatever token comes before it. -/
theorem IsGap.endsLike {isLast : Bool} {gap : List Char} (hgap : IsGap isLast gap)
    (hne : gap ≠ []) (next rest : List Char) : EndsLike next (gap ++ rest) := by
  intro c hc
  cases hgap with
  | nil => exact absurd rfl hne
  | blank hblank =>
    cases Option.some.inj hc
    exact .inr (.inl hblank)
  | line | lastLine | block =>
    cases Option.some.inj hc
    exact .inr (.inr rfl)

/-- A gap between tokens may be the last one. -/
theorem IsGap.mono {gap : List Char} (hgap : IsGap false gap) : IsGap true gap := by
  induction hgap with
  | nil => exact .nil
  | blank hblank _ ih => exact .blank hblank ih
  | line hbody _ ih => exact .line hbody ih
  | lastLine hlast => exact nomatch hlast
  | block hbody _ ih => exact .block hbody ih

end Gap

/-! ### The texts of tokens -/

namespace Lexer

variable {source before cs : List Char} {seen : List Token} {ts : List (Located Token)}

/-- The texts of the tokens in a source, with the given gaps before, between and after them. -/
def respaced (source : List Char) : List (List Char) → List (Located Token) → List Char
  | gap :: gaps, t :: ts => gap ++ Source.textOf source t.span ++ respaced source gaps ts
  | gaps, _ => gaps.flatten

/-- A source is the texts of its tokens and the gaps that it has. -/
private theorem Tiles.exists_gaps (h : Tiles before ts cs) (hsource : source = before ++ cs) :
    ∃ gaps, gaps.length = ts.length + 1 ∧ (∀ gap ∈ gaps, Gap.IsGap true gap) ∧
      respaced source gaps ts = cs := by
  induction h with
  | @gap before gap hgap =>
    exact ⟨[gap], rfl, List.forall_mem_singleton.mpr hgap, List.append_nil gap⟩
  | @token before gap stretch cs t ts hgap hne _ ih =>
    obtain ⟨gaps, hlength, hgaps, hrest⟩ := ih (by rw [hsource]; simp only [List.append_assoc])
    refine ⟨gap :: gaps, congrArg (· + 1) hlength, List.forall_mem_cons.mpr ⟨hgap.mono, hgaps⟩, ?_⟩
    have htext : Source.textOf source (.covering (before ++ gap) stretch) = stretch := by
      have hsplit : source = before ++ gap ++ (stretch ++ cs) := by
        rw [hsource]
        simp only [List.append_assoc]
      rw [hsplit, Source.textOf_covering]
    rw [respaced, htext, hrest]

/-- Respaced text begins with a gap, and so ends a token before it. -/
private theorem endsLike_respaced {gaps : List (List Char)} (hlength : gaps.length = ts.length + 1)
    (hgaps : ∀ gap ∈ gaps, gap ≠ [] ∧ Gap.IsGap false gap) (next : List Char) :
    EndsLike next (respaced source gaps ts) := by
  match gaps, ts with
  | gap :: gaps, t :: ts =>
    obtain ⟨hne, hgap⟩ := hgaps gap List.mem_cons_self
    rw [respaced, List.append_assoc]
    exact hgap.endsLike hne next _
  | gap :: gaps, [] =>
    obtain ⟨hne, hgap⟩ := hgaps gap List.mem_cons_self
    exact hgap.endsLike hne next gaps.flatten

/-- A slash alone is no token. -/
private theorem read_slash_ne_ok {due : Bool} {r : Token × Nat} :
    Token.read due '/' [] ≠ .ok r := by
  cases due <;> exact nofun

/-- **Tokens are read from other gaps.** A text that has been cut into tokens lexes as them whatever
gaps there are, if none of them is empty. -/
theorem Cuts.lexes_respaced (h : Cuts seen before ts cs) (hsource : source = before ++ cs)
    {gaps : List (List Char)} (hlength : gaps.length = ts.length + 1)
    (hgaps : ∀ gap ∈ gaps, gap ≠ [] ∧ Gap.IsGap false gap) :
    Lexes seen (respaced source gaps ts) (ts.map Located.value) := by
  induction h generalizing gaps with
  | done =>
    obtain ⟨gap, rfl⟩ := List.length_eq_one_iff.mp hlength
    obtain ⟨-, hgap⟩ := hgaps gap List.mem_cons_self
    have hskips : Gap.Skips .blank (gap ++ []) [] := hgap.skips .blankEnd
    exact .done hskips
  | @token seen before gap taken cs c t ts hskips hread _ ih =>
    obtain ⟨gap', gaps, rfl⟩ := List.exists_cons_of_length_eq_add_one hlength
    obtain ⟨⟨-, hgap⟩, hgaps⟩ := List.forall_mem_cons.mp hgaps
    have hlength : gaps.length = ts.length + 1 := Nat.succ.inj hlength
    have hsplit : source = before ++ gap ++ (c :: taken ++ cs) := by
      rw [hsource]
      simp only [List.append_assoc]
    have hrest : Lexes (t :: seen) (respaced source gaps ts) (ts.map Located.value) :=
      ih (by rw [hsplit]; simp only [List.append_assoc]) hlength hgaps
    have hmore : EndsLike cs (respaced source gaps ts) := endsLike_respaced hlength hgaps cs
    have hstops : Gap.Skips .blank (c :: (taken ++ respaced source gaps ts))
        (c :: (taken ++ respaced source gaps ts)) := by
      obtain ⟨hblank, hline, hblock⟩ := hskips.stops
      cases taken with
      | nil =>
        -- no comment begins with a token of one character, for that is not a slash
        have hc : c ≠ '/' := by
          rintro rfl
          exact read_slash_ne_ok (hread [] fun _ h => nomatch h)
        exact .stop hblank (fun h => hc h.1) fun h => hc h.1
      | cons d taken => exact .stop hblank hline hblock
    have htext : respaced source (gap' :: gaps)
        (⟨t, .covering (before ++ gap) (c :: taken)⟩ :: ts) =
          gap' ++ c :: (taken ++ respaced source gaps ts) := by
      rw [respaced, hsplit, Source.textOf_covering, List.append_assoc]
      rfl
    rw [htext]
    refine .token (hgap.skips hstops) (hread _ hmore) ?_
    rw [drop_taken]
    exact hrest

end Lexer

/-! ### Sources -/

/-- The rules of a source with other places. -/
private theorem Parser.exists_parse_of_values {stream stream' : TokenStream} {rules : List RuleDecl}
    (hvalues : stream'.values = stream.values) (h : Parser.parse stream = .ok rules) :
    ∃ rules', Parser.parse stream' = .ok rules' ∧
      rules'.map RuleDecl.bare = rules.map RuleDecl.bare := by
  obtain ⟨rules', hform, hbare⟩ := Grammar.placeless_source hvalues (Parser.parse_eq_ok.mp h)
  exact ⟨rules', Parser.parse_eq_ok.mpr hform, hbare⟩

/-- A source with the tokens of an accepted one is accepted and leads to the same rule set. -/
private theorem Compiler.exists_outcome_of_values {c : Compiler} {source source' : String}
    {stream stream' : TokenStream} {set : RuleSet} {rules : List RuleDecl}
    (hread : Lexer.tokenize source = .ok stream) (hread' : Lexer.tokenize source' = .ok stream')
    (hvalues : stream'.values = stream.values) (h : c.outcome source = .ok (set, rules)) :
    ∃ rules', c.outcome source' = .ok (set, rules') := by
  obtain ⟨tokens, htokens, hparse, hcheck, hpush⟩ := Compiler.outcome_eq_ok.mp h
  cases htokens.symm.trans hread
  obtain ⟨rules', hparse', hbare⟩ := Parser.exists_parse_of_values hvalues hparse
  -- neither the checks nor the compilation look at places
  have hcheck' : Validation.check rules' c.declared c.preferences.rejectUnreferenced = .ok () := by
    rw [Validation.check_eq_ok] at hcheck ⊢
    have hlength : rules'.length = rules.length := by
      simpa using congrArg List.length hbare
    rw [hlength, ← Validation.checkRules_bare, hbare, Validation.checkRules_bare]
    exact hcheck
  have hpush' : c.set.pushAll c.preferences.programLimit rules' = .ok set := by
    rw [← RuleSet.pushAll_bare, hbare, RuleSet.pushAll_bare]
    exact hpush
  exact ⟨rules', Compiler.outcome_eq_ok.mpr ⟨stream', hread', hparse', hcheck', hpush'⟩⟩

namespace Lexer

/-- **Spacing does not matter.** A source that is read is the texts of its tokens with gaps before,
between and after them. With any other gaps that are closed and not empty it is read as the same
tokens, if it is not too large. These write the same rules up to their places, if any, and whatever
a compiler holds already, it comes to the same rule set with both, if it accepts them. -/
theorem tokenize_respaced {source : String} {stream : TokenStream}
    (h : tokenize source = .ok stream) :
    (∃ gaps, gaps.length = stream.tokens.length + 1 ∧ (∀ gap ∈ gaps, Gap.IsGap true gap) ∧
      respaced source.toList gaps stream.tokens = source.toList) ∧
    ∀ (gaps : List (List Char)) (source' : String), gaps.length = stream.tokens.length + 1 →
      (∀ gap ∈ gaps, gap ≠ [] ∧ Gap.IsGap false gap) →
      source'.toList = respaced source.toList gaps stream.tokens →
      source'.utf8ByteSize ≤ Limits.sourceSize →
      ∃ stream', tokenize source' = .ok stream' ∧ stream'.values = stream.values ∧
        ((Parser.parse stream').map (List.map RuleDecl.bare)).toOption =
          ((Parser.parse stream).map (List.map RuleDecl.bare)).toOption ∧
        ∀ c : Compiler, ((c.outcome source').map Prod.fst).toOption =
          ((c.outcome source).map Prod.fst).toOption := by
  obtain ⟨hcuts, -⟩ := cuts_of_tokenize h
  obtain ⟨-, hcount, -⟩ := lexes_of_tokenize h
  refine ⟨hcuts.tiles.exists_gaps rfl, fun gaps source' hlength hgaps hsource hsize => ?_⟩
  have hlexes : Lexes [] source'.toList stream.values := by
    rw [hsource]
    exact hcuts.lexes_respaced rfl hlength hgaps
  have hvaluesCount : stream.values.length ≤ Limits.tokenCount := by
    rw [TokenStream.values, List.length_map]
    exact hcount
  obtain ⟨stream', hread', hvalues⟩ := exists_tokenize hsize hvaluesCount hlexes
  refine ⟨stream', hread', hvalues, ?_, fun c => ?_⟩
  · refine Outcome.toOption_map_eq (fun rules hparse => ?_) fun rules hparse => ?_
    · exact Parser.exists_parse_of_values hvalues.symm hparse
    · exact Parser.exists_parse_of_values hvalues hparse
  · refine Outcome.toOption_map_eq (fun r houtcome => ?_) fun r houtcome => ?_
    · obtain ⟨rules, hrules⟩ :=
        Compiler.exists_outcome_of_values hread' h hvalues.symm houtcome
      exact ⟨_, hrules, rfl⟩
    · obtain ⟨rules, hrules⟩ := Compiler.exists_outcome_of_values h hread' hvalues houtcome
      exact ⟨_, hrules, rfl⟩

/-- A rule in which a regular expression follows right after an equals sign, and numbers, names and
marks right after one another. -/
def crowded : String := "rule a\x7bstrings:$x=/b/i\ncondition:#x>1\x7d"

/-- Its tokens. -/
def crowdedTokens : TokenStream := (tokenize crowded).toOption.getD ⟨[], .start⟩

/-- A comment before each of its tokens, with the beginnings of both kinds in it, and one up to the
end of a line after the last. -/
def comments : List (List Char) :=
  List.replicate 14 ('/' :: '*' :: (['/', '/'] ++ ['*', '/'])) ++
    ['/' :: '/' :: (['*'] ++ ['\n'])]

/-- The rule with these comments. -/
def spacious : String := String.ofList (respaced crowded.toList comments crowdedTokens.tokens)

/-- The comments are no part of the rule. -/
theorem tokenize_respaced_crowded :
    tokenize crowded = .ok crowdedTokens ∧
    ∃ stream, tokenize spacious = .ok stream ∧ stream.values = crowdedTokens.values ∧
      ∀ c : Compiler, ((c.outcome spacious).map Prod.fst).toOption =
        ((c.outcome crowded).map Prod.fst).toOption := by
  have hread : tokenize crowded = .ok crowdedTokens := by decide +kernel
  have hgaps : ∀ gap ∈ comments, gap ≠ [] ∧ Gap.IsGap false gap := by
    rw [comments, List.forall_mem_append]
    refine ⟨List.forall_mem_replicate.mpr (.inr ⟨by decide, .block (by decide) .nil⟩), ?_⟩
    exact List.forall_mem_singleton.mpr ⟨by decide, .line (by decide) .nil⟩
  obtain ⟨stream, hstream, hvalues, -, hcompiled⟩ :=
    (tokenize_respaced hread).2 comments spacious (by decide +kernel) hgaps String.toList_ofList
      (by decide +kernel)
  exact ⟨hread, stream, hstream, hvalues, hcompiled⟩

end Lexer

end PackageScan
