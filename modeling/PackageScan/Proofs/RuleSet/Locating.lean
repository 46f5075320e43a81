import PackageScan.Proofs.Rule.ErrorPlaces
import PackageScan.Proofs.Rule.Spans
import PackageScan.Proofs.RuleSet.Agreement
import PackageScan.Proofs.Source.Quoting

/-!
# Rejected sources are located

Whatever stage rejects a source, the error points at a stretch of it
(`CompilationError.IsLocated`): the reader of tokens at a place, the reader of rules at a token or
at the end, the checks and the compiler at a span of a rule.

Two errors have no place of their own to fall back on. One is about the number of rules: its span
is that of the first rule that is too many, which is a rule of the source because a compiler never
holds more rules than are allowed. The other is about a name that cannot be resolved, and that does
not happen after the checks (`RuleSet.exists_compile_of_pushAll`). So the claim is about the rule
sets that a compiler can hold (`RuleSet.Built`), that is, about every compiler after any sources.
-/

namespace PackageScan

/-- The error can be shown in the source. -/
structure CompilationError.IsLocated (e : CompilationError) (source : String) : Prop where
  /-- Its span is a stretch of the source, with the true places at both ends. -/
  isIn : e.span.IsIn source.toList
  /-- The start of the span does not come after its end. -/
  start_le_stop : e.span.start.offset ≤ e.span.stop.offset
  /-- Both places can be counted in thirty-two bits. -/
  fits : e.span.start.Fits ∧ e.span.stop.Fits
  /-- The error is reported at the line in which the span starts, counted from one. -/
  line_eq : e.line = e.span.start.line ∧ 1 ≤ e.line
  /-- The error is reported at the column in which the span starts, counted from one. -/
  column_eq : e.column = e.span.start.column ∧ 1 ≤ e.column
  /-- The line with that number is the one that the span starts on, without the carriage returns at
  its end. -/
  line?_eq : ∀ before rest, source.toList = before ++ rest → e.span.start = .after before →
    Source.line? source.toList e.line =
      some (Source.trimReturns (Source.lastLine before ++ Source.firstLine rest))
  /-- It is also found by offsets, without a step that goes wrong. -/
  lineByOffset?_eq : Source.lineByOffset? source.toList e.line =
    some (Source.line? source.toList e.line)
  /-- The diagnostic is computed without a step that goes wrong. -/
  diagnostic_eq : Diagnostic.render? source.toList e.span e.message = some (e.diagnostic source)

/-- All of this comes down to the span being a stretch of the source that can be counted. -/
private theorem CompilationError.isLocated_of_isIn {e : CompilationError} {source : String}
    (h : e.span.IsIn source.toList) (hfits : e.span.start.Fits ∧ e.span.stop.Fits) :
    e.IsLocated source := by
  have hstart : ∃ before, e.span.start = .after before := by
    obtain ⟨before, stretch, rest, -, hspan⟩ := h
    exact ⟨before, congrArg Span.start hspan⟩
  obtain ⟨before, hbefore⟩ := hstart
  have hline : 1 ≤ e.line := by
    rw [line, hbefore]
    exact Nat.succ_pos _
  have hcolumn : 1 ≤ e.column := by
    rw [column, hbefore]
    exact Nat.succ_pos _
  refine ⟨h, (Span.isIn_iff.mp h).2.2, hfits, ⟨rfl, hline⟩, ⟨rfl, hcolumn⟩, ?_, ?_, ?_⟩
  · intro before rest hsplit hbefore
    rw [line, hbefore, hsplit, Source.line?_after]
  · exact Source.lineByOffset?_eq source.toList e.line
  · exact Diagnostic.render?_eq hcolumn source.toList e.message

namespace Compiler

open RuleSet (Built)

variable {c : Compiler} {source : String}

/-- The tokens of a source and its end are where the reader of rules may report. -/
private theorem isIn_of_pointsAt {tokens : TokenStream} {e : SyntaxError}
    (htokens : Lexer.tokenize source = .ok tokens)
    (h : Parser.PointsAt tokens.stop tokens.tokens e) : e.span.IsIn source.toList := by
  obtain ⟨htiles, hstop⟩ := Lexer.tiles_of_tokenize htokens
  rcases h with h | ⟨t, ht, h⟩
  · rw [h, hstop]
    exact Span.isIn_point (Position.isIn_after (List.prefix_refl _))
  · rw [h]
    exact (htiles.isIn t ht).1

/-- **A rejected source.** Whatever is wrong with it is reported at a stretch of it. -/
theorem isIn_of_outcome {limit : Nat} {decls : List RuleDecl} {e : CompilationError}
    (hb : Built limit decls c.set) (h : c.outcome source = .error e) :
    e.span.IsIn source.toList := by
  rw [outcome] at h
  rcases Outcome.bind_eq_error.mp h with h | ⟨tokens, htokens, h⟩
  · -- the reader of tokens
    obtain ⟨fault, hfault, rfl⟩ := Outcome.mapError_eq_error.mp h
    exact Span.isIn_point (Lexer.isIn_of_tokenize_eq_error hfault)
  have htokens := Outcome.mapError_eq_ok.mp htokens
  rcases Outcome.bind_eq_error.mp h with h | ⟨rules, hrules, h⟩
  · -- the reader of rules
    obtain ⟨fault, hfault, rfl⟩ := Outcome.mapError_eq_error.mp h
    exact isIn_of_pointsAt htokens (Parser.pointsAt_of_parse hfault)
  have hform := Parser.sourceForm_of_parse (Outcome.mapError_eq_ok.mp hrules)
  have hin : ∀ rule ∈ rules, rule.IsIn source.toList :=
    hform.isIn fun t ht => ((Lexer.tiles_of_tokenize htokens).1.isIn t ht).1
  rcases Outcome.bind_eq_error.mp h with h | ⟨_, hcheck, h⟩
  · -- the checks
    obtain ⟨fault, hfault, rfl⟩ := Outcome.mapError_eq_error.mp h
    have hroom : c.declared.size ≤ Limits.ruleCount := by
      rw [size_declared hb.nodup_names]
      exact hb.size_le
    exact Validation.isIn_of_check hfault hroom hin
  have hchecked := Validation.check_eq_ok.mp (Outcome.mapError_eq_ok.mp hcheck)
  rcases Outcome.bind_eq_error.mp h with h | ⟨_, -, h⟩
  · -- the compiler
    obtain ⟨fault, hfault, rfl⟩ := Outcome.mapError_eq_error.mp h
    obtain ⟨rule, hrule, decl, hdecl, hcompile⟩ :=
      RuleSet.exists_compile_of_pushAll c.declares hchecked.2 hform.listsItems hfault
    have hspan : fault.span = decl.span := Pattern.span_of_compile hcompile
    rw [CompilationError.span, hspan]
    exact (hin rule hrule).strings decl hdecl
  · cases h

/-- A source that is too large is not looked at, and any other one can be counted. -/
private theorem fits_of_outcome {e : CompilationError} (h : c.outcome source = .error e)
    (hin : e.span.IsIn source.toList) : e.span.start.Fits ∧ e.span.stop.Fits := by
  by_cases hsize : source.utf8ByteSize ≤ Limits.sourceSize
  · obtain ⟨before, stretch, rest, hsplit, hspan⟩ := hin
    have hstart : before <+: source.toList := ⟨stretch ++ rest, hsplit.symm⟩
    have hstop : before ++ stretch <+: source.toList := by
      rw [hsplit, ← List.append_assoc]
      exact List.prefix_append _ _
    rw [hspan]
    exact ⟨Lexer.fits_of_size_le hsize hstart, Lexer.fits_of_size_le hsize hstop⟩
  · rw [outcome, Lexer.tokenize, Lexer.scan, if_pos (Nat.not_le.mp hsize)] at h
    cases h
    have hfits : Position.start.Fits := by
      rw [Position.Fits]
      decide
    exact ⟨hfits, hfits⟩

/-- **Every rejected source is located.** When a compiler that has been given any sources rejects
the next one, the error can be shown in it. -/
theorem isLocated_of_addSource (preferences : CompilerPreferences) (sources : List String)
    (source : String) (j j' : Journal) (e : CompilationError)
    (h : ((((Compiler.addEach { preferences } sources).run j).1.addSource source).run j').1.1 =
      .error e) : e.IsLocated source := by
  let start : Compiler := { preferences }
  have hstart : Built start.preferences.programLimit [] start.set := .empty
  have hb := built_addAll sources hstart
  rw [addEach_yields start sources j, addSource_yields _ source j', add] at h
  dsimp only at h
  cases houtcome : (start.addAll sources).outcome source with
  | error e' =>
    rw [houtcome] at h
    cases h
    have hin := isIn_of_outcome hb houtcome
    exact CompilationError.isLocated_of_isIn hin (fits_of_outcome houtcome hin)
  | ok result =>
    rw [houtcome] at h
    cases h

/-- A source that ends before the colon of its condition. -/
def unfinished : String := "rule a \x7b\r\n\tcondition"

/-- What is wrong with it, reported where it ends. -/
def unfinishedError : CompilationError :=
  .grammar ⟨.endOfInput (.token .colon), .point ⟨20, 2, 11⟩⟩

/-- The error can be shown in this source. -/
theorem isLocated_of_addSource_unfinished :
    (((Compiler.addEach {} []).run {}).1.addSource unfinished |>.run {}).1.1 =
        .error unfinishedError ∧
      unfinishedError.IsLocated unfinished := by
  have hverdict : (({} : Compiler).add unfinished).1 = .error unfinishedError := by
    decide +kernel
  have hrejected : (((Compiler.addEach {} []).run {}).1.addSource unfinished |>.run {}).1.1 =
      .error unfinishedError := by
    rw [addEach_yields {} [] {}, addSource_yields _ unfinished {}]
    exact hverdict
  exact ⟨hrejected, isLocated_of_addSource {} [] unfinished {} {} unfinishedError hrejected⟩

end Compiler

end PackageScan
