import PackageScan.Proofs.Rule.TokenReading

/-!
# Lexing as a relation

What `Lexer.tokenize` does is stated here without positions, counters and budgets: `Lexer.Lexes`
relates characters to the tokens that they are read as, gap by gap and token by token. A source
has tokens exactly if it lexes and keeps to the two limits (`Lexer.lexes_of_tokenize`,
`Lexer.exists_tokenize`).

The relation composes. A line break ends every gap but an open comment, and no token goes over it,
so the tokens of two texts with a line break between them are those of the first and then those of
the second (`Lexer.Lexes.append`). The second text is read after the tokens of the first; this
matters only if they ask for the value of a string (`Lexer.Lexes.after`).
-/

namespace PackageScan

/-- A text that begins with a line break. -/
def BeginsLine (more : List Char) : Prop := more.head? = some '\n'

/-- A line break may follow a token. -/
private theorem EndsLike.append_line {more : List Char} (hm : BeginsLine more) (next : List Char) :
    EndsLike next (next ++ more) := by
  cases next with
  | nil =>
    intro c hc
    cases Option.some.inj (hc.symm.trans hm)
    exact .inr (.inl (by decide))
  | cons c next => exact fun d hd => .inl hd

/-! ### Gaps -/

namespace Gap

/-- The mode without the number of characters before a comment, which only a fault reports. -/
def Mode.forget : Mode → Mode
  | .opening _ => .opening 0
  | .block _ => .block 0
  | m => m

/-- `Skips m cs rest`: a gap that has been entered in the given mode goes over the characters `cs`
up to `rest`, and no comment is left open. -/
inductive Skips : Mode → List Char → List Char → Prop
  | blankEnd : Skips .blank [] []
  | lineEnd : Skips .line [] []
  | closingEnd : Skips .closing [] []
  | stop {c : Char} {cs : List Char} : Text.isBlank c = false →
      ¬ (c = '/' ∧ cs.head? = some '/') → ¬ (c = '/' ∧ cs.head? = some '*') →
      Skips .blank (c :: cs) (c :: cs)
  | blank {c : Char} {cs rest : List Char} : Text.isBlank c = true → Skips .blank cs rest →
      Skips .blank (c :: cs) rest
  | openLine {cs rest : List Char} : cs.head? = some '/' → Skips .line cs rest →
      Skips .blank ('/' :: cs) rest
  | openBlock {cs rest : List Char} : cs.head? = some '*' → Skips (.opening 0) cs rest →
      Skips .blank ('/' :: cs) rest
  | line {c : Char} {cs rest : List Char} :
      Skips (if c = '\n' then .blank else .line) cs rest → Skips .line (c :: cs) rest
  | opening {c : Char} {cs rest : List Char} : Skips (.block 0) cs rest →
      Skips (.opening 0) (c :: cs) rest
  | block {c : Char} {cs rest : List Char} :
      Skips (if c = '*' ∧ cs.head? = some '/' then .closing else .block 0) cs rest →
      Skips (.block 0) (c :: cs) rest
  | closing {c : Char} {cs rest : List Char} : Skips .blank cs rest →
      Skips .closing (c :: cs) rest

private theorem drop_cons_sub {α : Type} {w W : Nat} (h : w + 1 ≤ W) (a : α) (as : List α) :
    (a :: as).drop (W - w) = as.drop (W - (w + 1)) := by
  rw [show W - w = W - (w + 1) + 1 by omega, List.drop_succ_cons]

/-- A gap that is measured and closed has been skipped. -/
theorem skips_of_read {m : Mode} {w k : Nat} {cs : List Char}
    (h : (read m w k cs).unclosed = none) :
    w ≤ (read m w k cs).width ∧ Skips m.forget cs (cs.drop ((read m w k cs).width - w)) := by
  -- one case per branch of the reader; in the first two a comment is not closed
  fun_induction read m w k cs with
  | case1 | case2 => exact nomatch h
  | case3 => exact ⟨Nat.le_refl _, by rw [List.drop_nil]; exact .blankEnd⟩
  | case4 => exact ⟨Nat.le_refl _, by rw [List.drop_nil]; exact .lineEnd⟩
  | case5 => exact ⟨Nat.le_refl _, by rw [List.drop_nil]; exact .closingEnd⟩
  | case6 w k c rest hb ih =>
    obtain ⟨hw, ih⟩ := ih h
    rw [drop_cons_sub hw]
    exact ⟨by omega, .blank hb ih⟩
  | case7 w k c rest hb hopen ih =>
    obtain ⟨hw, ih⟩ := ih h
    obtain ⟨rfl, hnext⟩ := hopen
    rw [drop_cons_sub hw]
    exact ⟨by omega, .openLine hnext ih⟩
  | case8 w k c rest hb hline hopen ih =>
    obtain ⟨hw, ih⟩ := ih h
    obtain ⟨rfl, hnext⟩ := hopen
    rw [drop_cons_sub hw]
    exact ⟨by omega, .openBlock hnext ih⟩
  | case9 w k c rest hb hline hblock =>
    rw [Nat.sub_self]
    exact ⟨Nat.le_refl _, .stop (Bool.eq_false_iff.mpr hb) hline hblock⟩
  | case10 w k c rest ih =>
    obtain ⟨hw, ih⟩ := ih h
    rw [drop_cons_sub hw]
    refine ⟨by omega, .line ?_⟩
    split_ifs at ih ⊢ <;> exact ih
  | case11 w k c rest start ih =>
    obtain ⟨hw, ih⟩ := ih h
    rw [drop_cons_sub hw]
    exact ⟨by omega, .opening ih⟩
  | case12 w k c rest start ih =>
    obtain ⟨hw, ih⟩ := ih h
    rw [drop_cons_sub hw]
    refine ⟨by omega, .block ?_⟩
    split_ifs at ih ⊢ <;> exact ih
  | case13 w k c rest ih =>
    obtain ⟨hw, ih⟩ := ih h
    rw [drop_cons_sub hw]
    exact ⟨by omega, .closing ih⟩

/-- One character more. -/
private theorem exists_read_cons {m m' : Mode} {w k k' : Nat} {c : Char} {cs rest : List Char}
    (hstep : read m w k (c :: cs) = read m' (w + 1) k' cs)
    (h : ∃ n k'', read m' (w + 1) k' cs = ⟨w + 1 + n, k'', none⟩ ∧ cs.drop n = rest) :
    ∃ n k'', read m w k (c :: cs) = ⟨w + n, k'', none⟩ ∧ (c :: cs).drop n = rest := by
  obtain ⟨n, k'', hread, hdrop⟩ := h
  refine ⟨n + 1, k'', ?_, hdrop⟩
  rw [hstep, hread, Nat.add_assoc, Nat.add_comm 1 n]

/-- A gap that can be skipped is measured and closed. -/
theorem Skips.exists_read {m : Mode} {cs rest : List Char} (h : Skips m cs rest) {m' : Mode}
    (hm : m'.forget = m) (w k : Nat) :
    ∃ n k', read m' w k cs = ⟨w + n, k', none⟩ ∧ cs.drop n = rest := by
  -- the rules forget where a comment began, so a mode of the reader is any that forgets to `m`
  induction h generalizing m' w k with
  | blankEnd | lineEnd | closingEnd =>
    cases m' <;> cases hm
    exact ⟨0, k, rfl, rfl⟩
  | stop hb hline hblock =>
    cases m' <;> cases hm
    exact ⟨0, k, by rw [read, if_neg (Bool.eq_false_iff.mp hb), if_neg hline, if_neg hblock]; rfl,
      rfl⟩
  | blank hb _ ih =>
    cases m' <;> cases hm
    exact exists_read_cons (by rw [read, if_pos hb]) (ih rfl (w + 1) k)
  | openLine hnext _ ih =>
    cases m' <;> cases hm
    refine exists_read_cons ?_ (ih (show Mode.line.forget = .line from rfl) (w + 1) (k + 1))
    rw [read, if_neg (by decide), if_pos ⟨rfl, hnext⟩]
  | openBlock hnext _ ih =>
    cases m' <;> cases hm
    have hforget : (Mode.opening w).forget = .opening 0 := rfl
    refine exists_read_cons ?_ (ih hforget (w + 1) (k + 1))
    rw [read, if_neg (by decide), if_neg (by simp [hnext]), if_pos ⟨rfl, hnext⟩]
  | @line c cs rest _ ih =>
    cases m' <;> cases hm
    exact exists_read_cons rfl (ih (by split_ifs <;> rfl) (w + 1) k)
  | opening _ ih =>
    cases m' <;> cases hm
    exact exists_read_cons rfl (ih rfl (w + 1) k)
  | @block c cs rest _ ih =>
    cases m' <;> cases hm
    exact exists_read_cons rfl (ih (by split_ifs <;> rfl) (w + 1) k)
  | closing _ ih =>
    cases m' <;> cases hm
    exact exists_read_cons rfl (ih rfl (w + 1) k)

/-- Where a gap stops before a character, there is no white space and no comment begins. -/
theorem Skips.stops {m : Mode} {c : Char} {cs rest : List Char} (h : Skips m cs (c :: rest)) :
    Text.isBlank c = false ∧ ¬(c = '/' ∧ rest.head? = some '/') ∧
      ¬(c = '/' ∧ rest.head? = some '*') := by
  generalize hstop : c :: rest = stop at h
  induction h with
  | blankEnd | lineEnd | closingEnd => exact nomatch hstop
  | stop hblank hline hblock =>
    obtain ⟨rfl, rfl⟩ := List.cons.inj hstop
    exact ⟨hblank, hline, hblock⟩
  | blank _ _ ih | openLine _ _ ih | openBlock _ _ ih | line _ ih | opening _ ih | block _ ih
  | closing _ ih => exact ih hstop

/-- Nothing but a line break has been looked at behind the end of a text. -/
private theorem head?_append_iff {cs more : List Char} (hm : BeginsLine more) {c : Char}
    (hc : c ≠ '\n') : (cs ++ more).head? = some c ↔ cs.head? = some c := by
  cases cs with
  | nil =>
    rw [List.nil_append, show more.head? = some '\n' from hm]
    exact iff_of_false (fun h => hc (Option.some.inj h).symm) (fun h => nomatch h)
  | cons d cs => rfl

/-- What follows a line break does not change where a gap stops. -/
private theorem Skips.append_of_ne_nil {m : Mode} {cs rest more : List Char} (h : Skips m cs rest)
    (hr : rest ≠ []) (hm : BeginsLine more) : Skips m (cs ++ more) (rest ++ more) := by
  induction h with
  | blankEnd | lineEnd | closingEnd => exact absurd rfl hr
  | stop hb hline hblock =>
    rw [List.cons_append]
    refine .stop hb ?_ ?_
    · rwa [head?_append_iff hm (by decide)]
    · rwa [head?_append_iff hm (by decide)]
  | blank hb _ ih => exact .blank hb (ih hr)
  | openLine hnext _ ih => exact .openLine ((head?_append_iff hm (by decide)).mpr hnext) (ih hr)
  | openBlock hnext _ ih => exact .openBlock ((head?_append_iff hm (by decide)).mpr hnext) (ih hr)
  | line _ ih => exact .line (ih hr)
  | opening _ ih => exact .opening (ih hr)
  | block _ ih =>
    rw [List.cons_append]
    refine .block ?_
    simp only [head?_append_iff hm (show '/' ≠ '\n' by decide)]
    exact ih hr
  | closing _ ih => exact .closing (ih hr)

/-- A gap that goes to the end of a text goes on after a line break. -/
theorem Skips.append {m : Mode} {cs ds rest : List Char} (h : Skips m cs [])
    (h' : Skips .blank ds rest) : Skips m (cs ++ '\n' :: ds) rest := by
  have hm : BeginsLine ('\n' :: ds) := rfl
  have hbreak : Skips .blank ('\n' :: ds) rest := .blank (by decide) h'
  generalize hcs : ([] : List Char) = stop at h
  induction h with
  | blankEnd => exact hbreak
  | lineEnd => exact .line h'
  | closingEnd => exact .closing h'
  | stop => exact nomatch hcs
  | blank hb _ ih => exact .blank hb (ih hcs)
  | openLine hnext _ ih => exact .openLine ((head?_append_iff hm (by decide)).mpr hnext) (ih hcs)
  | openBlock hnext _ ih =>
    exact .openBlock ((head?_append_iff hm (by decide)).mpr hnext) (ih hcs)
  | line _ ih => exact .line (ih hcs)
  | opening _ ih => exact .opening (ih hcs)
  | block _ ih =>
    rw [List.cons_append]
    refine .block ?_
    simp only [head?_append_iff hm (show '/' ≠ '\n' by decide)]
    exact ih hcs
  | closing _ ih => exact .closing (ih hcs)

end Gap

/-! ### Sources -/

namespace Lexer

/-- Is the value of a string declaration due after these tokens, the latest first? -/
def isDue : List Token → Bool
  | .assign :: .stringName _ :: _ => true
  | _ => false

theorem valueNext_eq (seen : List (Located Token)) :
    valueNext seen = isDue (seen.map Located.value) := by
  rw [valueNext.eq_def, isDue.eq_def]
  match seen with
  | [] => rfl
  | [⟨value, _⟩] => cases value <;> rfl
  | ⟨value, _⟩ :: ⟨value', _⟩ :: _ => cases value <;> cases value' <;> rfl

/-- `Lexes seen cs ts`: after the tokens `seen`, the latest first, the characters `cs` are read as
the tokens `ts`. -/
inductive Lexes : List Token → List Char → List Token → Prop
  | done {seen : List Token} {cs : List Char} : Gap.Skips .blank cs [] → Lexes seen cs []
  | token {seen : List Token} {cs : List Char} {c : Char} {rest : List Char} {t : Token} {w : Nat}
      {ts : List Token} : Gap.Skips .blank cs (c :: rest) →
      Token.read (isDue seen) c rest = .ok (t, w) →
      Lexes (t :: seen) ((c :: rest).drop w) ts → Lexes seen cs (t :: ts)

private theorem lexes_of_scanFrom {budget : Nat} {cs : List Char} {position : Position}
    {seen : List (Located Token)} {metrics metrics' : LexMetrics} {stream : TokenStream}
    (h : scanFrom budget cs position seen metrics = (metrics', .ok stream)) :
    ∃ ts, stream.values = (seen.map Located.value).reverse ++ ts ∧ ts.length ≤ budget ∧
      Lexes (seen.map Located.value) cs ts := by
  fun_induction scanFrom budget cs position seen metrics with
  | case1 | case3 | case4 => exact nomatch congrArg Prod.snd h
  | case2 budget cs position seen metrics gap _ hclosed start hend =>
    obtain ⟨-, hskips⟩ := Gap.skips_of_read hclosed
    cases h
    refine ⟨[], by simp [TokenStream.values], Nat.zero_le _, .done ?_⟩
    rw [Nat.sub_zero] at hskips
    exact hend ▸ hskips
  | case5 cs position seen metrics gap _ hclosed start c rest hrest budget due _ t w hread stop
      ih =>
    obtain ⟨-, hskips⟩ := Gap.skips_of_read hclosed
    obtain ⟨ts, hvalues, hlength, hlexes⟩ := ih h
    refine ⟨t :: ts, ?_, Nat.succ_le_succ hlength, .token ?_ ?_ hlexes⟩
    · rw [hvalues]
      simp
    · rw [Nat.sub_zero] at hskips
      exact hrest ▸ hskips
    · rwa [← valueNext_eq]

theorem exists_scanFrom {prev : List Token} {cs : List Char} {ts : List Token}
    (h : Lexes prev cs ts) {budget : Nat} {seen : List (Located Token)}
    (hprev : seen.map Located.value = prev) (hbudget : ts.length ≤ budget) (position : Position)
    (metrics : LexMetrics) :
    ∃ metrics' stream, scanFrom budget cs position seen metrics = (metrics', .ok stream) ∧
      stream.values = prev.reverse ++ ts := by
  -- positions and metrics change with every token and decide nothing, hence generalized
  induction h generalizing budget seen position metrics with
  | done hskips =>
    obtain ⟨n, k, hgap, hdrop⟩ := hskips.exists_read (Eq.refl Gap.Mode.blank.forget) 0 0
    rw [scanFrom.eq_def, hgap]
    dsimp only
    rw [Nat.zero_add, hdrop]
    exact ⟨_, _, rfl, by simp [TokenStream.values, hprev]⟩
  | @token prev cs c rest t w ts hskips hread _ ih =>
    obtain ⟨n, k, hgap, hdrop⟩ := hskips.exists_read (Eq.refl Gap.Mode.blank.forget) 0 0
    rw [scanFrom.eq_def, hgap]
    dsimp only
    rw [Nat.zero_add, hdrop]
    cases budget with
    | zero => exact absurd hbudget (Nat.not_succ_le_zero _)
    | succ budget =>
      dsimp only
      rw [valueNext_eq, hprev, hread]
      dsimp only
      have hseen (span : Span) : (⟨t, span⟩ :: seen).map Located.value = t :: prev := by
        rw [List.map_cons, hprev]
      obtain ⟨metrics', stream, hscan, hvalues⟩ :=
        ih (hseen _) (Nat.le_of_succ_le_succ hbudget) _ _
      exact ⟨metrics', stream, hscan, by rw [hvalues]; simp⟩

/-- What has been tokenized lexes and keeps to the limits. -/
theorem lexes_of_tokenize {source : String} {stream : TokenStream}
    (h : tokenize source = .ok stream) :
    source.utf8ByteSize ≤ Limits.sourceSize ∧ stream.tokens.length ≤ Limits.tokenCount ∧
      Lexes [] source.toList stream.values := by
  rw [tokenize, scan] at h
  split_ifs at h with hsize
  obtain ⟨ts, hvalues, hlength, hlexes⟩ := lexes_of_scanFrom (Prod.ext rfl h)
  rw [List.map_nil, List.reverse_nil, List.nil_append] at hvalues
  refine ⟨Nat.not_lt.mp hsize, ?_, hvalues ▸ hlexes⟩
  rw [← List.length_map Located.value, show stream.tokens.map Located.value = ts from hvalues]
  exact hlength

/-- What lexes and keeps to the limits can be tokenized. -/
theorem exists_tokenize {source : String} {ts : List Token}
    (hsize : source.utf8ByteSize ≤ Limits.sourceSize) (hlength : ts.length ≤ Limits.tokenCount)
    (h : Lexes [] source.toList ts) :
    ∃ stream, tokenize source = .ok stream ∧ stream.values = ts := by
  obtain ⟨metrics, stream, hscan, hvalues⟩ := exists_scanFrom h (List.map_nil) hlength .start {}
  refine ⟨stream, ?_, hvalues⟩
  rw [tokenize, scan, if_neg (Nat.not_lt.mpr hsize), hscan]

/-- The integers of a source fit sixty-four bits. -/
theorem Lexes.inRange {seen ts : List Token} {cs : List Char} (h : Lexes seen cs ts) :
    ∀ t ∈ ts, t.InRange := by
  induction h with
  | done => exact fun _ h => nomatch h
  | token _ hread _ ih => exact List.forall_mem_cons.mpr ⟨Token.inRange_of_read hread, ih⟩

/-! ### Texts one after another -/

/-- The value of a string is not due after these tokens, whatever comes next. -/
def Closed (seen : List Token) : Prop :=
  seen.head? ≠ some .assign ∧ ∀ name, seen.head? ≠ some (.stringName name)

private theorem isDue_append {base : List Token} (hb : Closed base) (seen : List Token) :
    isDue (seen ++ base) = isDue seen := by
  match seen, base with
  | [], [] => rfl
  | [], t :: base =>
    cases t with
    | assign => exact absurd rfl hb.1
    | _ => rfl
  | [t], [] => rfl
  | [t], t' :: base =>
    cases t with
    | assign =>
      cases t' with
      | stringName name => exact absurd rfl (hb.2 name)
      | _ => rfl
    | _ => rfl
  | t :: t' :: seen, base =>
    cases t with
    | assign => cases t' <;> rfl
    | _ => rfl

/-- Tokens before a text that do not ask for the value of a string do not change how it is
read. -/
theorem Lexes.after {seen base ts : List Token} {cs : List Char} (h : Lexes seen cs ts)
    (hb : Closed base) : Lexes (seen ++ base) cs ts := by
  induction h with
  | done hskips => exact .done hskips
  | token hskips hread _ ih =>
    refine .token hskips ?_ ih
    rwa [isDue_append hb]

/-- What is left after a token. -/
theorem drop_taken (c : Char) (taken next : List Char) :
    (c :: (taken ++ next)).drop (1 + taken.length) = next := by
  rw [Nat.add_comm, List.drop_succ_cons, List.drop_left]

/-- **Texts one after another.** The tokens of two texts with a line break between them are those
of the first and then those of the second. -/
theorem Lexes.append {seen ts us : List Token} {cs ds : List Char} (h : Lexes seen cs ts)
    (h' : Lexes (ts.reverse ++ seen) ds us) : Lexes seen (cs ++ '\n' :: ds) (ts ++ us) := by
  induction h with
  | done hskips =>
    -- the gap at the end of the first text runs on into the second
    cases h' with
    | done hskips' => exact .done (hskips.append hskips')
    | token hskips' hread hrest => exact .token (hskips.append hskips') hread hrest
  | @token seen cs c rest t w ts hskips hread _ ih =>
    have hm : BeginsLine ('\n' :: ds) := rfl
    obtain ⟨taken, next, rfl, rfl, hread⟩ := Token.read_settled _ c hread
    have hskips' := hskips.append_of_ne_nil (List.cons_ne_nil _ _) hm
    rw [List.cons_append, List.append_assoc] at hskips'
    refine .token hskips' (hread _ (.append_line hm next)) ?_
    rw [List.reverse_cons, List.append_assoc] at h'
    rw [drop_taken] at ih ⊢
    exact ih h'

end Lexer

end PackageScan
