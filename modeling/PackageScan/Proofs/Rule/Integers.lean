import PackageScan.Proofs.Rule.Signs

/-!
# The integers of a source

A literal is a numeral in a source, with the minus directly before it as its sign if one stands
there (`Lexer.IsLiteral`). The reader of tokens takes the whole of a literal, and nothing else is an
integer or the overflow of one (`Token.read_literal`, `Token.exists_literal_or_isOther`). What the
scanner answers at a token that it comes to is the answer for the source, if that is a fault
(`Lexer.Reaches.tokenize_eq_error`).

* **Integers are exact**: those of a source that is read are the values of literals, and an overflow
  is reported exactly if the scanner comes to a literal that is too large (`Lexer.exactIntegers`).
-/

namespace PackageScan

open Numeral (signText signFactor signed)

namespace Token

variable {due negative : Bool} {c : Char} {cs rest after : List Char} {n : Numeral}

/-! ### Readings that are no integers -/

/-- The reading is neither an integer nor the overflow of one. -/
def IsOther : Reading → Prop
  | .ok (integer _, _) | .error (.invalidNumber _ .overflow, _) => False
  | _ => True

/-- A chain that begins with the reading of something else. -/
private theorem isOther_bind {α : Type} {x : Except (LexFault × Nat) α} {f : α → Reading}
    (hx : ∀ e, x = .error e → IsOther (.error e)) (hf : ∀ a, IsOther (f a)) :
    IsOther (x >>= f) := by
  cases x with
  | error e => exact hx e rfl
  | ok a => exact hf a

private theorem isOther_of_checkLength {name : List Char} {e : LexFault × Nat}
    (h : checkLength name = .error e) : IsOther (.error e) := by
  rw [checkLength] at h
  split_ifs at h
  cases h
  trivial

private theorem isOther_of_readText {bytes : List UInt8} {size width : Nat} {e : LexFault × Nat}
    (h : readText bytes size width cs = .error e) : IsOther (.error e) := by
  fun_induction readText bytes size width cs
  case case3 ih | case7 ih | case12 ih => exact ih h
  all_goals cases h <;> trivial

private theorem isOther_of_readHex {body : List Char} {size width : Nat} {e : LexFault × Nat}
    (h : readHex body size width cs = .error e) : IsOther (.error e) := by
  fun_induction readHex body size width cs
  case case4 ih => exact ih h
  all_goals cases h <;> trivial

private theorem isOther_of_readRegex {pattern : List Char} {size width : Nat} {e : LexFault × Nat}
    (h : readRegex pattern size width cs = .error e) : IsOther (.error e) := by
  fun_induction readRegex pattern size width cs
  case case4 ih | case6 ih | case10 ih => exact ih h
  all_goals cases h <;> trivial

private theorem isOther_readLiteral (c : Char) (rest : List Char) :
    IsOther (readLiteral c rest) := by
  rw [readLiteral]
  split_ifs
  · exact isOther_bind (fun _ => isOther_of_readText) fun _ => trivial
  · exact isOther_bind (fun _ => isOther_of_readRegex) fun _ => trivial
  · exact isOther_bind (fun _ => isOther_of_readHex) fun _ => trivial

private theorem isOther_readWord (cs : List Char) : IsOther (readWord cs) := by
  refine isOther_bind (fun _ => isOther_of_checkLength) fun _ => ?_
  dsimp only
  split <;> trivial

private theorem isOther_readStringName (cs : List Char) : IsOther (readStringName cs) := by
  refine isOther_bind (fun _ => isOther_of_checkLength) fun _ => ?_
  split <;> trivial

private theorem isOther_readStringCount (cs : List Char) : IsOther (readStringCount cs) := by
  rw [readStringCount]
  split
  · trivial
  · exact isOther_bind (fun _ => isOther_of_checkLength) fun _ => trivial

private theorem isOther_readPunctuation (cs : List Char) : IsOther (readPunctuation cs) := by
  rw [readPunctuation.eq_def]
  split <;> trivial

/-! ### Literals -/

private theorem read_of_minus (h : rest.head?.any Char.isDigit = true) :
    read due '-' rest = readInteger true rest := by
  have hopens : ¬opensLiteral due '-' = true := by cases due <;> decide
  rw [read, if_neg hopens, if_neg (by decide), if_neg (by decide), if_neg (by decide),
    if_pos (by rw [h]; decide)]

/-- A numeral with its sign is read as an integer. -/
theorem read_literal (h : c :: rest = signText negative ++ (n.text ++ after))
    (hafter : after.head?.any isWordChar = false) :
    read due c rest =
      if integerMax < n.value then
        .error (.invalidNumber (String.ofList n.digits) .overflow, (signText negative).length)
      else .ok (.integer (signFactor negative * n.value),
        (signText negative).length + n.text.length) := by
  have hhead : (n.text ++ after).head?.any Char.isDigit = true := by
    rw [List.head?_append_of_ne_nil _ n.text_ne_nil, n.any_head?_text]
  rw [← readInteger_text_append negative n hafter]
  cases negative with
  | false =>
    have hcs : c :: rest = n.text ++ after := h
    rw [← hcs] at hhead ⊢
    exact read_of_isDigit hhead rest
  | true =>
    obtain ⟨rfl, rfl⟩ := List.cons.inj h
    exact read_of_minus hhead

/-- Nothing else is read as an integer or reported as the overflow of one. -/
theorem exists_literal_or_isOther (due : Bool) (c : Char) (rest : List Char) :
    (∃ negative n after, c :: rest = signText negative ++ (Numeral.text n ++ after) ∧
      after.head?.any isWordChar = false) ∨ IsOther (read due c rest) := by
  have hinteger (negative : Bool) (cs : List Char) (h : c :: rest = signText negative ++ cs)
      (hread : read due c rest = readInteger negative cs) :
      (∃ negative n after, c :: rest = signText negative ++ (Numeral.text n ++ after) ∧
        after.head?.any isWordChar = false) ∨ IsOther (read due c rest) := by
    rcases exists_numeral_or_malformed negative cs with
      ⟨n, after, rfl, hafter⟩ | ⟨text, reason, hreason, herror⟩
    · exact .inl ⟨negative, n, after, h, hafter⟩
    · rw [hread, herror]
      cases reason with
      | overflow => exact absurd rfl hreason
      | missingDigits | unexpectedCharacter => exact .inr trivial
  by_cases hdigit : c.isDigit = true
  · exact hinteger false (c :: rest) rfl (read_of_isDigit hdigit rest)
  by_cases hminus : (c = '-' && rest.head?.any Char.isDigit) = true
  · obtain ⟨hc, hrest⟩ := Bool.and_eq_true_iff.mp hminus
    obtain rfl : c = '-' := of_decide_eq_true hc
    exact hinteger true rest rfl (read_of_minus hrest)
  right
  rw [read]
  split_ifs
  · exact isOther_readLiteral c rest
  · exact isOther_readStringName rest
  · exact isOther_readStringCount rest
  · exact isOther_readWord (c :: rest)
  · exact isOther_readPunctuation (c :: rest)

/-- An integer that is read is the value of a literal, the whole of which is taken. -/
private theorem exists_literal_of_read_eq_ok {value : Int} {w : Nat}
    (h : read due c rest = .ok (.integer value, w)) :
    ∃ negative n after, c :: rest = signText negative ++ (Numeral.text n ++ after) ∧
      after.head?.any isWordChar = false ∧ n.value ≤ integerMax ∧
      value = signFactor negative * n.value ∧ w = (signText negative ++ n.text).length := by
  rcases exists_literal_or_isOther due c rest with ⟨negative, n, after, hliteral, hafter⟩ | hother
  · have hwhole := h.symm.trans (read_literal hliteral hafter)
    split_ifs at hwhole with hmax
    obtain ⟨htoken, hwidth⟩ := Prod.mk.inj (Except.ok.inj hwhole)
    rw [← List.length_append] at hwidth
    exact ⟨negative, n, after, hliteral, hafter, Nat.not_lt.mp hmax, integer.inj htoken, hwidth⟩
  · rw [h] at hother
    exact absurd hother id

/-- An overflow is that of a literal, and it is reported behind the sign. -/
private theorem exists_literal_of_read_eq_error {text : String} {w : Nat}
    (h : read due c rest = .error (.invalidNumber text .overflow, w)) :
    ∃ negative n after, c :: rest = signText negative ++ (Numeral.text n ++ after) ∧
      after.head?.any isWordChar = false ∧ integerMax < n.value ∧
      text = String.ofList n.digits ∧ w = (signText negative).length := by
  rcases exists_literal_or_isOther due c rest with ⟨negative, n, after, hliteral, hafter⟩ | hother
  · have hwhole := h.symm.trans (read_literal hliteral hafter)
    split_ifs at hwhole with hmax
    obtain ⟨hfault, hwidth⟩ := Prod.mk.inj (Except.error.inj hwhole)
    exact ⟨negative, n, after, hliteral, hafter, hmax, (LexFault.invalidNumber.inj hfault).1,
      hwidth⟩
  · rw [h] at hother
    exact absurd hother id

end Token

namespace Lexer

variable {source : String} {before after cs rest : List Char} {negative : Bool} {n : Numeral}
variable {seen ts : List Token} {us : List (Located Token)} {c : Char}

/-! ### Tokens and where they begin -/

/-- The scanner gets to each token that it has cut, and reads it from the characters it covers. -/
private theorem Cuts.exists_reaches (h : Cuts seen before us cs) :
    ∀ u ∈ us, ∃ ts between c taken next, cs = between ++ c :: (taken ++ next) ∧
      u.span = .covering (before ++ between) (c :: taken) ∧
      Reaches seen cs ts (c :: (taken ++ next)) ∧
      Token.read (isDue (ts.reverse ++ seen)) c (taken ++ next) =
        .ok (u.value, 1 + taken.length) := by
  induction h with
  | done => exact List.forall_mem_nil _
  | @token seen before gap taken cs c t us hskips hread _ ih =>
    have hown : EndsLike cs cs := fun c hc => Or.inl hc
    have hcs : gap ++ c :: taken ++ cs = gap ++ c :: (taken ++ cs) := by simp
    rw [hcs]
    refine List.forall_mem_cons.mpr ⟨?_, fun u hu => ?_⟩
    · exact ⟨[], gap, c, taken, cs, rfl, rfl, .here hskips, hread cs hown⟩
    · obtain ⟨ts, between, c', taken', next, rfl, hspan, hreaches, hread'⟩ := ih u hu
      refine ⟨t :: ts, gap ++ c :: taken ++ between, c', taken', next, by simp, ?_, ?_, ?_⟩
      · rw [hspan, ← List.append_assoc, ← List.append_assoc]
      · refine .token hskips (hread _ hown) ?_
        rwa [drop_taken]
      · rwa [List.reverse_cons, List.append_assoc, List.singleton_append]

/-- One step of the scanner, over a gap and a token. -/
private theorem scanFrom_of_skips {between : List Char}
    (h : Gap.Skips .blank (between ++ c :: rest) (c :: rest)) {prev : List (Located Token)}
    (hprev : prev.map Located.value = seen) (budget : Nat) (before : List Char)
    (metrics : LexMetrics) :
    ∃ metrics', scanFrom (budget + 1) (between ++ c :: rest) (.after before) prev metrics =
      match Token.read (isDue seen) c rest with
      | .error (fault, w) =>
        (metrics', .error ⟨fault, .after (before ++ between ++ (c :: rest).take w)⟩)
      | .ok (t, w) =>
        scanFrom budget ((c :: rest).drop w) (.after (before ++ between ++ (c :: rest).take w))
          (⟨t, .covering (before ++ between) ((c :: rest).take w)⟩ :: prev) metrics' := by
  obtain ⟨n, k, hgap, hdrop⟩ := h.exists_read (Eq.refl Gap.Mode.blank.forget) 0 0
  have htake : (between ++ c :: rest).take n = between := by
    have hsplit := List.take_append_drop n (between ++ c :: rest)
    rw [hdrop] at hsplit
    exact List.append_cancel_right hsplit
  rw [scanFrom.eq_def, hgap]
  dsimp only
  rw [Nat.zero_add, hdrop, htake, valueNext_eq, hprev]
  simp only [Position.advanceAll_after]
  cases Token.read (isDue seen) c rest <;> exact ⟨_, rfl⟩

/-- The scanner fails at a token that it gets to and cannot read. -/
theorem Reaches.exists_scanFrom {w : Nat} {fault : LexFault} (h : Reaches seen cs ts (c :: rest))
    (hread : Token.read (isDue (ts.reverse ++ seen)) c rest = .error (fault, w)) (budget : Nat) :
    ∃ between, cs = between ++ c :: rest ∧
      ∀ prev, prev.map Located.value = seen → ∀ before metrics,
        (scanFrom (ts.length + budget + 1) cs (.after before) prev metrics).2 =
          .error ⟨fault, .after (before ++ between ++ (c :: rest).take w)⟩ := by
  generalize hleft : c :: rest = left at h
  induction h with
  | here hskips =>
    cases hleft
    obtain ⟨gap, rfl, -⟩ := hskips.exists_goesOver
    refine ⟨gap, rfl, fun prev hprev before metrics => ?_⟩
    obtain ⟨metrics', hstep⟩ := scanFrom_of_skips hskips hprev (0 + budget) before metrics
    rw [List.reverse_nil, List.nil_append] at hread
    rw [List.length_nil, hstep, hread]
  | @token seen cs c' rest' t w' ts left hskips hread' _ ih =>
    subst hleft
    obtain ⟨gap, rfl, -⟩ := hskips.exists_goesOver
    rw [List.reverse_cons, List.append_assoc, List.singleton_append] at hread
    obtain ⟨between, hdrop, hscan⟩ := ih hread rfl
    refine ⟨gap ++ (c' :: rest').take w' ++ between, ?_, fun prev hprev before metrics => ?_⟩
    · rw [List.append_assoc, List.append_assoc, ← hdrop, List.take_append_drop]
    · obtain ⟨metrics', hstep⟩ :=
        scanFrom_of_skips hskips hprev (ts.length + budget + 1) before metrics
      have hprev' (span : Span) : (⟨t, span⟩ :: prev).map Located.value = t :: seen := by
        rw [List.map_cons, hprev]
      rw [hread'] at hstep
      rw [List.length_cons, Nat.add_right_comm ts.length 1 budget, hstep]
      dsimp only
      rw [hscan _ (hprev' _)]
      simp only [List.append_assoc]

/-- The scanner fails at a token that it gets to within the limits and cannot read. -/
theorem Reaches.tokenize_eq_error {w : Nat} {fault : LexFault}
    (h : Reaches [] source.toList ts (c :: rest))
    (hread : Token.read (isDue ts.reverse) c rest = .error (fault, w))
    (hsize : source.utf8ByteSize ≤ Limits.sourceSize) (hcount : ts.length < Limits.tokenCount)
    (hsource : source.toList = before ++ c :: rest) :
    tokenize source = .error ⟨fault, .after (before ++ (c :: rest).take w)⟩ := by
  rw [← List.append_nil ts.reverse] at hread
  obtain ⟨budget, hbudget⟩ := Nat.exists_eq_add_of_lt hcount
  obtain ⟨between, hsplit, hscan⟩ := h.exists_scanFrom hread budget
  obtain rfl : between = before := List.append_cancel_right (hsplit.symm.trans hsource)
  have herror := hscan [] rfl [] {}
  rw [← hbudget, List.nil_append] at herror
  rw [tokenize, scan, if_neg (Nat.not_lt.mpr hsize)]
  exact herror

/-! ### Literals in a source -/

/-- `IsLiteral source before negative n after`: the source is the text `before`, the sign, the
numeral and the text `after`. The numeral is a whole one, and its sign is what stands before it. -/
structure IsLiteral (source : String) (before : List Char) (negative : Bool) (n : Numeral)
    (after : List Char) : Prop where
  /-- The numeral stands in the source, behind its sign. -/
  source_eq : source.toList = before ++ (signText negative ++ (n.text ++ after))
  /-- The value is negative if a minus stands directly before the numeral. -/
  negative_iff : negative = true ↔ (before ++ signText negative).getLast? = some '-'
  /-- No character of a word follows the numeral. -/
  notFollowed : after.head?.any Token.isWordChar = false

/-- The scanner gets to the literal, after the tokens `ts` and within the limits. -/
structure ComesTo (source : String) (ts : List Token) (before : List Char) (negative : Bool)
    (n : Numeral) (after : List Char) : Prop extends
    IsLiteral source before negative n after where
  /-- The next token begins with the sign or with the numeral. -/
  reaches : Reaches [] source.toList ts (signText negative ++ (n.text ++ after))
  /-- The source is not too large. -/
  size_le : source.utf8ByteSize ≤ Limits.sourceSize
  /-- There may be one token more. -/
  length_lt : ts.length < Limits.tokenCount

/-- Where the scanner gets to a numeral, its sign is what stands before it. -/
theorem Reaches.isLiteral
    (h : Reaches [] source.toList ts (signText negative ++ (n.text ++ after)))
    (hsource : source.toList = before ++ (signText negative ++ (n.text ++ after)))
    (hafter : after.head?.any Token.isWordChar = false) :
    IsLiteral source before negative n after := by
  obtain ⟨before', hsplit, hunsigned⟩ := h.exists_unsigned
  obtain rfl : before' = before := List.append_cancel_right (hsplit.symm.trans hsource)
  refine ⟨hsource, ?_, hafter⟩
  cases negative with
  | false =>
    rw [signText, if_neg Bool.false_ne_true, List.append_nil]
    exact iff_of_false Bool.false_ne_true hunsigned
  | true => exact iff_of_true rfl (by rw [signText, if_pos rfl, List.getLast?_concat])

/-- An integer that is read stands where a literal does. -/
private theorem exists_isLiteral_of_tokenize {stream : TokenStream}
    (h : tokenize source = .ok stream)
    {t : Located Token} (ht : t ∈ stream.tokens) {value : Int} (hvalue : t.value = .integer value) :
    ∃ before negative n after, IsLiteral source before negative n after ∧
      t.span = .covering before (signText negative ++ n.text) ∧
      value = signFactor negative * n.value ∧ n.value ≤ Token.integerMax := by
  obtain ⟨hcuts, -⟩ := cuts_of_tokenize h
  obtain ⟨ts, before, c, taken, next, hsource, hspan, hreaches, hread⟩ := hcuts.exists_reaches t ht
  rw [hvalue] at hread
  obtain ⟨negative, n, after, hliteral, hafter, hmax, hsigned, hwidth⟩ :=
    Token.exists_literal_of_read_eq_ok hread
  -- the token covers what is taken, which is the sign and the numeral
  have hsplit : c :: taken ++ next = signText negative ++ n.text ++ after := by
    rw [List.append_assoc]
    exact hliteral
  have hlength : (c :: taken).length = (signText negative ++ n.text).length := by
    rw [← hwidth, List.length_cons, Nat.add_comm]
  rw [(List.append_inj hsplit hlength).1] at hspan
  rw [hliteral] at hsource hreaches
  exact ⟨before, negative, n, after, hreaches.isLiteral hsource hafter, hspan, hsigned, hmax⟩

/-- An overflow is reported where the scanner comes to a literal. -/
private theorem exists_comesTo_of_tokenize {text : String} {place : Position}
    (h : tokenize source = .error ⟨.invalidNumber text .overflow, place⟩) :
    ∃ ts before negative n after, ComesTo source ts before negative n after ∧
      Token.integerMax < n.value ∧ text = String.ofList n.digits ∧
      place = .after (before ++ signText negative) := by
  rw [tokenize, scan] at h
  split_ifs at h with hsize
  · cases h
  obtain hcomment | ⟨ts, before, c, rest, hsource, hreaches, hfault⟩ :=
    exists_reaches_of_scanFrom h [] (Position.advanceAll_start [])
  · cases hcomment
  rw [List.nil_append, List.map_nil, List.append_nil] at hfault
  obtain ⟨hmany, -⟩ | ⟨hcount, w, hread, hplace⟩ := hfault
  · cases hmany
  obtain ⟨negative, n, after, hliteral, hafter, hmax, htext, rfl⟩ :=
    Token.exists_literal_of_read_eq_error hread
  rw [hliteral, List.take_left] at hplace
  rw [hliteral] at hsource hreaches
  exact ⟨ts, before, negative, n, after, ⟨hreaches.isLiteral hsource hafter, hreaches,
    Nat.not_lt.mp hsize, hcount⟩, hmax, htext, hplace⟩

/-- A literal that the scanner comes to is read as it should be. -/
theorem ComesTo.exists_read {ts : List Token} (h : ComesTo source ts before negative n after) :
    ∃ c rest, signText negative ++ (n.text ++ after) = c :: rest ∧
      Token.read (isDue ts.reverse) c rest =
        if Token.integerMax < n.value then
          .error (.invalidNumber (String.ofList n.digits) .overflow, (signText negative).length)
        else .ok (.integer (signFactor negative * n.value),
          (signText negative).length + n.text.length) := by
  have hne : signText negative ++ (n.text ++ after) ≠ [] := by simp [n.text_ne_nil]
  obtain ⟨c, rest, hcs⟩ := List.exists_cons_of_ne_nil hne
  exact ⟨c, rest, hcs, Token.read_literal hcs.symm h.notFollowed⟩

/-- The integers of a source are exact. -/
structure ExactIntegers (source : String) : Prop where
  /-- An integer of a source that is read stands where a literal does and has the value of it. The
  value fits, and the arithmetic of sixty-four bits comes to it without an overflow. -/
  accepted : ∀ stream, tokenize source = .ok stream → ∀ t ∈ stream.tokens, ∀ value,
    t.value = .integer value →
      ∃ before negative n after, IsLiteral source before negative n after ∧
        t.span = .covering before (signText negative ++ n.text) ∧
        value = signFactor negative * (n.number * n.suffix.factor) ∧
        n.number * n.suffix.factor ≤ 2 ^ 63 - 1 ∧
        ∃ a, n.magnitude? = some a ∧ (signed negative a).toInt = value
  /-- An overflow is reported exactly if the scanner comes to a literal that is too large. -/
  rejected : ∀ text place,
    tokenize source = .error ⟨.invalidNumber text .overflow, place⟩ ↔
      ∃ ts before negative n after, ComesTo source ts before negative n after ∧
        2 ^ 63 - 1 < n.number * n.suffix.factor ∧ n.magnitude? = none ∧
        text = String.ofList n.digits ∧ place = .after (before ++ signText negative)
  /-- A literal that the scanner comes to is one token, unless it is too large. -/
  whole : ∀ ts before negative n after, ComesTo source ts before negative n after →
    n.number * n.suffix.factor ≤ 2 ^ 63 - 1 →
      ∃ c rest, signText negative ++ (n.text ++ after) = c :: rest ∧
        Token.read (isDue ts.reverse) c rest =
          .ok (.integer (signFactor negative * (n.number * n.suffix.factor)),
            (signText negative ++ n.text).length)
  /-- What the reader takes for the value of any numeral is what the arithmetic of sixty-four bits
  comes to, and it takes none where that overflows. -/
  computed : ∀ n : Numeral, Token.integerValue? n.mark.base n.suffix.factor n.digits =
    n.magnitude?.map fun a => a.toInt.toNat

/-- **Integers are exact.** -/
theorem exactIntegers (source : String) : ExactIntegers source where
  accepted stream h t ht value hvalue := by
    obtain ⟨before, negative, n, after, hliteral, hspan, hsigned, hmax⟩ :=
      exists_isLiteral_of_tokenize h ht hvalue
    have hsome : n.magnitude? ≠ none := fun hnone =>
      Nat.not_lt.mpr hmax (Numeral.magnitude?_eq_none.mp hnone)
    obtain ⟨a, ha⟩ := Option.ne_none_iff_exists'.mp hsome
    have htoInt := Numeral.magnitude?_eq_some.mp ha
    refine ⟨before, negative, n, after, hliteral, hspan, ?_, hmax, a, ha, ?_⟩
    · rw [hsigned, Numeral.value, Int.natCast_mul]
    · rw [Numeral.toInt_signed negative (htoInt ▸ Int.natCast_nonneg _), htoInt, hsigned]
  rejected text place := by
    constructor
    · intro h
      obtain ⟨ts, before, negative, n, after, hcomes, hmax, htext, hplace⟩ :=
        exists_comesTo_of_tokenize h
      exact ⟨ts, before, negative, n, after, hcomes, hmax, Numeral.magnitude?_eq_none.mpr hmax,
        htext, hplace⟩
    · rintro ⟨ts, before, negative, n, after, hcomes, hmax, -, rfl, rfl⟩
      obtain ⟨c, rest, hcs, hread⟩ := hcomes.exists_read
      have hreaches := hcomes.reaches
      have hsource := hcomes.source_eq
      have hlarge : Token.integerMax < n.value := hmax
      rw [if_pos hlarge] at hread
      rw [hcs] at hreaches hsource
      have herror := hreaches.tokenize_eq_error hread hcomes.size_le hcomes.length_lt hsource
      rwa [← hcs, List.take_left] at herror
  whole ts before negative n after hcomes hmax := by
    obtain ⟨c, rest, hcs, hread⟩ := hcomes.exists_read
    have hfits : ¬Token.integerMax < n.value := Nat.not_lt.mpr hmax
    refine ⟨c, rest, hcs, ?_⟩
    rw [hread, if_neg hfits, Numeral.value, Int.natCast_mul, List.length_append]
  computed := Numeral.integerValue?_eq_map_magnitude?

/-- The largest values with each suffix, and a literal that is too large by one. -/
example :
    (tokenize "9223372036854775807 -9007199254740991KB 0x7ffffffffffMB").map TokenStream.values =
      .ok [.integer (2 ^ 63 - 1), .integer (2 ^ 10 - 2 ^ 63), .integer (2 ^ 63 - 2 ^ 20)] ∧
    tokenize "-0x80000000000MB" =
      .error ⟨.invalidNumber "80000000000" .overflow, .after ['-']⟩ := by
  decide +kernel

end Lexer

end PackageScan
