import PackageScan.Proofs.Pattern.HexMeaning

/-!
# What jumps are written as

The jumps of a body stand between brackets, and the expression that the body is written as has a
repetition between braces for each of them. `Hex.enclosed` lists what stands between such marks, and
`Hex.Repeats` says that a repetition has the bounds that are written in a jump, which are in order.

In a body of the grammar every jump is repeated as it is written (`Hex.forall₂_repeats`): text and
expression are followed along the grammar together, and each part of the text carries its jumps over
to its part of the expression (`Hex.Carries`). The reader keeps to the grammar once the numbers that
do not fit thirty-two bits have been left out, so a jump is repeated as what is kept of its bounds
(`Hex.repeats_of_parse`). This is not what is written where a number is left out: an upper bound
beyond thirty-two bits is read as if there were none (`Hex.not_repeats_overflowing`).
-/

namespace PackageScan

namespace Hex

/-! ### Jumps and repetitions -/

/-- The texts that stand between an opening mark and the next closing one, from left to right. -/
def enclosed (opening closing : Char) : Chars → List Chars
  | [] => []
  | c :: text =>
    if c = opening then text.takeWhile (· ≠ closing) :: enclosed opening closing text
    else enclosed opening closing text

/-- How a repetition writes its bounds. -/
def repetition (least : Nat) (most : Option Nat) : Chars :=
  (Nat.repr least).toList ++ ',' :: most.elim [] fun m => (Nat.repr m).toList

/-- The bounds of a jump are in order, and a repetition has the bounds that are written. -/
def Repeats (written emitted : Chars) : Prop :=
  ∃ least most, Bounds written least most ∧ InOrder least most ∧ emitted = repetition least most

/-! ### What stands between marks -/

variable {opening closing : Char} {text text' : Chars}

private theorem enclosed_append_of_not_mem (h : opening ∉ text) (more : Chars) :
    enclosed opening closing (text ++ more) = enclosed opening closing more := by
  induction text with
  | nil => rfl
  | cons c text ih =>
    rw [List.mem_cons, not_or] at h
    exact (if_neg (Ne.symm h.1)).trans (ih h.2)

private theorem enclosed_mark (hopening : opening ∉ text) (hclosing : closing ∉ text)
    (hne : opening ≠ closing) (more : Chars) :
    enclosed opening closing (opening :: (text ++ closing :: more)) =
      text :: enclosed opening closing more := by
  have htext : ∀ c ∈ text, decide (c ≠ closing) = true :=
    fun c hc => decide_eq_true (ne_of_mem_of_not_mem hc hclosing)
  have hinner : (text ++ closing :: more).takeWhile (· ≠ closing) = text :=
    Text.takeWhile_append_of_stop htext (decide_eq_false (not_not_intro rfl))
  rw [enclosed, if_pos rfl, hinner, enclosed_append_of_not_mem hopening, enclosed,
    if_neg hne.symm]

/-- The text holds the listed texts between marks, whatever follows. -/
def Encloses (opening closing : Char) (text : Chars) (found : List Chars) : Prop :=
  ∀ more, enclosed opening closing (text ++ more) = found ++ enclosed opening closing more

namespace Encloses

variable {found found' : List Chars}

private theorem of_not_mem (h : opening ∉ text) : Encloses opening closing text [] :=
  enclosed_append_of_not_mem h

theorem mark (hopening : opening ∉ text) (hclosing : closing ∉ text) (hne : opening ≠ closing) :
    Encloses opening closing (opening :: (text ++ [closing])) [text] := fun more => by
  rw [List.cons_append, List.append_assoc]
  exact enclosed_mark hopening hclosing hne more

theorem append (h : Encloses opening closing text found)
    (h' : Encloses opening closing text' found') :
    Encloses opening closing (text ++ text') (found ++ found') := fun more => by
  rw [List.append_assoc, h, h', List.append_assoc]

theorem eq (h : Encloses opening closing text found) : enclosed opening closing text = found := by
  have hnil := h []
  rwa [List.append_nil, enclosed, List.append_nil] at hnil

end Encloses

/-! ### Jumps carried over to the expression -/

/-- The jumps in a text are repeated as they are written, one after another, in its expression. -/
def Carries (text rendered : Chars) : Prop :=
  ∃ written emitted, Encloses '[' ']' text written ∧ Encloses '\x7b' '\x7d' rendered emitted ∧
    List.Forall₂ Repeats written emitted

namespace Carries

variable {rendered rendered' : Chars}

private theorem of_not_mem
    (htext : '[' ∉ text) (hrendered : '\x7b' ∉ rendered) : Carries text rendered :=
  ⟨[], [], .of_not_mem htext, .of_not_mem hrendered, .nil⟩

theorem append (h : Carries text rendered) (h' : Carries text' rendered') :
    Carries (text ++ text') (rendered ++ rendered') := by
  obtain ⟨written, emitted, hwritten, hemitted, hall⟩ := h
  obtain ⟨written', emitted', hwritten', hemitted', hall'⟩ := h'
  exact ⟨_, _, hwritten.append hwritten', hemitted.append hemitted', List.rel_append hall hall'⟩

end Carries

/-- A repetition is written with digits and a comma. -/
private theorem not_mem_repetition {c : Char} (hdigit : c.isDigit = false) (hcomma : c ≠ ',')
    (least : Nat)
    (most : Option Nat) : c ∉ repetition least most := by
  have hnumber (n : Nat) : c ∉ (Nat.repr n).toList := fun hc => by
    rw [Decimal.toList_repr] at hc
    exact Bool.false_ne_true (hdigit.symm.trans (Decimal.isDigit_of_mem_toDigits hc))
  rw [repetition, List.mem_append, List.mem_cons, not_or, not_or]
  refine ⟨hnumber least, hcomma, ?_⟩
  cases most with
  | none => exact List.not_mem_nil
  | some m => exact hnumber m

private theorem carries_jump {bounds : Chars} {least : Nat} {most : Option Nat}
    (hbounds : Bounds bounds least most) (horder : InOrder least most) :
    Carries ('[' :: (bounds ++ [']'])) (jump least most).renderChars := by
  have hrender : (jump least most).renderChars =
      renderAny ++ ('\x7b' :: (repetition least most ++ ['\x7d'])) := by
    cases most <;> simp [renderChars, repetition]
  have hany : Encloses '\x7b' '\x7d' renderAny [] := .of_not_mem (by decide)
  have hemitted : Encloses '\x7b' '\x7d' ('\x7b' :: (repetition least most ++ ['\x7d'])) _ :=
    .mark (not_mem_repetition (by decide) (by decide) least most)
      (not_mem_repetition (by decide) (by decide) least most) (by decide)
  obtain ⟨hopen, hclose⟩ := hbounds.not_mem_brackets
  exact ⟨[bounds], _, .mark hopen hclose (by decide), hrender ▸ hany.append hemitted,
    .cons ⟨least, most, hbounds, horder, rfl⟩ .nil⟩

/-- A byte is written without braces. -/
private theorem not_mem_renderChars_byte (high low : Option Nat) :
    '\x7b' ∉ (byte high low).renderChars := by
  have hbyte (n : Nat) : '\x7b' ∉ renderByte n := by
    have hdigit (k : Nat) (hk : k < 16) : '\x7b' ≠ Hexadecimal.upper k := fun heq => by
      have hvalue := Hexadecimal.value?_upper hk
      have hnone : Hexadecimal.value? '\x7b' = none := by decide
      rw [← heq, hnone] at hvalue
      exact nomatch hvalue
    have hhigh := hdigit (n.toUInt8.toNat / 16) (Nat.div_lt_of_lt_mul n.toUInt8.toNat_lt)
    have hlow := hdigit (n.toUInt8.toNat % 16) (Nat.mod_lt _ (by decide))
    simp only [renderByte, Hexadecimal.upperByte, List.mem_cons, List.not_mem_nil, or_false, not_or]
    exact ⟨by decide, by decide, hhigh, hlow⟩
  cases high with
  | none =>
    cases low with
    | none => decide
    | some l => simp [renderChars, hbyte]
  | some h =>
    cases low with
    | none => simp [renderChars, hbyte]
    | some l => exact hbyte _

section Grammar

variable {Inner : Chars → Hex → Prop}

private theorem carries_of_parts {parts : List Hex}
    (hinner : ∀ text h, Inner text h → Carries text h.renderChars) (h : Parts Inner text parts) :
    Carries text (parts.flatMap renderChars) := by
  induction h with
  | nil => exact .of_not_mem List.not_mem_nil List.not_mem_nil
  | @blank c text parts hc _ ih =>
    have hmark : '[' ∉ [c] := fun hmem => by
      rw [← List.mem_singleton.mp hmem] at hc
      exact absurd hc (by decide)
    have hblank : Carries [c] [] := .of_not_mem hmark List.not_mem_nil
    exact hblank.append ih
  | @byte c d high low text parts hhigh hlow _ ih =>
    have hmark : '[' ∉ [c, d] := by
      have hc := (not_mark_of_half? hhigh).2.1
      have hd := (not_mark_of_half? hlow).2.1
      simp [hc.symm, hd.symm]
    exact Carries.append (.of_not_mem hmark (not_mem_renderChars_byte high low)) ih
  | @jump bounds text least most parts hbounds horder _ ih =>
    have hall := (carries_jump hbounds horder).append ih
    rwa [List.cons_append, List.append_assoc, List.singleton_append] at hall
  | @group inner text h parts hinner' _ ih =>
    have hopen : Carries ['('] "(?:".toList := .of_not_mem (by decide) (by decide)
    have hclose : Carries [')'] [')'] := .of_not_mem (by decide) (by decide)
    have hall := ((hopen.append (hinner inner h hinner')).append hclose).append ih
    rwa [List.singleton_append, List.cons_append, List.cons_append, List.append_assoc,
      List.singleton_append] at hall

private theorem carries_of_sequence {h : Hex}
    (hinner : ∀ text h, Inner text h → Carries text h.renderChars) (hseq : Sequence Inner text h) :
    Carries text h.renderChars := by
  obtain ⟨parts, hparts, hjoins⟩ := hseq
  obtain ⟨first, others, rfl, rfl⟩ := hjoins.eq
  rw [renderChars_foldl_seq]
  exact carries_of_parts hinner hparts

private theorem renderChars_foldl_alt (first : Hex) (others : List Hex) :
    (others.foldl .alt first).renderChars =
      first.renderChars ++ others.flatMap fun next => '|' :: next.renderChars := by
  induction others generalizing first with
  | nil => exact (List.append_nil _).symm
  | cons next others ih =>
    rw [List.foldl_cons, ih, renderChars, List.flatMap_cons, List.append_assoc]

private theorem carries_of_alternatives {first : Hex} {others : List Hex}
    (hinner : ∀ text h, Inner text h → Carries text h.renderChars)
    (h : Alternatives Inner text first others) :
    Carries text (others.foldl .alt first).renderChars := by
  rw [renderChars_foldl_alt]
  induction h with
  | last hlast =>
    rw [List.flatMap_nil, List.append_nil]
    exact carries_of_sequence hinner hlast
  | bar hfirst _ ih =>
    have hbar : Carries ['|'] ['|'] := .of_not_mem (by decide) (by decide)
    have hall := (carries_of_sequence hinner hfirst).append (hbar.append ih)
    rwa [List.singleton_append, List.singleton_append] at hall

end Grammar

private theorem carries_of_within {depth : Nat} :
    ∀ text h, Within depth text h → Carries text h.renderChars := by
  induction depth with
  | zero => exact fun _ _ => False.elim
  | succ depth ih =>
    rintro text _ ⟨first, others, halternatives, rfl⟩
    exact carries_of_alternatives ih halternatives

/-- **In a body of the grammar** every jump is repeated with the bounds that are written. -/
theorem forall₂_repeats {h : Hex} (hbody : IsBody text h) :
    List.Forall₂ Repeats (enclosed '[' ']' text) (enclosed '\x7b' '\x7d' h.renderChars) := by
  obtain ⟨written, emitted, hwritten, hemitted, hall⟩ :=
    carries_of_sequence carries_of_within hbody
  rwa [hwritten.eq, hemitted.eq]

/-! ### Jumps that are read -/

/-- The jumps that are read are what is kept of the written ones. -/
private theorem Keeps.forall₂_keepsBounds (h : Keeps text text') :
    List.Forall₂ KeepsBounds (enclosed '[' ']' text) (enclosed '[' ']' text') := by
  induction h with
  | nil => exact .nil
  | cons hc _ ih =>
    rw [enclosed, enclosed, if_neg hc, if_neg hc]
    exact ih
  | jump hbounds _ ih =>
    obtain ⟨_, _, _, _, hwritten, hkept⟩ := hbounds.exists_bounds
    obtain ⟨hopen, hclose⟩ := hwritten.not_mem_brackets
    obtain ⟨hopen', hclose'⟩ := hkept.not_mem_brackets
    rw [enclosed_mark hopen hclose (by decide), enclosed_mark hopen' hclose' (by decide)]
    exact .cons hbounds ih

/-- Lists that are related one by one to a list between them are related one by one. -/
private theorem forall₂_comp {α β γ : Type} {R : α → β → Prop} {S : β → γ → Prop} {xs : List α}
    {ys : List β} {zs : List γ} (hxy : List.Forall₂ R xs ys) (hyz : List.Forall₂ S ys zs) :
    List.Forall₂ (fun x z => ∃ y, R x y ∧ S y z) xs zs := by
  induction hxy generalizing zs with
  | nil =>
    cases hyz
    exact .nil
  | cons hhead _ ih =>
    cases hyz with
    | cons hhead' htail => exact .cons ⟨_, hhead, hhead'⟩ (ih htail)

/-- **How a jump is read**: in a body that is read, every jump is repeated with what is kept of its
bounds, and with the bounds that are written where the numbers on both sides of a dash fit
thirty-two bits. -/
theorem repeats_of_parse {body : String} {h : Hex} (hparse : parse body = .ok h) :
    List.Forall₂ (fun written emitted => ∃ kept, KeepsBounds written kept ∧ Repeats kept emitted)
        (enclosed '[' ']' body.toList) (enclosed '\x7b' '\x7d' h.renderChars) ∧
      (JumpsFit body.toList →
        List.Forall₂ Repeats (enclosed '[' ']' body.toList)
          (enclosed '\x7b' '\x7d' h.renderChars)) := by
  obtain ⟨body', hkeeps, hbody⟩ := exists_isBody_of_parse hparse
  refine ⟨forall₂_comp hkeeps.forall₂_keepsBounds (forall₂_repeats hbody), fun hfit => ?_⟩
  rw [hkeeps.eq_self hfit] at hbody
  exact forall₂_repeats hbody

/-- Two jumps that are read, one of them without a number. -/
theorem repeats_of_parse_spaced :
    ∃ h, parse "4D [ 2-007 ] (5A|00 [-] ?1)" = .ok h ∧
      JumpsFit "4D [ 2-007 ] (5A|00 [-] ?1)".toList ∧
      List.Forall₂ Repeats [" 2-007 ".toList, "-".toList] ["2,7".toList, "0,".toList] := by
  have hread : parse "4D [ 2-007 ] (5A|00 [-] ?1)" = .ok
      (.seq (.seq (.byte (some 4) (some 13)) (.jump 2 (some 7)))
        (.group (.alt (.byte (some 5) (some 10))
          (.seq (.seq (.byte (some 0) (some 0)) (.jump 0 none)) (.byte none (some 1)))))) := by
    decide +kernel
  have hfit : JumpsFit "4D [ 2-007 ] (5A|00 [-] ?1)".toList :=
    (numbersFit_of_length_filter_le (by decide)).jumpsFit
  exact ⟨_, hread, hfit, (repeats_of_parse hread).2 hfit⟩

/-- **An upper bound that is lost**: the greatest number of a jump is beyond thirty-two bits, and
the body is read as if there were none. -/
theorem not_repeats_overflowing :
    ∃ h, parse "4D [2-4294967296] 5A" = .ok h ∧
      enclosed '[' ']' "4D [2-4294967296] 5A".toList = ["2-4294967296".toList] ∧
      enclosed '\x7b' '\x7d' h.renderChars = ["2,".toList] ∧
      ¬List.Forall₂ Repeats (enclosed '[' ']' "4D [2-4294967296] 5A".toList)
        (enclosed '\x7b' '\x7d' h.renderChars) := by
  have hread : parse "4D [2-4294967296] 5A" = .ok
      (.seq (.seq (.byte (some 4) (some 13)) (.jump 2 none)) (.byte (some 5) (some 10))) := by
    decide +kernel
  refine ⟨_, hread, by decide +kernel, by decide +kernel, fun hall => ?_⟩
  have hall : List.Forall₂ Repeats ["2-4294967296".toList] ["2,".toList] := hall
  obtain ⟨⟨least, most, hbounds, horder, -⟩, -⟩ := List.forall₂_cons.mp hall
  -- the reader finds no upper bound, so that none could be written
  have hjump := readJump_of_bounds hbounds horder []
  have hnone : readJump ("2-4294967296".toList ++ [']']) = .ok (.jump 2 none, []) := by
    decide +kernel
  obtain ⟨rfl, rfl⟩ : least = 2 ∧ most = none := by
    rw [hnone] at hjump
    cases hjump
    exact ⟨rfl, rfl⟩
  obtain ⟨low, high, htext, hblank⟩ := hbounds.exists_blank
  have hlast : ('-' :: high).getLast? = some '6' := by
    rw [← List.getLast?_append_of_ne_nil low (List.cons_ne_nil '-' high), ← htext]
    rfl
  rcases List.mem_cons.mp (List.mem_of_getLast? hlast) with h | h
  · exact absurd h (by decide)
  · exact absurd (hblank _ h) (by decide)

end Hex

end PackageScan
