import PackageScan.Pattern.Hex
import PackageScan.Proofs.Text.Digits

/-!
# The grammar of hex strings

A body is parts one after another with white space between them: bytes, jumps, and groups of
alternatives. `Hex.IsBody` is that grammar, written without the reader: `Hex.Parts` says which parts
a text is made of, given what may stand between parentheses; `Hex.Sequence` wants at least one part
and no jump at either end; `Hex.Alternatives` are sequences with bars between them; and
`Hex.Within depth` is what a group may hold that groups nest `depth` deep inside.

The reader leaves out the numbers in a jump that do not fit thirty-two bits: `Hex.Keeps` relates a
text to what is read in place of it, and a text whose numbers fit is read as it is
(`Hex.Keeps.eq_self`).
-/

namespace PackageScan

namespace Hex

/-! ### The grammar -/

/-- Does the text hold white space alone? -/
def Blank (text : Chars) : Prop := ∀ c ∈ text, Text.isBlank c = true

/-- The text writes a number with white space around it, or is white space alone. -/
def Writes (text : Chars) (n : Option Nat) : Prop :=
  ∃ before digits after : Chars, text = before ++ (digits ++ after) ∧ Blank before ∧ Blank after ∧
    (∀ d ∈ digits, d.isDigit = true) ∧
    n = if digits = [] then none else some (Decimal.value digits)

/-- What stands between the brackets of a jump: a number of bytes, or the least and the greatest
number with a dash between them. There need be no least number, which is zero then, and no greatest
one. -/
inductive Bounds : Chars → Nat → Option Nat → Prop
  | exactly {text : Chars} {n : Nat} (hn : Writes text (some n)) : Bounds text n (some n)
  | between {low high : Chars} {least most : Option Nat} (hleast : Writes low least)
      (hmost : Writes high most) : Bounds (low ++ '-' :: high) (least.getD 0) most

/-- The bounds of a jump are in order, and none is too large. -/
structure InOrder (least : Nat) (most : Option Nat) : Prop where
  least_le : least ≤ Limits.hexJump
  most_le : ∀ m ∈ most, least ≤ m ∧ m ≤ Limits.hexJump

/-- The half of a byte that a character stands for. -/
def half? (c : Char) : Option (Option Nat) :=
  if c = '?' then some none else (Hexadecimal.value? c).map some

/-- Parts one after another with white space between them; `Inner` says what a group may hold. -/
inductive Parts (Inner : Chars → Hex → Prop) : Chars → List Hex → Prop
  | nil : Parts Inner [] []
  | blank {c : Char} {text : Chars} {parts : List Hex} (hc : Text.isBlank c = true)
      (hrest : Parts Inner text parts) : Parts Inner (c :: text) parts
  | byte {c d : Char} {high low : Option Nat} {text : Chars} {parts : List Hex}
      (hhigh : half? c = some high) (hlow : half? d = some low)
      (hrest : Parts Inner text parts) : Parts Inner (c :: d :: text) (.byte high low :: parts)
  | jump {bounds text : Chars} {least : Nat} {most : Option Nat} {parts : List Hex}
      (hbounds : Bounds bounds least most) (horder : InOrder least most)
      (hrest : Parts Inner text parts) :
      Parts Inner ('[' :: (bounds ++ ']' :: text)) (.jump least most :: parts)
  | group {inner text : Chars} {h : Hex} {parts : List Hex} (hinner : Inner inner h)
      (hrest : Parts Inner text parts) :
      Parts Inner ('(' :: (inner ++ ')' :: text)) (.group h :: parts)

/-- The parts are the given one and others after it, with no jump at either end. -/
structure Joins (parts : List Hex) (h : Hex) : Prop where
  starts : ∀ part ∈ parts.head?, part.isJump = false
  ends : ∀ part ∈ parts.getLast?, part.isJump = false
  eq : ∃ first others, parts = first :: others ∧ others.foldl .seq first = h

/-- At least one part, and no jump at either end. -/
def Sequence (Inner : Chars → Hex → Prop) (text : Chars) (h : Hex) : Prop :=
  ∃ parts, Parts Inner text parts ∧ Joins parts h

/-- Sequences with bars between them: the first one and the others. -/
inductive Alternatives (Inner : Chars → Hex → Prop) : Chars → Hex → List Hex → Prop
  | last {text : Chars} {h : Hex} (hlast : Sequence Inner text h) : Alternatives Inner text h []
  | bar {text text' : Chars} {h next : Hex} {others : List Hex} (hfirst : Sequence Inner text h)
      (hrest : Alternatives Inner text' next others) :
      Alternatives Inner (text ++ '|' :: text') h (next :: others)

/-- What a group may hold: alternatives, inside which groups nest at most so deep. There may be no
group where nothing is left of the depth. -/
def Within : Nat → Chars → Hex → Prop
  | 0, _, _ => False
  | depth + 1, text, h =>
    ∃ first others, Alternatives (Within depth) text first others ∧ others.foldl .alt first = h

/-- **The grammar of hex strings**: what a body is read as. -/
def IsBody (body : Chars) (h : Hex) : Prop := Sequence (Within Limits.hexNesting) body h

/-- Every number that stands between brackets fits thirty-two bits. -/
def NumbersFit (body : Chars) : Prop :=
  ∀ before inner digits after, body = before ++ '[' :: (inner ++ (digits ++ after)) →
    ']' ∉ inner → (∀ d ∈ digits, d.isDigit = true) → Decimal.value digits < 2 ^ 32

/-- The numbers on both sides of a dash between brackets fit thirty-two bits. -/
def JumpsFit (body : Chars) : Prop :=
  ∀ before low high after least most,
    body = before ++ '[' :: (low ++ '-' :: (high ++ ']' :: after)) →
    Writes low least → Writes high most → (∀ n ∈ least, n < 2 ^ 32) ∧ ∀ n ∈ most, n < 2 ^ 32

/-! ### Numbers -/

variable {text : Chars} {n : Option Nat}

theorem writes_nil : Writes [] none := ⟨[], [], [], rfl, nofun, nofun, nofun, rfl⟩

theorem Writes.ne_nil {k : Nat} (h : Writes text (some k)) : text ≠ [] := by
  obtain ⟨before, digits, after, rfl, -, -, -, hn⟩ := h
  have hdigits : digits ≠ [] := fun hnone => by
    rw [if_pos hnone] at hn
    exact nomatch hn
  simp [hdigits]

/-- A number is written with digits and white space alone. -/
private theorem Writes.not_mem {c : Char} (h : Writes text n) (hblank : Text.isBlank c = false)
    (hdigit : c.isDigit = false) : c ∉ text := by
  obtain ⟨before, digits, after, rfl, hbefore, hafter, hdigits, -⟩ := h
  rw [List.mem_append, List.mem_append]
  rintro (hmem | hmem | hmem)
  · exact Bool.false_ne_true (hblank.symm.trans (hbefore c hmem))
  · exact Bool.false_ne_true (hdigit.symm.trans (hdigits c hmem))
  · exact Bool.false_ne_true (hblank.symm.trans (hafter c hmem))

/-- Between brackets there are none. -/
theorem Bounds.not_mem_brackets {least : Nat} {most : Option Nat} (h : Bounds text least most) :
    '[' ∉ text ∧ ']' ∉ text := by
  have hbracket {c : Char} (hblank : Text.isBlank c = false) (hdigit : c.isDigit = false)
      (hdash : c ≠ '-') : c ∉ text := by
    cases h with
    | exactly hn => exact hn.not_mem hblank hdigit
    | between hleast hmost =>
      rw [List.mem_append, List.mem_cons, not_or, not_or]
      exact ⟨hleast.not_mem hblank hdigit, hdash, hmost.not_mem hblank hdigit⟩
  exact ⟨hbracket (by decide) (by decide) (by decide), hbracket (by decide) (by decide) (by decide)⟩

/-- There is no greatest number only if none is written. -/
theorem Bounds.exists_blank {least : Nat} (h : Bounds text least none) :
    ∃ low high, text = low ++ '-' :: high ∧ Blank high := by
  cases h with
  | @between low high _ _ _ hmost =>
    obtain ⟨before, digits, after, rfl, hbefore, hafter, -, hnone⟩ := hmost
    obtain rfl : digits = [] := by
      by_contra hdigits
      rw [if_neg hdigits] at hnone
      exact nomatch hnone
    exact ⟨low, _, rfl, fun c hc => (List.mem_append.mp hc).elim (hbefore c) (hafter c)⟩

/-! ### Texts whose numbers fit -/

variable {body before inner after : Chars}

/-- Nine digits do not write a number that is too great. -/
theorem numbersFit_of_length_filter_le
    (h : (body.filter Char.isDigit).length ≤ 9) : NumbersFit body := by
  rintro before inner digits after rfl - hdigits
  have hsublist : digits.Sublist (before ++ '[' :: (inner ++ (digits ++ after))) :=
    (List.sublist_append_left digits after).trans <|
      (List.sublist_append_right inner _).trans <|
        (List.sublist_cons_self '[' _).trans (List.sublist_append_right before _)
  have hlength := (hsublist.filter Char.isDigit).length_le
  rw [List.filter_eq_self.mpr hdigits] at hlength
  calc Decimal.value digits < 10 ^ digits.length := Decimal.value_lt hdigits
    _ ≤ 10 ^ 9 := Nat.pow_le_pow_right (by decide) (Nat.le_trans hlength h)
    _ < 2 ^ 32 := by decide

theorem NumbersFit.lt (h : NumbersFit body)
    (hbody : body = before ++ '[' :: (inner ++ (text ++ after))) (hinner : ']' ∉ inner)
    (hn : Writes text n) : ∀ k ∈ n, k < 2 ^ 32 := by
  obtain ⟨blank, digits, rest, rfl, hblank, -, hdigits, rfl⟩ := hn
  intro k hk
  split_ifs at hk
  · exact nomatch hk
  · obtain rfl := Option.some.inj hk
    refine h before (inner ++ blank) digits (rest ++ after) ?_ ?_ hdigits
    · simp only [hbody, List.append_assoc]
    · rw [List.mem_append]
      exact fun hmem => hmem.elim hinner fun hmem => absurd (hblank _ hmem) (by decide)

theorem NumbersFit.jumpsFit (h : NumbersFit body) : JumpsFit body := by
  intro before low high after least most hbody hleast hmost
  have hfirst : body = before ++ '[' :: ([] ++ (low ++ '-' :: (high ++ ']' :: after))) := hbody
  refine ⟨h.lt hfirst List.not_mem_nil hleast, ?_⟩
  have hsplit : body = before ++ '[' :: ((low ++ ['-']) ++ (high ++ ']' :: after)) := by
    rw [hbody, List.append_assoc, List.singleton_append]
  refine h.lt hsplit ?_ hmost
  rw [List.mem_append]
  exact fun hmem => hmem.elim (hleast.not_mem (by decide) (by decide)) (by decide)

/-! ### What is read in place of a text -/

/-- A number is kept if it fits thirty-two bits, and left out if it does not. -/
inductive KeepsNumber : Chars → Chars → Prop
  | fits {text : Chars} {n : Option Nat} (hn : Writes text n) (hfit : ∀ k ∈ n, k < 2 ^ 32) :
      KeepsNumber text text
  | lost {text : Chars} {n : Nat} (hn : Writes text (some n)) (hlarge : 2 ^ 32 ≤ n) :
      KeepsNumber text []

/-- The numbers on both sides of a dash are kept or left out; a number alone stays. -/
inductive KeepsBounds : Chars → Chars → Prop
  | exactly {text : Chars} {n : Nat} (hn : Writes text (some n)) : KeepsBounds text text
  | between {low low' high high' : Chars} (hlow : KeepsNumber low low')
      (hhigh : KeepsNumber high high') : KeepsBounds (low ++ '-' :: high) (low' ++ '-' :: high')

/-- What is read in place of a text: the bounds between brackets are kept or left out, and
everything else is kept. -/
inductive Keeps : Chars → Chars → Prop
  | nil : Keeps [] []
  | cons {c : Char} {text text' : Chars} (hc : c ≠ '[') (hrest : Keeps text text') :
      Keeps (c :: text) (c :: text')
  | jump {bounds bounds' text text' : Chars} (hbounds : KeepsBounds bounds bounds')
      (hrest : Keeps text text') :
      Keeps ('[' :: (bounds ++ ']' :: text)) ('[' :: (bounds' ++ ']' :: text'))

theorem Keeps.append {text text' more more' : Chars} (h : Keeps text text')
    (hmore : Keeps more more') : Keeps (text ++ more) (text' ++ more') := by
  induction h with
  | nil => exact hmore
  | cons hc _ ih => exact .cons hc ih
  | jump hbounds _ ih =>
    simp only [List.cons_append, List.append_assoc]
    exact .jump hbounds ih

/-- A text without brackets is read as it is. -/
theorem keeps_self {text : Chars} (h : '[' ∉ text) : Keeps text text := by
  induction text with
  | nil => exact .nil
  | cons c text ih =>
    rw [List.mem_cons, not_or] at h
    exact .cons (Ne.symm h.1) (ih h.2)

theorem KeepsNumber.exists_writes {text text' : Chars} (h : KeepsNumber text text') :
    ∃ n n', Writes text n ∧ Writes text' n' ∧ ((∀ k ∈ n, k < 2 ^ 32) → text' = text) := by
  cases h with
  | fits hn _ => exact ⟨_, _, hn, hn, fun _ => rfl⟩
  | lost hn hlarge =>
    exact ⟨_, _, hn, writes_nil, fun hfit => absurd hlarge (Nat.not_le.mpr (hfit _ rfl))⟩

/-- What is kept of bounds are bounds again. -/
theorem KeepsBounds.exists_bounds {text text' : Chars} (h : KeepsBounds text text') :
    ∃ least most least' most', Bounds text least most ∧ Bounds text' least' most' := by
  cases h with
  | exactly hn => exact ⟨_, _, _, _, .exactly hn, .exactly hn⟩
  | between hlow hhigh =>
    obtain ⟨_, _, hleast, hleast', -⟩ := hlow.exists_writes
    obtain ⟨_, _, hmost, hmost', -⟩ := hhigh.exists_writes
    exact ⟨_, _, _, _, .between hleast hmost, .between hleast' hmost'⟩

/-- **Where the numbers fit**, a text is read as it is. -/
theorem Keeps.eq_self {text text' : Chars} (h : Keeps text text') (hfit : JumpsFit text) :
    text' = text := by
  induction h with
  | nil => rfl
  | @cons c text text' _ _ ih =>
    refine congrArg (c :: ·) (ih ?_)
    rintro before low high after least most rfl
    exact hfit (c :: before) low high after least most rfl
  | @jump bounds bounds' text text' hbounds _ ih =>
    have hrest : text' = text := by
      refine ih ?_
      rintro before low high after least most rfl
      refine hfit ('[' :: (bounds ++ ']' :: before)) low high after least most ?_
      rw [List.cons_append, List.append_assoc, List.cons_append]
    have hsame : bounds' = bounds := by
      cases hbounds with
      | exactly hn => rfl
      | @between low low' high high' hlow hhigh =>
        obtain ⟨least, -, hleast, -, hlow⟩ := hlow.exists_writes
        obtain ⟨most, -, hmost, -, hhigh⟩ := hhigh.exists_writes
        have hboth := hfit [] low high text least most
          (by rw [List.append_assoc]; rfl) hleast hmost
        rw [hlow hboth.1, hhigh hboth.2]
    rw [hsame, hrest]

end Hex

end PackageScan
