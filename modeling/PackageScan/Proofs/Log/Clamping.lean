import PackageScan.Proofs.Log.Lines
import PackageScan.Proofs.Source.Quoting

/-!
# Messages that are too long

A message is clamped to the longest prefix that is within the limit (`Message.IsClamped`). Where the
prefix ends is found by stepping back from the limit over the bytes of a character that does not fit
as a whole, and the message is then cut at that byte.

Looked up in the bytes, each of these steps may go wrong: an offset may fall below zero, the search
may take longer than expected, and the bytes before the cut may be no text. `Message.clamp?` clamps
in this way and gives up at the first step that goes wrong. None does: an offset is a boundary of
the bytes exactly if some prefix ends there (`Message.isValid_eq_isBoundary`), the boundary behind
the longest prefix that fits is the last one up to the limit (`Message.lastBoundary_eq_byteLength`),
and it is at most three bytes away because the character after it has at most four.
-/

namespace PackageScan

open Source (byteLength byteLength_append byteLength_cons byteLength_nil byteLength_toList sub?)

namespace Message

variable {cs front rest : List Char} {c : Char} {m n : Nat}

/-! ### The longest prefix that fits -/

private theorem byteLength_takeBytes_le (cs : List Char) (n : Nat) :
    byteLength (takeBytes cs n) ≤ n := by
  induction cs generalizing n with
  | nil =>
    rw [takeBytes, byteLength_nil]
    exact Nat.zero_le n
  | cons c cs ih =>
    rw [takeBytes]
    split_ifs with hc
    · have hrest := ih (n - c.utf8Size)
      rw [byteLength_cons]
      omega
    · rw [byteLength_nil]
      exact Nat.zero_le n

/-- The first character that is left out does not fit. -/
private theorem exists_next (h : n < byteLength cs) :
    ∃ c rest, cs = takeBytes cs n ++ c :: rest ∧ n < byteLength (takeBytes cs n) + c.utf8Size := by
  induction cs generalizing n with
  | nil => exact absurd h (by rw [byteLength_nil]; exact Nat.not_lt_zero n)
  | cons c cs ih =>
    rw [takeBytes]
    split_ifs with hc
    · rw [byteLength_cons] at h
      obtain ⟨d, rest, hsplit, hd⟩ := ih (n := n - c.utf8Size) (by omega)
      refine ⟨d, rest, congrArg (c :: ·) hsplit, ?_⟩
      rw [byteLength_cons]
      omega
    · exact ⟨c, cs, rfl, by rw [byteLength_nil]; omega⟩

/-! ### Boundaries -/

/-- A boundary is where a prefix ends. -/
private theorem isBoundary_iff :
    isBoundary cs n = true ↔ ∃ front, front <+: cs ∧ byteLength front = n := by
  induction cs generalizing n with
  | nil =>
    cases n with
    | zero => exact iff_of_true rfl ⟨[], List.nil_prefix, byteLength_nil⟩
    | succ n =>
      refine iff_of_false Bool.false_ne_true ?_
      rintro ⟨front, hfront, hlength⟩
      rw [List.prefix_nil.mp hfront, byteLength_nil] at hlength
      exact Nat.succ_ne_zero n hlength.symm
  | cons c cs ih =>
    cases n with
    | zero => exact iff_of_true rfl ⟨[], List.nil_prefix, byteLength_nil⟩
    | succ n =>
      rw [isBoundary, Bool.and_eq_true, decide_eq_true_eq, ih]
      constructor
      · rintro ⟨hc, front, hfront, hlength⟩
        refine ⟨c :: front, List.cons_prefix_cons.mpr ⟨rfl, hfront⟩, ?_⟩
        rw [byteLength_cons]
        omega
      · rintro ⟨front, hfront, hlength⟩
        cases front with
        | nil =>
          rw [byteLength_nil] at hlength
          exact absurd hlength.symm (Nat.succ_ne_zero n)
        | cons d front =>
          obtain ⟨rfl, hrest⟩ := List.cons_prefix_cons.mp hfront
          rw [byteLength_cons] at hlength
          exact ⟨by omega, front, hrest, by omega⟩

/-- **Boundaries in the bytes.** An offset is a boundary exactly if a character begins with the byte
there or the bytes end. -/
theorem isValid_eq_isBoundary (message : String) (n : Nat) :
    String.Pos.Raw.isValid message ⟨n⟩ = isBoundary message.toList n := by
  rw [Bool.eq_iff_iff, String.Pos.Raw.isValid_eq_true_iff, isBoundary_iff,
    String.Pos.Raw.isValid_iff_exists_append]
  constructor
  · rintro ⟨s, t, rfl, hend⟩
    refine ⟨s.toList, ?_, ?_⟩
    · rw [String.toList_append]
      exact List.prefix_append _ _
    · rw [byteLength_toList]
      exact (congrArg String.Pos.Raw.byteIdx hend).symm
  · rintro ⟨front, ⟨rest, hsplit⟩, rfl⟩
    refine ⟨String.ofList front, String.ofList rest, ?_, rfl⟩
    rw [← String.ofList_append, hsplit, String.ofList_toList]

/-- There is no boundary within a character. -/
private theorem isBoundary_eq_false (hlow : byteLength front < n)
    (hhigh : n < byteLength front + c.utf8Size) : isBoundary (front ++ c :: rest) n = false := by
  rw [Bool.eq_false_iff, ne_eq, isBoundary_iff]
  rintro ⟨other, hother, rfl⟩
  have hfront : front <+: front ++ c :: rest := List.prefix_append _ _
  rcases List.prefix_or_prefix_of_prefix hfront hother with ⟨more, rfl⟩ | ⟨more, rfl⟩
  · -- the other prefix is longer, and so has the character too
    cases more with
    | nil =>
      rw [List.append_nil] at hlow
      exact Nat.lt_irrefl _ hlow
    | cons d more =>
      obtain ⟨rfl, -⟩ := List.cons_prefix_cons.mp ((List.prefix_append_right_inj front).mp hother)
      rw [byteLength_append, byteLength_cons] at hhigh
      omega
  · rw [byteLength_append] at hlow
    omega

/-! ### The search -/

/-- A search back ends at the first boundary that it meets. -/
private theorem lastBoundary_eq (hm : isBoundary cs m = true) (hle : m ≤ n)
    (hnone : ∀ k, m < k → k ≤ n → isBoundary cs k = false) : lastBoundary cs n = m := by
  induction n with
  | zero => exact (Nat.le_zero.mp hle).symm
  | succ n ih =>
    rw [lastBoundary]
    rcases Nat.lt_or_eq_of_le hle with hlt | rfl
    · rw [hnone (n + 1) hlt (Nat.le_refl _), if_neg Bool.false_ne_true]
      exact ih (Nat.le_of_lt_succ hlt) fun k hk hkn => hnone k hk (Nat.le_succ_of_le hkn)
    · exact if_pos hm

/-- Goes back from an offset in the bytes of a message to the first boundary, in bounded steps.
A step is a difference that must not be below zero. -/
def stepBack? (message : String) : Nat → Nat → Option Nat
  | 0, offset => if String.Pos.Raw.isValid message ⟨offset⟩ then some offset else none
  | steps + 1, offset =>
    if String.Pos.Raw.isValid message ⟨offset⟩ then some offset
    else do stepBack? message steps (← sub? offset 1)

/-- Enough steps lead to the first boundary. -/
private theorem stepBack?_eq {message : String} (hm : isBoundary message.toList m = true)
    {steps : Nat}
    (hle : m ≤ n) (hnear : n ≤ m + steps)
    (hnone : ∀ k, m < k → k ≤ n → isBoundary message.toList k = false) :
    stepBack? message steps n = some m := by
  induction steps generalizing n with
  | zero =>
    obtain rfl : n = m := Nat.le_antisymm hnear hle
    rw [stepBack?, isValid_eq_isBoundary, if_pos hm]
  | succ steps ih =>
    rw [stepBack?, isValid_eq_isBoundary]
    rcases Nat.lt_or_eq_of_le hle with hlt | rfl
    · have hsub : sub? n 1 = some (n - 1) := if_pos (by omega)
      rw [hnone n hlt (Nat.le_refl n), if_neg Bool.false_ne_true, hsub, Option.bind_eq_bind,
        Option.bind_some]
      exact ih (by omega) (by omega) fun k hk hkn => hnone k hk (by omega)
    · exact if_pos hm

/-- The boundary behind the longest prefix that fits is the last one up to the limit. -/
private theorem boundary_takeBytes (h : n < byteLength cs) :
    isBoundary cs (byteLength (takeBytes cs n)) = true ∧
      ∀ k, byteLength (takeBytes cs n) < k → k ≤ n → isBoundary cs k = false := by
  refine ⟨isBoundary_iff.mpr ⟨_, takeBytes_prefix cs n, rfl⟩, fun k hk hkn => ?_⟩
  obtain ⟨c, rest, hsplit, hc⟩ := exists_next h
  rw [hsplit]
  exact isBoundary_eq_false hk (by omega)

theorem lastBoundary_eq_byteLength (h : n < byteLength cs) :
    lastBoundary cs n = byteLength (takeBytes cs n) := by
  obtain ⟨hboundary, hnone⟩ := boundary_takeBytes h
  exact lastBoundary_eq hboundary (byteLength_takeBytes_le cs n) hnone

/-- From within a character of three bytes the search goes back to where the character begins. -/
example : lastBoundary ['a', '€', 'b'] 3 = 1 ∧ takeBytes ['a', '€', 'b'] 3 = ['a'] := by decide

/-- A prefix is taken if it ends at the offset. -/
private theorem takeBytes_byteLength (front rest : List Char) :
    takeBytes (front ++ rest) (byteLength front) = front := by
  induction front with
  | nil =>
    rw [List.nil_append, byteLength_nil]
    cases rest with
    | nil => rfl
    | cons c rest => exact if_neg (Nat.not_le.mpr c.utf8Size_pos)
  | cons c front ih =>
    rw [List.cons_append, takeBytes, byteLength_cons, if_pos (Nat.le_add_right _ _),
      Nat.add_sub_cancel_left, ih]

/-! ### Messages -/

variable {message : String}

/-- A message that is too long is cut behind its longest prefix that fits. -/
private theorem clamp_of_lt (h : Limits.logMessage < message.utf8ByteSize) :
    clamp message = String.ofList (takeBytes message.toList Limits.logMessage) := by
  obtain ⟨rest, hsplit⟩ := takeBytes_prefix message.toList Limits.logMessage
  have hcut := takeBytes_byteLength (takeBytes message.toList Limits.logMessage) rest
  rw [hsplit] at hcut
  rw [← byteLength_toList] at h
  rw [clamp, ← byteLength_toList, if_neg (Nat.not_le.mpr h)]
  dsimp only
  rw [lastBoundary_eq_byteLength h, hcut]

/-- **The search is short.** The last boundary up to the limit is found in three steps, none of
which goes below zero. -/
theorem stepBack?_limit (h : Limits.logMessage < message.utf8ByteSize) :
    stepBack? message 3 Limits.logMessage =
      some (lastBoundary message.toList Limits.logMessage) := by
  rw [← byteLength_toList] at h
  obtain ⟨hboundary, hnone⟩ := boundary_takeBytes h
  obtain ⟨c, rest, -, hc⟩ := exists_next h
  have hfour : c.utf8Size ≤ 4 := c.utf8Size_le_four
  rw [lastBoundary_eq_byteLength h]
  exact stepBack?_eq hboundary (byteLength_takeBytes_le _ _) (by omega) hnone

/-- The bytes of a text that is followed by another one are the bytes of a text. -/
private theorem fromUTF8?_extract (s t : String) :
    String.fromUTF8? ((s ++ t).toByteArray.extract 0 s.utf8ByteSize) = some s := by
  have hextract : (s ++ t).toByteArray.extract 0 s.utf8ByteSize = s.toByteArray := by
    rw [String.toByteArray_append, ← String.size_toByteArray]
    exact ByteArray.extract_append_eq_left rfl
  rw [hextract]
  exact dif_pos s.isValidUTF8

/-- Clamps a message by its bytes, unless a step goes wrong: the search back from the limit goes
below zero or takes more than three steps, or the bytes before the cut are no text. -/
def clamp? (message : String) : Option String :=
  if message.utf8ByteSize ≤ Limits.logMessage then some message
  else do
    let stop ← stepBack? message 3 Limits.logMessage
    String.fromUTF8? (message.toByteArray.extract 0 stop)

/-- **Clamping does not go wrong.** Whatever the message is, it is clamped by its bytes as it is by
its characters. -/
theorem clamp?_eq (message : String) : clamp? message = some (clamp message) := by
  rw [clamp?]
  split_ifs with hfits
  · rw [clamp, if_pos hfits]
  · have h : Limits.logMessage < message.utf8ByteSize := Nat.not_le.mp hfits
    obtain ⟨rest, hsplit⟩ := clamp_prefix message
    have hmessage : message = clamp message ++ String.ofList rest := by
      rw [← String.toList_inj, String.toList_append, String.toList_ofList, hsplit]
    have hstop : lastBoundary message.toList Limits.logMessage = (clamp message).utf8ByteSize := by
      rw [lastBoundary_eq_byteLength (by rwa [byteLength_toList]), clamp_of_lt h]
      rfl
    have hslice := fromUTF8?_extract (clamp message) (String.ofList rest)
    rw [← hmessage] at hslice
    rw [stepBack?_limit h, Option.bind_eq_bind, Option.bind_some, hstop, hslice]

/-- What is left of a message is the longest prefix of it that is within the limit. -/
structure IsClamped (message clamped : String) : Prop where
  /-- Nothing is changed or left out before the cut. -/
  isPrefix : clamped.toList <+: message.toList
  /-- It is within the limit. -/
  size_le : clamped.utf8ByteSize ≤ Limits.logMessage
  /-- A message that is within the limit is left as it is. -/
  eq_self : message.utf8ByteSize ≤ Limits.logMessage → clamped = message
  /-- There is a character after the cut of any other message, and it does not fit. -/
  next : Limits.logMessage < message.utf8ByteSize →
    ∃ c rest, message.toList = clamped.toList ++ c :: rest ∧
      Limits.logMessage < clamped.utf8ByteSize + c.utf8Size

/-- **Messages are clamped to the longest prefix that fits.** The bytes before the cut are those of
a text, and the cut is found in three steps back from the limit that stay above zero. -/
theorem isClamped_clamp (message : String) :
    IsClamped message (clamp message) ∧ clamp? message = some (clamp message) := by
  refine ⟨⟨?_, ?_, fun hfits => ?_, fun h => ?_⟩, clamp?_eq message⟩
  · exact clamp_prefix message
  · rcases Nat.lt_or_ge Limits.logMessage message.utf8ByteSize with h | hfits
    · rw [clamp_of_lt h]
      exact byteLength_takeBytes_le _ _
    · rwa [clamp, if_pos hfits]
  · rw [clamp, if_pos hfits]
  · obtain ⟨c, rest, hsplit, hc⟩ := exists_next (by rwa [byteLength_toList])
    refine ⟨c, rest, ?_, ?_⟩
    · rw [clamp_of_lt h, String.toList_ofList]
      exact hsplit
    · rw [clamp_of_lt h]
      exact hc

end Message

end PackageScan
