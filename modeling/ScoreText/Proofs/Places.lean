import Mathlib.Order.Bounds.Defs
import ScoreText.Lexer.Scan

/-! Byte offsets and characters. The byte offsets at which a scan can start are the ends of the front
parts of the text; seeking goes to the first of them that is not before the target, and seeking the
end of a front part divides the text there. -/
namespace ScoreText

theorem utf8ByteSize_ofList (cs : List Char) : (String.ofList cs).utf8ByteSize = byteSize cs := by
  induction cs with
  | nil => rfl
  | cons c cs ih =>
    rw [String.ofList_cons, String.utf8ByteSize_append, String.utf8ByteSize_singleton, ih, byteSize]

theorem byteSize_toList (text : String) : byteSize text.toList = text.utf8ByteSize := by
  rw [← utf8ByteSize_ofList, String.ofList_toList]

/-- A character begins at the byte offset, or the text ends there. -/
def Boundary (text : String) (n : Nat) : Prop :=
  ∃ front, front <+: text.toList ∧ byteSize front = n

theorem boundary_iff_valid {text : String} {n : Nat} :
    Boundary text n ↔ (⟨n⟩ : String.Pos.Raw).IsValid text := by
  rw [String.Pos.Raw.isValid_iff_exists_take_toList]
  constructor
  · rintro ⟨front, ⟨behind, whole⟩, size⟩
    refine ⟨front.length, ?_⟩
    rw [← whole, List.take_left', utf8ByteSize_ofList, size]
    rfl
  · rintro ⟨i, size⟩
    exact ⟨text.toList.take i, List.take_prefix i _, by rw [← utf8ByteSize_ofList, ← size]⟩

theorem boundary_front {text : String} {front : List Char} (inside : front <+: text.toList) :
    Boundary text (byteSize front) :=
  ⟨front, inside, rfl⟩

theorem byteSize_pos {cs : List Char} (some_text : cs ≠ []) : 0 < byteSize cs := by
  cases cs with
  | nil => exact absurd rfl some_text
  | cons c cs =>
    have positive := c.utf8Size_pos
    rw [byteSize]
    omega

theorem last_cons (c : Char) (cs : List Char) (before : Option Char) :
    (c :: cs).getLast?.or before = cs.getLast?.or (some c) := by
  rw [List.getLast?_cons, Option.some_or]
  cases cs.getLast? <;> rfl

theorem seek_split (before : Option Char) (pos target : Nat) (cs : List Char) :
    ∃ front rest, front ++ rest = cs ∧
      seek before pos target cs = (front.getLast?.or before, pos + byteSize front, rest) := by
  induction cs generalizing before pos with
  | nil => exact ⟨[], [], rfl, rfl⟩
  | cons c cs ih =>
    by_cases reached : target ≤ pos
    · refine ⟨[], c :: cs, rfl, ?_⟩
      rw [seek, if_pos reached]
      rfl
    · obtain ⟨front, rest, whole, found⟩ := ih (some c) (pos + c.utf8Size)
      refine ⟨c :: front, rest, by rw [List.cons_append, whole], ?_⟩
      rw [seek, if_neg reached, found, last_cons, byteSize, Nat.add_assoc]

/-- Seeking stops at the first end of a front part that is not before the target or the end. -/
theorem seek_least (before : Option Char) (pos target : Nat) (cs : List Char) :
    IsLeast {n | (∃ front, front <+: cs ∧ pos + byteSize front = n) ∧
      min target (pos + byteSize cs) ≤ n} (seek before pos target cs).2.1 := by
  induction cs generalizing before pos with
  | nil =>
    refine ⟨⟨⟨[], List.prefix_refl _, rfl⟩, Nat.min_le_right _ _⟩, ?_⟩
    rintro n ⟨⟨front, _, rfl⟩, _⟩
    exact Nat.le_add_right _ _
  | cons c cs ih =>
    by_cases reached : target ≤ pos
    · rw [seek, if_pos reached]
      refine ⟨⟨⟨[], List.nil_prefix, rfl⟩, ?_⟩, ?_⟩
      · exact Nat.le_trans (Nat.min_le_left _ _) reached
      · rintro n ⟨⟨front, _, rfl⟩, _⟩
        exact Nat.le_add_right _ _
    · rw [seek, if_neg reached, byteSize]
      obtain ⟨⟨⟨front, inside, place⟩, behind⟩, least⟩ := ih (some c) (pos + c.utf8Size)
      rw [Nat.add_assoc] at behind
      refine ⟨⟨⟨c :: front, ?_, ?_⟩, behind⟩, ?_⟩
      · exact (List.prefix_cons_inj c).mpr inside
      · rw [byteSize, ← Nat.add_assoc, place]
      · rintro n ⟨⟨other, prefixed, rfl⟩, far⟩
        -- a front part that is shorter ends before the target, a longer one begins with the same character
        cases other with
        | nil =>
          have positive := c.utf8Size_pos
          simp only [byteSize] at far
          omega
        | cons d other =>
          obtain ⟨rfl, tail⟩ := List.cons_prefix_cons.mp prefixed
          apply least
          rw [byteSize, ← Nat.add_assoc, ← Nat.add_assoc] at far
          rw [byteSize, ← Nat.add_assoc]
          exact ⟨⟨other, tail, rfl⟩, far⟩

/-- Seeking the end of a front part divides the text there. -/
theorem seek_front (before : Option Char) (pos : Nat) (front rest : List Char) :
    seek before pos (pos + byteSize front) (front ++ rest) =
      (front.getLast?.or before, pos + byteSize front, rest) := by
  induction front generalizing before pos with
  | nil => cases rest <;> simp [seek, byteSize]
  | cons c front ih =>
    have positive := c.utf8Size_pos
    have ahead : ¬ pos + byteSize (c :: front) ≤ pos := by
      rw [byteSize]
      omega
    rw [List.cons_append, seek, if_neg ahead, last_cons, byteSize, ← Nat.add_assoc, ih]

theorem ofText_seek (text : String) (start : Nat) :
    ∃ front rest, front ++ rest = text.toList ∧
      (∀ s, Scanner.ofText s text start = ⟨s, front.getLast?, byteSize front, rest, [], false⟩) ∧
      IsLeast {n | Boundary text n ∧ min start text.utf8ByteSize ≤ n} (byteSize front) := by
  obtain ⟨front, rest, whole, found⟩ := seek_split none 0 start text.toList
  have least := seek_least none 0 start text.toList
  rw [Option.or_none, Nat.zero_add] at found
  simp only [found, Nat.zero_add, byteSize_toList] at least
  refine ⟨front, rest, whole, ?_, least⟩
  intro s
  simp only [Scanner.ofText, found]

theorem ofText_front (s : State) (text : String) (front rest : List Char)
    (whole : front ++ rest = text.toList) :
    Scanner.ofText s text (byteSize front) =
      ⟨s, front.getLast?, byteSize front, rest, [], false⟩ := by
  have found := seek_front none 0 front rest
  rw [Option.or_none, Nat.zero_add, whole] at found
  simp only [Scanner.ofText, found]

end ScoreText
