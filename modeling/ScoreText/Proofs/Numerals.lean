import Mathlib.Data.List.TakeDrop
import Mathlib.Tactic.NormNum
import ScoreText.Proofs.MusicScan

/-! Numbers are read as they are written: the numbers of a tuplet, and a length with its dots. -/
namespace ScoreText

namespace Text

theorem ofDigits_append (cs : List Char) (c : Char) :
    ofDigits (cs ++ [c]) = 10 * ofDigits cs + (c.toNat - '0'.toNat) := by
  simp [ofDigits]

theorem ofDigits_toDigits (n : Nat) : ofDigits (Nat.toDigits 10 n) = n := by
  induction n using Nat.strongRecOn with
  | ind n ih =>
    have digit : ∀ d < 10, d.digitChar.toNat - '0'.toNat = d := by decide
    rw [Nat.toDigits_eq_if (by decide)]
    split
    · rename_i small
      simpa [ofDigits] using digit n small
    · rename_i large
      rw [ofDigits_append, ih (n / 10) (by omega), digit _ (Nat.mod_lt _ (by decide))]
      omega

theorem dropWhile_all_false {α : Type} {p : α → Bool} {xs : List α} (none : ∀ x ∈ xs, p x = false) :
    xs.dropWhile p = xs := by
  cases xs with
  | nil => rfl
  | cons x xs => simp [none x List.mem_cons_self]

theorem trim_solid {cs : List Char} (solid : ∀ c ∈ cs, isBlank c = false) : trim cs = cs := by
  have back : cs.reverse.dropWhile isBlank = cs.reverse :=
    dropWhile_all_false fun c member => solid c (List.mem_reverse.mp member)
  rw [trim, trimLeft, dropWhile_all_false solid, back, List.reverse_reverse]

theorem solid_digits {cs : List Char} (digits : ∀ c ∈ cs, c.isDigit = true) : ∀ c ∈ cs, isBlank c = false := by
  have listed : ∀ c ∈ "0123456789".toList, isBlank c = false := all_listed (by decide)
  exact fun c member => listed c (digit_listed (digits c member))

theorem trim_digits {cs : List Char} (digits : ∀ c ∈ cs, c.isDigit = true) : trim cs = cs :=
  trim_solid (solid_digits digits)

section Digits

variable {cs : List Char} (nonempty : cs ≠ []) (digits : ∀ c ∈ cs, c.isDigit = true)
include nonempty digits

theorem natural_digits : natural? cs = some (ofDigits cs) := by
  simp [natural?, nonempty, List.all_eq_true.mpr digits]

theorem integer_digits : integer? cs = some (ofDigits cs : Int) := by
  unfold integer?
  split
  · exact absurd (digits '-' (by simp)) (by decide)
  · exact absurd (digits '+' (by simp)) (by decide)
  · rw [natural_digits nonempty digits]
    rfl

theorem int64_digits : int64? cs = if isWord64 (ofDigits cs) then some (ofDigits cs : Int) else none := by
  rw [int64?, integer_digits nonempty digits, Option.filter_some]

end Digits

theorem int64_toDigits {n : Nat} (word : n ≤ 9223372036854775807) :
    int64? (Nat.toDigits 10 n) = some (n : Int) := by
  have fits : isWord64 (n : Int) = true := isWord64_iff.mpr (by omega)
  rw [int64_digits Nat.toDigits_ne_nil fun c member => digits_of_toDigits member, ofDigits_toDigits, if_pos fits]

end Text

theorem Proportion.readInts (p : Proportion) :
    Fraction.readInts? (String.ofList p.chars) = some ((p.played : Int), (p.counted : Int)) := by
  have cut : Fraction.splitSlash p.chars =
      some (Nat.toDigits 10 p.played, Nat.toDigits 10 p.counted) := by
    have no_slash : ∀ c ∈ Nat.toDigits 10 p.played, (c != '/') = true := by
      intro c member
      have digit := Text.digits_of_toDigits member
      simp only [bne_iff_ne, ne_eq]
      rintro rfl
      cases digit
    simp [Fraction.splitSlash, Proportion.chars, List.span_eq_takeWhile_dropWhile,
      List.takeWhile_append_of_pos no_slash, List.dropWhile_append_of_pos no_slash]
  have played := Text.trim_digits fun c (member : c ∈ Nat.toDigits 10 p.played) =>
    Text.digits_of_toDigits member
  have counted := Text.trim_digits fun c (member : c ∈ Nat.toDigits 10 p.counted) =>
    Text.digits_of_toDigits member
  simp [Fraction.readInts?, cut, played, counted, Text.int64_toDigits p.played_word,
    Text.int64_toDigits p.counted_word]

namespace Length

theorem addPart_dots (p : Duration.Parts) (n : Nat) :
    (List.replicate n ['.']).foldlM Duration.addPart p = some { p with dots := p.dots + n } := by
  induction n generalizing p with
  | zero => rfl
  | succ n ih =>
    have dot : Duration.addPart p ['.'] = some { p with dots := p.dots + 1 } := rfl
    rw [List.replicate_succ, List.foldlM_cons, dot]
    simpa [Nat.add_assoc, Nat.add_comm 1 n] using ih { p with dots := p.dots + 1 }

theorem addPart_digits (l : Length) :
    Duration.addPart ⟨none, 0, 1⟩ l.digits = some ⟨some (1 / 2 ^ l.power.val), 0, 1⟩ := by
  have base : ∀ power : Fin 7,
      undotted? (Nat.toDigits 10 (2 ^ power.val)) = some (1 / 2 ^ power.val) := by decide +kernel
  have known : undotted? l.digits = _ := base l.power
  have digits : ∀ c ∈ l.digits, c.isDigit = true := fun c member => Text.digits_of_toDigits member
  unfold Duration.addPart
  rw [Text.trim_digits digits]
  split
  · rename_i text
    exact absurd (digits '.' (by simp [text])) (by decide)
  · rename_i text
    exact absurd (digits '*' (by simp [text])) (by decide)
  · simp [known]

/-- A length is read as the duration it stands for. -/
theorem ofParts (l : Length) :
    Duration.ofParts? (l.digits :: List.replicate l.dots ['.']) = some l.duration := by
  have scaling : ∀ dots : Fin 51, Duration.dotted? dots = some (2 - 1 / 2 ^ dots.val) ∧
      Fraction.mul? 1 (2 - 1 / 2 ^ dots.val) = some (2 - 1 / 2 ^ dots.val) := by decide +kernel
  have fits : ∀ power : Fin 7, ∀ dots : Fin 51,
      (Fraction.mul? (1 / 2 ^ power.val) (2 - 1 / 2 ^ dots.val)).isSome := by decide +kernel
  obtain ⟨length, fits⟩ := Option.isSome_iff_exists.mp (fits l.power l.dots)
  obtain ⟨dotted, product⟩ := scaling l.dots
  have length : (Duration.mk (1 / 2 ^ l.power.val) (2 - 1 / 2 ^ l.dots.val)).length? = some length := fits
  simp only [Duration.ofParts?, Duration.Parts.duration?, List.foldlM_cons, addPart_digits, addPart_dots, Option.bind_eq_bind,
    Option.bind_some, Nat.zero_add]
  by_cases plain : l.dots.val = 0
  · have one : (2 : Fraction) - 1 / 2 ^ l.dots.val = 1 := by norm_num [plain]
    rw [one] at length
    rw [if_pos plain, duration, one]
    simp only [length, Option.map_some]
  · rw [if_neg plain, duration]
    simp only [dotted, product, Option.bind_some, length, Option.map_some]

end Length

end ScoreText
