import ScoreText.Music.Reading.Reader
import ScoreText.Proofs.MusicTokens

/-! A music expression is scanned into its tokens. What a region finds is shown with the text behind
it, so the tokens can be put together in any order that an expression puts them. -/
namespace ScoreText

open Lily

section Find

variable {r : Lily.Region} {c : Char} {cs rest : List Char}

/-- What would go on with a note: a letter or a mark. -/
def continuesNote (c : Char) : Bool :=
  c.isAlpha || c == '\'' || c == ','

theorem Ends.mono {p q : Char → Bool} (ends : Ends p cs) (fewer : ∀ c, q c = true → p c = true) :
    Ends q cs := by
  intro c first
  have no := ends c first
  cases holds : q c with
  | true => simp [fewer c holds] at no
  | false => rfl

/-- Regions in which notes stand. -/
def HoldsNotes (r : Lily.Region) : Prop :=
  r = .music ∨ r = .chord

theorem note_is_letter {c : Char} (note : ('a' ≤ c && c ≤ 'x') = true) : c.isAlpha = true := by
  simp only [Bool.and_eq_true, decide_eq_true_eq] at note
  have low : 'a'.val ≤ c.val := note.1
  have high : c.val ≤ 'z'.val := UInt32.le_trans note.2 (by decide)
  show (c.isUpper || (decide ('a'.val ≤ c.val) && decide (c.val ≤ 'z'.val))) = true
  simp only [Bool.or_eq_true, Bool.and_eq_true, decide_eq_true_eq]
  exact .inr ⟨low, high⟩

theorem no_letter_after (ends : Ends Char.isAlpha rest) (before : Option Char) (x : List Char) :
    Site.noLetterAfter ⟨before, x, rest⟩ = true := by
  cases rest with
  | nil => rfl
  | cons c rest => simpa [Site.noLetterAfter, Site.holds] using ends

theorem note_at (holds : HoldsNotes r) (l : Letter) (ends : Ends Char.isAlpha rest)
    (before : Option Char) :
    (Region.lily r).at? before (l.char :: rest) = some ⟨.lily .note, [l.char], rest⟩ := by
  have first : ((Region.lily r).starters l.char).head? = some (.lily .note) := by
    rcases holds with rfl | rfl <;> cases l <;> rfl
  have note : ('a' ≤ l.char && l.char ≤ 'x') = true := by cases l <;> decide
  apply Region.at_first first
  apply TokenKind.at_of_first
  · exact Pattern.first_oneOrMore (x := [l.char]) (by simp) (by simpa using note)
      (ends.mono fun c h => note_is_letter h)
  · simp only [TokenKind.keep?, Kind.keep?, Site.wholeIf, no_letter_after ends, if_true]

theorem marks_at (holds : HoldsNotes r) {tone : Tone} (some_marks : tone.marks ≠ [])
    (ends : Ends continuesNote rest) (before : Option Char) :
    (Region.lily r).at? before (tone.marks ++ rest) = some ⟨.lily .octave, tone.marks, rest⟩ := by
  have first : ∀ c ∈ ['\'', ','], ((Region.lily r).starters c).head? = some (.lily .octave) := by
    rcases holds with rfl | rfl <;> exact all_listed (by decide)
  have ends_mark : ∀ c, continuesNote c = true → Ends (· == c) rest := by
    intro c mark
    refine ends.mono fun d same => ?_
    rwa [beq_iff_eq.mp same]
  obtain ⟨letter, octave⟩ := tone
  cases octave with
  | ofNat n =>
    cases n with
    | zero => exact absurd rfl some_marks
    | succ n =>
      have run := Pattern.first_oneOrMore (x := List.replicate (n + 1) '\'') (by simp) (by simp)
        (ends_mark '\'' rfl)
      exact Region.at_first (first '\'' (by simp))
        (TokenKind.at_of_first (Pattern.first_right rfl run) rfl)
  | negSucc n =>
    have run := Pattern.first_oneOrMore (x := List.replicate (n + 1) ',') (by simp) (by simp)
      (ends_mark ',' rfl)
    exact Region.at_first (first ',' (by simp)) (TokenKind.at_of_first (Pattern.first_left run) rfl)

theorem rest_at (ends : Ends Char.isAlpha rest) (before : Option Char) :
    (Region.lily .music).at? before ('r' :: rest) = some ⟨.lily .rest, ['r'], rest⟩ := by
  apply Region.at_first (k := .lily .rest) (by rfl)
  apply TokenKind.at_of_first
  · exact Pattern.first_one rfl
  · simp only [TokenKind.keep?, Kind.keep?, Site.wholeIf, no_letter_after ends, if_true]

theorem single_space_at {r : Region} (first : (r.starters ' ').head? = some .space)
    (ends : Ends Text.isBlank rest) (before : Option Char) :
    r.at? before (' ' :: rest) = some ⟨.space, [' '], rest⟩ := by
  apply Region.at_first first
  apply TokenKind.at_of_first _ rfl
  exact Pattern.first_oneOrMore (x := [' ']) (by simp) (all_listed (by decide)) ends

theorem Length.digits_listed (l : Length) :
    l.digits ∈ [['1'], ['2'], ['4'], ['8'], ['1', '6'], ['3', '2'], ['6', '4']] := by
  have listed : ∀ power : Fin 7, Nat.toDigits 10 (2 ^ power.val) ∈
      [['1'], ['2'], ['4'], ['8'], ['1', '6'], ['3', '2'], ['6', '4']] := by decide
  exact listed l.power

theorem length_at (l : Length) (next : c = ' ' ∨ c = '.') (before : Option Char) :
    (Region.lily .music).at? before (l.digits ++ c :: rest) =
      some ⟨.lily .length, l.digits, c :: rest⟩ := by
  have listed := l.digits_listed
  generalize l.digits = digits at listed ⊢
  simp only [List.mem_cons, List.not_mem_nil, or_false] at listed
  rcases next with rfl | rfl <;> rcases listed with rfl | rfl | rfl | rfl | rfl | rfl | rfl <;> rfl

theorem chordStart_at (l : Letter) (before : Option Char) :
    (Region.lily .music).at? before ('<' :: l.char :: rest) =
      some ⟨.lily .chordStart, ['<'], l.char :: rest⟩ := by
  cases l <;> rfl

/-- Two such signs in a row would be an error in a chord. -/
theorem chordEnd_at (next : c ∈ [' ', '1', '2', '3', '4', '6', '8']) (before : Option Char) :
    (Region.lily .chord).at? before ('>' :: c :: rest) = some ⟨.lily .chordEnd, ['>'], c :: rest⟩ := by
  simp only [List.mem_cons, List.not_mem_nil, or_false] at next
  rcases next with rfl | rfl | rfl | rfl | rfl | rfl | rfl <;> rfl

set_option maxRecDepth 4000 in
theorem tuplet_at (before : Option Char) :
    (Region.lily .music).at? before (Music.tupletCommand ++ ' ' :: rest) =
      some ⟨.lily .command, Music.tupletCommand, ' ' :: rest⟩ := by
  rfl

theorem digit_listed {c : Char} (digit : c.isDigit = true) : c ∈ "0123456789".toList := by
  have bounds : '0'.val ≤ c.val ∧ c.val ≤ '9'.val := by simpa [Char.isDigit] using digit
  have low : 48 ≤ c.toNat := bounds.1
  have high : c.toNat ≤ 57 := bounds.2
  have listed : ∀ n < 58, 48 ≤ n → Char.ofNat n ∈ "0123456789".toList := by decide
  rw [← Char.ofNat_toNat c]
  exact listed _ (Nat.lt_succ_of_le high) low

theorem isDecimal_of_isDigit {c : Char} (digit : c.isDigit = true) : Text.isDecimal c = true := by
  have decimal : ∀ c ∈ "0123456789".toList, Text.isDecimal c = true := all_listed (by decide)
  exact decimal c (digit_listed digit)

theorem Text.digits_of_toDigits {n : Nat} {c : Char} (member : c ∈ Nat.toDigits 10 n) :
    c.isDigit = true :=
  Nat.isDigit_of_mem_toDigits (by decide) (by decide) member

theorem digits_first (n : Nat) (rest : List Char) (ends : Ends Text.isDecimal rest) :
    Pattern.digits.first? (Nat.toDigits 10 n ++ rest) = some (Nat.toDigits 10 n, rest) := by
  exact Pattern.first_oneOrMore Nat.toDigits_ne_nil
    (fun c member => isDecimal_of_isDigit (Text.digits_of_toDigits member)) ends

theorem Proportion.chars_digit (p : Proportion) :
    ∃ c cs, p.chars = c :: cs ∧ c ∈ "0123456789".toList := by
  unfold Proportion.chars
  cases played : Nat.toDigits 10 p.played with
  | nil => exact absurd played Nat.toDigits_ne_nil
  | cons c cs =>
    have member : c ∈ Nat.toDigits 10 p.played := by simp [played]
    exact ⟨c, _, rfl, digit_listed (Text.digits_of_toDigits member)⟩

theorem proportion_at (p : Proportion) (before : Option Char) :
    (Region.lily .music).at? before (p.chars ++ ' ' :: rest) =
      some ⟨.lily .fraction, p.chars, ' ' :: rest⟩ := by
  have counted := digits_first p.counted (' ' :: rest) (ends_cons.mpr rfl)
  have slash := Pattern.first_seq
    (Pattern.first_one (p := (· == '/')) (beq_self_eq_true '/')) counted
  have whole := Pattern.first_seq
    (digits_first p.played ('/' :: (Nat.toDigits 10 p.counted ++ ' ' :: rest)) (ends_cons.mpr rfl)) slash
  have found : (TokenKind.lily .fraction).at? before (p.chars ++ ' ' :: rest) =
      some ⟨.lily .fraction, p.chars, ' ' :: rest⟩ := by
    refine TokenKind.at_of_first ?_ rfl
    simpa [Proportion.chars, TokenKind.pattern, Kind.pattern, Pattern.sequence, Pattern.char] using whole
  have first : ∀ c ∈ "0123456789".toList,
      ((Region.lily .music).starters c).head? = some (.lily .fraction) := all_listed (by decide)
  obtain ⟨c, cs, text, digit⟩ := p.chars_digit
  rw [text] at found ⊢
  exact Region.at_first (first c digit) found

end Find

section Leaf

variable {s last : State} {r : Lily.Region} {rest : List Char} {ps : List (Piece × State)}

theorem marks_no_letter {tone : Tone} (some_marks : tone.marks ≠ []) (rest : List Char) :
    Ends Char.isAlpha (tone.marks ++ rest) := by
  obtain ⟨letter, octave⟩ := tone
  cases octave with
  | ofNat n =>
    cases n with
    | zero => exact absurd rfl some_marks
    | succ n => exact ends_cons.mpr rfl
  | negSucc n => exact ends_cons.mpr rfl

theorem Follows.tone (within : s.In r) (holds : HoldsNotes r) (tone : Tone)
    (ends : Ends continuesNote rest) (next : Follows s rest ps last) :
    Follows s (tone.chars ++ rest) (tone.pieces s ++ ps) last := by
  have no_letter : Ends Char.isAlpha rest := ends.mono fun c letter => by simp [continuesNote, letter]
  have stays : ∀ k ∈ [Kind.note, .octave], ∀ x, Region.react (.lily r) 0 (.lily k) x = .stay := by
    rcases holds with rfl | rfl <;> simp [Region.react, Lily.Region.react, Region.opened?]
  by_cases plain : tone.marks = []
  · simp only [Tone.chars, Tone.pieces, plain, if_true, List.cons_append, List.nil_append]
    exact .still within (note_at holds _ no_letter) (.inr ⟨rfl, stays _ (by simp) _⟩) next
  · simp only [Tone.chars, Tone.pieces, plain, if_false, List.cons_append, List.nil_append]
    apply Follows.still within (note_at holds _ (marks_no_letter plain rest))
      (.inr ⟨rfl, stays _ (by simp) _⟩)
    exact .still within (marks_at holds plain ends) (.inr ⟨rfl, stays _ (by simp) _⟩) next

theorem Follows.dots (n : Nat) (next : Follows s.inLength rest ps last) :
    Follows s.inLength (List.replicate n '.' ++ rest)
      (List.replicate n (⟨.lily .dot, ['.']⟩, s.inLength) ++ ps) last := by
  induction n with
  | zero => exact next
  | succ n ih => exact .inLength (fun _ => rfl) ⟨rfl, rfl⟩ ih

theorem Follows.length (within : s.In .music) (l : Length)
    (next : Follows s.inLength (' ' :: rest) ps last) :
    Follows s (l.chars ++ ' ' :: rest) (l.pieces s ++ ps) last := by
  have dots := Follows.dots l.dots next
  obtain ⟨c, cs, text, first⟩ : ∃ c cs, List.replicate l.dots.val '.' ++ ' ' :: rest = c :: cs ∧
      (c = ' ' ∨ c = '.') := by
    cases l.dots.val with
    | zero => exact ⟨_, _, rfl, .inl rfl⟩
    | succ n => exact ⟨_, _, rfl, .inr rfl⟩
  simp only [Length.chars, Length.pieces, List.append_assoc, List.cons_append]
  rw [text] at dots ⊢
  exact .token within (length_at l first) rfl dots

/-- A character with which an item or the end of a list begins. It is no part of a length in front. -/
def EndsLength (c : Char) : Prop :=
  Text.isBlank c = false ∧ (Region.lily .duration).starters c = [] ∧
    (Region.lily .durationScaling).starters c = []

instance (c : Char) : Decidable (EndsLength c) :=
  inferInstanceAs (Decidable (_ ∧ _ ∧ _))

theorem letter_endsLength (l : Letter) : EndsLength l.char := by
  cases l <;> decide

theorem Follows.space (within : s.In .music) (written : Option Length) {c : Char} {cs : List Char}
    (ends_length : EndsLength c) (next : Follows s (c :: cs) ps last) :
    Follows (s.behind written) (' ' :: c :: cs) ((spacePiece, s.behind written) :: ps) last := by
  have hung := Follows.behind within.rooted written ends_length.2.1 ends_length.2.2 next
  have ends : Ends Text.isBlank (c :: cs) := ends_cons.mpr ends_length.1
  cases written with
  | none => exact .still within (single_space_at rfl ends) (.inr ⟨rfl, rfl⟩) hung
  | some l => exact .inLength (single_space_at rfl ends) ⟨rfl, rfl⟩ hung

theorem Follows.tones (within : s.In .chord) (tones : List Tone) (ends : Ends continuesNote rest)
    (next : Follows s rest ps last) :
    Ends continuesNote (tones.flatMap (fun tone => ' ' :: tone.chars) ++ rest) ∧
    Follows s (tones.flatMap (fun tone => ' ' :: tone.chars) ++ rest)
      (tones.flatMap (fun tone => (spacePiece, s) :: tone.pieces s) ++ ps) last := by
  induction tones with
  | nil => exact ⟨ends, next⟩
  | cons tone tones ih =>
    simp only [List.flatMap_cons, List.cons_append, List.append_assoc]
    refine ⟨ends_cons.mpr rfl, ?_⟩
    have tone_follows := Follows.tone within (.inr rfl) tone ih.1 ih.2
    exact .still within (single_space_at rfl (ends_cons.mpr (letter_endsLength tone.letter).1))
      (.inr ⟨rfl, rfl⟩) tone_follows

theorem Follows.leaf (within : s.In .music) (leaf : Leaf) {c : Char} {cs : List Char}
    (stop : c ∈ [' ', '1', '2', '3', '4', '6', '8']) (next : Follows s (c :: cs) ps last) :
    Follows s (leaf.chars ++ c :: cs) (leaf.pieces s ++ ps) last := by
  have stops : ∀ c ∈ [' ', '1', '2', '3', '4', '6', '8'],
      continuesNote c = false ∧ c.isAlpha = false := all_listed (by decide)
  cases leaf with
  | note tone => exact .tone within (.inl rfl) tone (ends_cons.mpr (stops c stop).1) next
  | rest =>
    exact .still within (rest_at (ends_cons.mpr (stops c stop).2)) (.inr ⟨rfl, rfl⟩) next
  | chord first others =>
    have chord : (s.enter (.lily .chord)).In .chord := within.enter rfl
    have close := Follows.token chord (chordEnd_at stop) rfl next
    obtain ⟨ends, rest⟩ := Follows.tones chord others (ends_cons.mpr rfl) close
    have notes := Follows.tone chord (.inr rfl) first ends rest
    simp only [Leaf.chars, Leaf.pieces, List.cons_append, List.append_assoc] at notes ⊢
    exact .token within (chordStart_at first.letter) rfl notes

end Leaf

section Music

variable {s last : State} {r : Lily.Region} {rest : List Char} {ps : List (Piece × State)}

theorem opening_at (inside : r = .global ∨ r = .music) (b : Bool) (before : Option Char) :
    (Region.lily r).at? before (Music.opening b ++ rest) =
      some ⟨.lily (Music.openingKind b), Music.opening b, rest⟩ := by
  rcases inside with rfl | rfl <;> cases b <;> rfl

theorem closing_at (b : Bool) (before : Option Char) :
    (Region.lily .music).at? before (Music.closing b ++ rest) =
      some ⟨.lily (Music.closingKind b), Music.closing b, rest⟩ := by
  cases b <;> rfl

theorem enter_opening (s : State) (b : Bool) :
    s.apply (.lily (Music.openingKind b)) (Music.opening b) = s.enter (.lily .music) := by
  cases b <;> rfl

theorem leave_closing (within : s.In r) (b : Bool) :
    (s.enter (.lily .music)).apply (.lily (Music.closingKind b)) (Music.closing b) = s := by
  have left : (s.enter (.lily .music)).apply (.lily (Music.closingKind b)) (Music.closing b) =
      s.completeArgument := by cases b <;> rfl
  rw [left, within.completeArgument]

theorem closing_endsLength (b : Bool) (rest : List Char) :
    ∃ c cs, Music.closing b ++ rest = c :: cs ∧ EndsLength c := by
  cases b with
  | true => exact ⟨'>', _, rfl, by decide⟩
  | false => exact ⟨'\x7d', _, rfl, by decide⟩

theorem Music.listChars_endsLength (b : Bool) (inner : List Char) :
    ∃ c cs, listChars b inner = c :: cs ∧ EndsLength c := by
  cases b with
  | true => exact ⟨'<', _, rfl, by decide⟩
  | false => exact ⟨'\x7b', _, rfl, by decide⟩

theorem Music.chars_endsLength (m : Music) : ∃ c cs, m.chars = c :: cs ∧ EndsLength c := by
  cases m with
  | leaf l written =>
    cases l with
    | note tone => exact ⟨_, _, rfl, letter_endsLength tone.letter⟩
    | rest => exact ⟨'r', _, rfl, by decide⟩
    | chord first others => exact ⟨'<', _, rfl, by decide⟩
  | list b items => exact listChars_endsLength b (charsOfAll items)
  | tuplet p b items => exact ⟨'\\', _, rfl, by decide⟩

theorem Music.charsOfAll_endsLength (ms : List Music) {c : Char} {cs : List Char} (ends_length : EndsLength c) :
    ∃ d ds, charsOfAll ms ++ c :: cs = d :: ds ∧ EndsLength d := by
  cases ms with
  | nil => exact ⟨c, cs, rfl, ends_length⟩
  | cons m ms =>
    obtain ⟨d, ds, first, ends_length⟩ := m.chars_endsLength
    exact ⟨d, _, by rw [charsOfAll, first, List.cons_append, List.cons_append], ends_length⟩

theorem Follows.list (within : s.In r) (inside : r = .global ∨ r = .music) (b : Bool)
    {inner : List Char} {qs : List (Piece × State)} (next : Follows s rest ps last)
    (starts : ∀ c cs, EndsLength c → ∃ d ds, inner ++ c :: cs = d :: ds ∧ EndsLength d)
    (follows : ∀ c cs ps, EndsLength c → Follows (s.enter (.lily .music)) (c :: cs) ps last →
      Follows (s.enter (.lily .music)) (inner ++ c :: cs) (qs ++ ps) last) :
    Follows s (Music.listChars b inner ++ rest) (Music.listPieces s b qs ++ ps) last := by
  have music : (s.enter (.lily .music)).In .music := within.enter rfl
  have close := Follows.token music (closing_at b) (leave_closing within b) next
  obtain ⟨c, cs, text, ends_length⟩ := closing_endsLength b rest
  rw [text] at close
  have items := follows c cs _ ends_length close
  obtain ⟨d, ds, front, ends_length⟩ := starts c cs ends_length
  rw [front] at items
  have space := Follows.space music none ends_length items
  rw [State.behind_none, ← front, ← text] at space
  have whole := Follows.token within (opening_at inside b) (enter_opening s b) space
  simpa only [Music.listChars, Music.listPieces, List.cons_append, List.append_assoc,
    List.nil_append] using whole

theorem Follows.written (within : s.In .music) (leaf : Leaf) (written : Option Length)
    (next : Follows (s.behind written) (' ' :: rest) ps last) :
    Follows s ((Music.leaf leaf written).chars ++ ' ' :: rest)
      ((Music.leaf leaf written).pieces s ++ ps) last := by
  cases written with
  | none =>
    rw [State.behind_none] at next
    have whole := Follows.leaf within leaf (by simp) next
    simpa [Music.chars, Music.pieces] using whole
  | some l =>
    have length := Follows.length within l next
    obtain ⟨c, cs, text, stop⟩ : ∃ c cs, l.digits = c :: cs ∧
        c ∈ [' ', '1', '2', '3', '4', '6', '8'] := by
      have listed := l.digits_listed
      generalize l.digits = digits at listed ⊢
      simp only [List.mem_cons, List.not_mem_nil, or_false] at listed
      rcases listed with rfl | rfl | rfl | rfl | rfl | rfl | rfl <;> exact ⟨_, _, rfl, by simp⟩
    have chars : l.chars ++ ' ' :: rest =
        c :: (cs ++ (List.replicate l.dots.val '.' ++ ' ' :: rest)) := by
      simp [Length.chars, text]
    rw [chars] at length
    have whole := Follows.leaf within leaf stop length
    simpa [Music.chars, Music.pieces, chars] using whole

theorem Follows.tuplet (within : s.In .music) (p : Proportion) {c : Char} {cs : List Char}
    (ends_length : EndsLength c) (next : Follows s (c :: cs) ps last) :
    Follows s (Music.tupletCommand ++ ' ' :: (p.chars ++ ' ' :: c :: cs))
      ((⟨.lily .command, Music.tupletCommand⟩, s) :: (spacePiece, s) :: (⟨.lily .fraction, p.chars⟩, s) ::
        (spacePiece, s) :: ps) last := by
  have space := Follows.space within none ends_length next
  have fraction := Follows.still within (proportion_at p) (.inl rfl) space
  obtain ⟨d, ds, text, digit⟩ := p.chars_digit
  have ends_length : EndsLength d := all_listed (by decide) d digit
  have front : p.chars ++ ' ' :: c :: cs = d :: (ds ++ ' ' :: c :: cs) := by rw [text, List.cons_append]
  rw [front] at fraction ⊢
  exact .still within tuplet_at (.inl rfl) (.space within none ends_length fraction)

end Music

section Expression

variable {last : State}

mutual

theorem Follows.music {s : State} (within : s.In .music) (m : Music) {rest : List Char}
    {ps : List (Piece × State)} (next : Follows (m.behind s) (' ' :: rest) ps last) :
    Follows s (m.chars ++ ' ' :: rest) (m.pieces s ++ ps) last := by
  cases m with
  | leaf l written => exact .written within l written next
  | list b items =>
    simp only [Music.chars, Music.pieces]
    exact .list within (.inr rfl) b next (fun c cs => Music.charsOfAll_endsLength items)
      fun c cs ps ends_length next => .items (within.enter rfl) items ends_length next
  | tuplet p b items =>
    have list := Follows.list within (.inr rfl) b next (fun c cs => Music.charsOfAll_endsLength items)
      fun c cs ps ends_length next => .items (within.enter rfl) items ends_length next
    obtain ⟨c, cs, text, ends_length⟩ := Music.listChars_endsLength b (Music.charsOfAll items)
    rw [text] at list
    have whole := Follows.tuplet within p ends_length list
    simpa [Music.chars, Music.pieces, text] using whole

theorem Follows.items {s : State} (within : s.In .music) (ms : List Music) {c : Char} {cs : List Char}
    {ps : List (Piece × State)} (ends_length : EndsLength c) (next : Follows s (c :: cs) ps last) :
    Follows s (Music.charsOfAll ms ++ c :: cs) (Music.piecesOfAll s ms ++ ps) last := by
  cases ms with
  | nil => simpa [Music.charsOfAll, Music.piecesOfAll] using next
  | cons m ms =>
    have others := Follows.items within ms ends_length next
    obtain ⟨d, ds, text, ends_length⟩ := Music.charsOfAll_endsLength ms ends_length
    rw [text] at others
    have space : Follows (m.behind s) (' ' :: d :: ds)
        ((spacePiece, m.behind s) :: (Music.piecesOfAll s ms ++ ps)) last := by
      cases m with
      | leaf l written => exact .space within written ends_length others
      | list b items => exact .space within none ends_length others
      | tuplet p b items => exact .space within none ends_length others
    have whole := Follows.music within m space
    rw [← text] at whole
    simpa [Music.charsOfAll, Music.piecesOfAll] using whole

end

end Expression

/-- Scanned tokens at their byte offsets. -/
def scanned (offset : Nat) (ps : List (Piece × State)) : List ScannedToken :=
  (placed offset ps).map fun (t, s) => ⟨t, s.depth, s.top.region⟩

theorem Follows.drain {s last : State} {cs : List Char} {ps : List (Piece × State)}
    (follows : Follows s cs ps last) : ∃ final : Scanner,
      (Scanner.ofText s (String.ofList cs) 0).drain = (placed 0 ps, final) ∧ final.state = last := by
  have faces := ofText_start s (String.ofList cs)
  rw [String.toList_ofList] at faces
  exact Scanner.drain_reads faces (follows none)

theorem Follows.scan {s last : State} {cs : List Char} {ps : List (Piece × State)}
    (follows : Follows s cs ps last) : s.scan (String.ofList cs) 0 = placed 0 ps := by
  obtain ⟨final, drained, _⟩ := follows.drain
  exact congrArg Prod.fst drained

theorem scanMusic_listChars (b : Bool) {inner : List Char} {qs : List (Piece × State)}
    (starts : ∀ c cs, EndsLength c → ∃ d ds, inner ++ c :: cs = d :: ds ∧ EndsLength d)
    (follows : ∀ c cs ps, EndsLength c →
      Follows ((State.ofMode .lilypond).enter (.lily .music)) (c :: cs) ps (.ofMode .lilypond) →
      Follows ((State.ofMode .lilypond).enter (.lily .music)) (inner ++ c :: cs) (qs ++ ps)
        (.ofMode .lilypond)) :
    scanMusic (String.ofList (Music.listChars b inner)) =
      scanned 0 (Music.listPieces (.ofMode .lilypond) b qs) := by
  have within : (State.ofMode .lilypond).In .global := ⟨mode_rooted .lilypond, rfl⟩
  have follows := Follows.list within (.inl rfl) b (.ended _) starts follows
  rw [List.append_nil, List.append_nil] at follows
  rw [scanMusic, scanned, follows.scan]

theorem scanMusic_list (b : Bool) (items : List Music) :
    scanMusic (String.ofList (Music.list b items).chars) =
      scanned 0 ((Music.list b items).pieces (.ofMode .lilypond)) := by
  have within : (State.ofMode .lilypond).In .global := ⟨mode_rooted .lilypond, rfl⟩
  rw [Music.chars, Music.pieces]
  exact scanMusic_listChars b (fun c cs => Music.charsOfAll_endsLength items)
    fun c cs ps ends_length next => .items (within.enter rfl) items ends_length next

end ScoreText
