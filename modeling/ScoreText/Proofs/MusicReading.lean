import ScoreText.Proofs.Gathering
import ScoreText.Proofs.Numerals

/-! Reading the tokens of music. -/
namespace ScoreText

open Reader Reading ScoreText.Tree

section Scanned

theorem scanned_cons (offset : Nat) (p : Piece) (s : State) (ps : List (Piece × State)) :
    scanned offset ((p, s) :: ps) =
      ⟨⟨p.kind, offset, String.ofList p.text⟩, s.depth, s.top.region⟩ ::
        scanned (offset + byteSize p.text) ps := rfl

theorem scanned_append (offset : Nat) (ps qs : List (Piece × State)) :
    scanned offset (ps ++ qs) = scanned offset ps ++ scanned (offset + byteSize (textOf ps)) qs := by
  simp [scanned, placed_append]

end Scanned

section Parts

variable {r : Reader} {limit : Option Nat} {t u : ScannedToken} {us ts : List ScannedToken}

theorem back_done {α : Type} {r' : Reader} {a : α} (back : pushBack.run r = ((), r')) :
    (do pushBack; return Turn.done a : Reading (Turn α)).run r = (.done a, r') :=
  congrArg (fun x : Unit × Reader => (Turn.done a, x.2)) back

/-- The kinds of tokens behind which a note or a duration is over. -/
def startKinds : List Lily.Kind :=
  [.note, .rest, .chordStart, .chordEnd, .sequentialStart, .sequentialEnd, .simultaneousStart,
    .simultaneousEnd, .command]

def Starts (t : ScannedToken) : Prop :=
  ∃ k ∈ startKinds, t.token.kind = .lily k

theorem Starts.solid (starts : Starts t) : Solid t := by
  obtain ⟨k, member, kind⟩ := starts
  have all : ∀ k ∈ startKinds, (TokenKind.lily k).isSpace = false ∧
      (TokenKind.lily k).isComment = false := by decide
  rw [Solid, kind]
  exact all k member

theorem readNoteParts_up_to (p : NoteParts) (ready : r.Ready limit us)
    (spaced : Spaced limit us (u :: ts)) (ends : Starts u ∨ u.token.kind = .lily .length) :
    ∃ r', (readNoteParts p).run r = (p, r') ∧ r'.Ready limit (u :: ts) ∧ r.SameScore r' := by
  apply loop_up_to ready spaced
  · intro t r r' run blank
    rw [run_bind, run]
    simp only [blank]
    rfl
  · intro r r₁ r' run back
    rw [run_bind, run]
    rcases ends with ⟨k, member, kind⟩ | kind
    · simp only [startKinds, List.mem_cons, List.not_mem_nil, or_false] at member
      simp only [kind]
      rcases member with rfl | rfl | rfl | rfl | rfl | rfl | rfl | rfl | rfl <;> exact back_done back
    · simp only [kind]
      exact back_done back

/-- The same mark again and again goes as many times as far. -/
theorem octaveOfMarks_replicate (c : Char) (n : Nat) :
    octaveOfMarks (List.replicate n c) = n * octaveOfMarks [c] := by
  induction n with
  | zero => rw [Int.natCast_zero, Int.zero_mul]; rfl
  | succ n ih =>
    have again (m : Int) : (if c == '\'' then m + 1 else if c == ',' then m - 1 else m) = m + octaveOfMarks [c] := by
      simp only [octaveOfMarks, List.foldl_cons, List.foldl_nil]
      split_ifs <;> omega
    rw [octaveOfMarks] at ih
    rw [octaveOfMarks, List.replicate_succ', List.foldl_append, ih, List.foldl_cons, List.foldl_nil, again,
      Int.natCast_succ, Int.add_mul, Int.one_mul]

theorem octaveOfMarks_marks (tone : Tone) : octaveOfMarks tone.marks = tone.octave := by
  obtain ⟨letter, octave⟩ := tone
  cases octave with
  | ofNat n => exact (octaveOfMarks_replicate '\'' n).trans (Int.mul_one _)
  | negSucc n => exact (octaveOfMarks_replicate ',' (n + 1)).trans (Int.mul_neg_one _)

/-- The marks behind the letter of a note tell its octave. -/
theorem readNoteParts_tone (tone : Tone) {s : State} {offset : Nat} {p : NoteParts}
    (fresh : p.pitch.octave = 0) (ready : r.Ready limit (scanned offset (tone.pieces s).tail ++ us))
    (within : Within limit s.depth) (spaced : Spaced limit us (u :: ts))
    (ends : Starts u ∨ u.token.kind = .lily .length) :
    ∃ q r', (readNoteParts p).run r = (q, r') ∧ q.pitch = { p.pitch with octave := tone.octave } ∧
      q.accidental = p.accidental ∧ q.check = p.check ∧ r'.Ready limit (u :: ts) ∧ r.SameScore r' := by
  by_cases plain : tone.marks = []
  · have octave : tone.octave = 0 := by rw [← octaveOfMarks_marks, plain]; rfl
    simp only [Tone.pieces, plain, if_true, List.tail_cons, scanned, placed, List.map_nil,
      List.nil_append] at ready
    obtain ⟨r1, run, rest⟩ := readNoteParts_up_to p ready spaced ends
    refine ⟨p, r1, run, ?_, rfl, rfl, rest⟩
    rw [octave, ← fresh]
  · simp only [Tone.pieces, plain, if_false, List.tail_cons, scanned_cons, List.cons_append] at ready
    obtain ⟨r1, run, took, same⟩ := next_ready ready
    have nothing : ∀ offset, scanned offset [] = [] := fun _ => rfl
    rw [nothing, List.nil_append] at took
    let q : NoteParts :=
      { p with
        pitch := { p.pitch with octave := tone.octave }
        octave := some ⟨.lily .octave, offset, String.ofList tone.marks⟩ }
    obtain ⟨r2, later, again, still⟩ := readNoteParts_up_to q (took.ready within) spaced ends
    refine ⟨q, r2, ?_, rfl, rfl, rfl, again, same.trans still⟩
    rw [readNoteParts, loop_more (b := q) ?_ (took.fewer ready)]
    · exact later
    · rw [run_bind, run]
      simp only [String.toList_ofList, octaveOfMarks_marks]
      rfl

theorem Starts.no_duration (starts : Starts t) : isDuration t.token = false := by
  obtain ⟨k, member, kind⟩ := starts
  have all : ∀ k ∈ startKinds, k.isDuration = false := by decide
  simp only [isDuration, kind, all k member]

theorem readDurationTokens_up_to (taken : List Token) (ready : r.Ready limit us)
    (spaced : Spaced limit us (u :: ts)) (no_part : isDuration u.token = false)
    (solid : u.token.kind.isSpace = false) :
    ∃ r', (readDurationTokens taken).run r = (taken, r') ∧ r'.Ready limit (u :: ts) ∧ r.SameScore r' := by
  apply loop_up_to ready spaced
  · intro t r r' run blank
    rw [run_bind, run]
    simp only [isDuration, blank]
    rfl
  · intro r r₁ r' run back
    rw [run_bind, run]
    simp only [no_part, solid, Bool.false_eq_true, if_false]
    exact back_done back

theorem readDurationTokens_dots (n : Nat) {s : State} {offset : Nat} (taken : List Token)
    (ready : r.Ready limit (scanned offset (List.replicate n (⟨.lily .dot, ['.']⟩, s)) ++ us))
    (within : Within limit s.depth) (spaced : Spaced limit us (u :: ts)) (ends : Starts u) :
    ∃ dots r', (readDurationTokens taken).run r = (taken ++ dots, r') ∧
      dots.map (·.text.toList) = List.replicate n ['.'] ∧ r'.Ready limit (u :: ts) ∧ r.SameScore r' := by
  induction n generalizing r offset taken with
  | zero =>
    obtain ⟨r1, run, rest⟩ := readDurationTokens_up_to taken ready spaced ends.no_duration ends.solid.1
    exact ⟨[], r1, by rw [run, List.append_nil], rfl, rest⟩
  | succ n ih =>
    rw [List.replicate_succ, scanned_cons, List.cons_append] at ready
    obtain ⟨r1, run, took, same⟩ := next_ready ready
    obtain ⟨dots, r2, later, texts, again, still⟩ :=
      ih (taken ++ [⟨.lily .dot, offset, String.ofList ['.']⟩]) (took.ready within)
    refine ⟨⟨.lily .dot, offset, String.ofList ['.']⟩ :: dots, r2, ?_, ?_, again, same.trans still⟩
    · rw [readDurationTokens, loop_more ?_ (took.fewer ready)]
      · rw [← readDurationTokens, later, List.append_assoc, List.singleton_append]
      · rw [run_bind, run]
        have other : (TokenKind.lily .dot == .lily .length) = false := rfl
        simp only [isDuration, other, Bool.and_false]
        rfl
    · simp [texts, List.replicate_succ]

theorem readDurationTokens_written (written : Option Length) {s : State} {offset : Nat}
    (ready : r.Ready limit (scanned offset ((written.map (Length.pieces s)).getD []) ++ us))
    (within : Within limit s.depth) (spaced : Spaced limit us (u :: ts)) (ends : Starts u) :
    ∃ tokens r', (readDurationTokens []).run r = (tokens, r') ∧
      tokens.map (·.text.toList) =
        (written.map fun l => l.digits :: List.replicate l.dots ['.']).getD [] ∧
      r'.Ready limit (u :: ts) ∧ r.SameScore r' := by
  cases written with
  | none =>
    obtain ⟨r1, run, rest⟩ := readDurationTokens_up_to [] ready spaced ends.no_duration ends.solid.1
    exact ⟨[], r1, run, rfl, rest⟩
  | some l =>
    have deeper : Within limit s.inLength.depth := fun d member => Nat.le_succ_of_le (within d member)
    simp only [Option.map_some, Option.getD_some, Length.pieces, scanned_cons, List.cons_append] at ready
    obtain ⟨r1, run, took, same⟩ := next_ready ready
    obtain ⟨dots, r2, later, texts, again, still⟩ := readDurationTokens_dots l.dots
      [⟨.lily .length, offset, String.ofList l.digits⟩] (took.ready deeper) deeper spaced ends
    refine ⟨⟨.lily .length, offset, String.ofList l.digits⟩ :: dots, r2, ?_, ?_, again,
      same.trans still⟩
    · rw [readDurationTokens, loop_more ?_ (took.fewer ready)]
      · rw [← readDurationTokens, later, List.singleton_append]
      · rw [run_bind, run]
        rfl
    · simp [texts]

theorem readDuration_run {r₁ : Reader} {id : ItemId} {length : Option Token} {first : Token}
    {rest : List Token} {d : Duration}
    (run : (readDurationTokens length.toList).run r = (first :: rest, r₁))
    (value : Duration.ofParts? ((first :: rest).map (·.text.toList)) = some d) :
    (readDuration id length).run r =
      ((), { r₁ with
        tree := (((r₁.tree.push (.single .writtenDuration first.start (some first))).update r₁.tree.size
          fun i => { i with tokens := rest }).append id r₁.tree.size).update id
            fun i => { i with duration := some d }
        duration := d }) := by
  rw [readDuration, run_bind, run]
  simp only [value]
  rfl

/-- An item has been given a length. Its children have been `before`, and those for the length are added. -/
structure Reader.Timed (r₀ r' : Reader) (before : Tree) (id : ItemId) (written : Option Length)
    (last : Length) (ids : List ItemId) : Prop where
  grown : r₀.Grown r' [id]
  duration : r'.duration = (written.getD last).duration
  lengths : WrittenBy r'.tree written ids
  alike : Tree.Alike
    { before.item id with
      children := before.children id ++ ids
      duration := some (written.getD last).duration }
    (r'.tree.item id)
  others : ∀ i < before.size, i ≠ id → Tree.Alike (before.item i) (r'.tree.item i)

section Timed

variable {r₀ : Reader} {id : ItemId} {last : Length}

theorem Reader.Grown.timed_last (grown : r₀.Grown r [id]) (known : r.duration = last.duration) :
    r₀.Timed { r with tree := r.tree.update id fun i => { i with duration := some r.duration } }
      r.tree id none last [] := by
  obtain ⟨new, there, _⟩ := grown.gains.loose id (by simp)
  refine ⟨⟨grown.gains.update new fun i => ⟨rfl, rfl⟩, grown.language, grown.inChord⟩, known, rfl, ?_, ?_⟩
  · rw [item_update_self there, known, List.append_nil]
    exact ⟨rfl, rfl, rfl, rfl⟩
  · intro i inside other
    rw [item_update_other other]
    exact .refl _

theorem Reader.Grown.timed (grown : r₀.Grown r [id]) (l : Length) (first : Token) (rest : List Token) :
    r₀.Timed
      { r with
        tree := (((r.tree.push (.single .writtenDuration first.start (some first))).update r.tree.size
          fun i => { i with tokens := rest }).append id r.tree.size).update id
            fun i => { i with duration := some l.duration }
        duration := l.duration }
      r.tree id (some l) last [r.tree.size] := by
  obtain ⟨new, there, _⟩ := grown.gains.loose id (by simp)
  let t₁ := (r.tree.push (.single .writtenDuration first.start (some first))).update r.tree.size
    fun i => { i with tokens := rest }
  have fresh : Gains r.tree t₁ [r.tree.size] :=
    (push_gains ..).update (Nat.le_refl _) fun i => ⟨rfl, rfl⟩
  obtain ⟨gains, size, holder, others⟩ : Gains r₀.tree (t₁.append id r.tree.size) [id] ∧ _ ∧ _ :=
    grown.gains.put fresh
  have there₂ : id < (t₁.append id r.tree.size).size :=
    size ▸ Nat.lt_of_lt_of_le there fresh.larger
  refine ⟨⟨gains.update new fun i => ⟨rfl, rfl⟩, grown.language, grown.inChord⟩, rfl, ⟨_, rfl, ?_⟩, ?_, ?_⟩
  · have apart : r.tree.size ≠ id := Nat.ne_of_gt there
    rw [kind, item_update_other apart, (others _ apart).kind, item_update_self (by simp [size_push]),
      item_push, if_pos rfl]
    rfl
  · rw [item_update_self there₂]
    exact holder.withDuration _
  · intro i inside other
    rw [item_update_other other, ← fresh.kept i inside]
    exact others i other

end Timed

theorem readDuration_written (written : Option Length) (last : Length) {r₀ : Reader} {id : ItemId}
    {s : State} {offset : Nat} (grown : r₀.Grown r [id]) (duration : r.duration = last.duration)
    (ready : r.Ready limit (scanned offset ((written.map (Length.pieces s)).getD []) ++ us))
    (within : Within limit s.depth) (spaced : Spaced limit us (u :: ts)) (ends : Starts u) :
    ∃ ids r', (readDuration id none).run r = ((), r') ∧ r'.Ready limit (u :: ts) ∧
      r₀.Timed r' r.tree id written last ids := by
  obtain ⟨tokens, r1, run, texts, again, same⟩ :=
    readDurationTokens_written written ready within spaced ends
  have grown := grown.same same
  rw [← same.tree]
  cases written with
  | none =>
    obtain rfl : tokens = [] := List.map_eq_nil_iff.mp texts
    refine ⟨[], _, ?_, again.score .., grown.timed_last (same.duration.trans duration)⟩
    rw [readDuration, run_bind, Option.toList_none, run]
    rfl
  | some l =>
    obtain ⟨first, rest, rfl, _⟩ := List.map_eq_cons_iff.mp texts
    have value : Duration.ofParts? ((first :: rest).map (·.text.toList)) = some l.duration := by
      rw [texts]
      exact l.ofParts
    exact ⟨[r1.tree.size], _, readDuration_run run value, again.score .., grown.timed l first rest⟩

theorem addFor_run (kind : ItemKind) (t : Token) (r : Reader) :
    (addFor kind t).run r =
      (r.tree.size, { r with tree := r.tree.push (.single kind t.start (some t)) }) := rfl

theorem addNote_run {t : Token} {note : Nat} {alter : Fraction}
    (name : readPitch? r.language t.text = some (note, alter)) :
    (addNote t).run r = (some (r.tree.size, .plain note alter),
      { r with tree := r.tree.push (.single .note t.start (some t)) }) := by
  have here : readPitch? ((get : Reading Reader).run r).1.language t.text = some (note, alter) := name
  rw [addNote, run_bind, here]
  rfl

/-- A note with its marks. Whether it has a length of its own is decided behind it. -/
theorem readTone (tone : Tone) {names : Naming} {s : State} {offset : Nat}
    (known : names.KnownIn r.language) (text : t.token.text = String.ofList [tone.letter.char])
    (plain : t.region ≠ .lily .pitchCommand)
    (took : r.Took limit t (scanned offset (tone.pieces s).tail ++ us))
    (inside : Within limit t.depth) (within : Within limit s.depth) (spaced : Spaced limit us (u :: ts))
    (ends : Starts u ∨ u.token.kind = .lily .length) :
    ∃ r', (readMusicItem .note t.token).run r = (readOwnDuration false r.tree.size).run r' ∧
      r'.Ready limit (u :: ts) ∧ r.Grown r' [r.tree.size] ∧ r'.duration = r.duration ∧
      tone.MirroredBy r'.tree names r.tree.size ∧ r'.tree.children r.tree.size = [] := by
  let r1 : Reader := { r with tree := r.tree.push (.single .note t.token.start (some t.token)) }
  let pitch := Pitch.plain (names tone.letter).1 (names tone.letter).2
  have ready : r1.Ready limit (scanned offset (tone.pieces s).tail ++ us) :=
    (took.ready inside).score ..
  obtain ⟨q, r2, run, octave, accidental, check, again, same⟩ :=
    readNoteParts_tone (p := ⟨pitch, none, none, none⟩) tone rfl ready within spaced ends
  have grown : r.Grown r2 [r.tree.size] := (Grown.add .note t.token r).same same
  let details := Details.note q.pitch q.octave q.accidental q.check
  have there := (grown.gains.loose _ List.mem_cons_self).2.1
  have made : r2.tree.item r.tree.size = .single .note t.token.start (some t.token) := by
    rw [same.tree, item_push, if_pos rfl]
  refine ⟨{ r2 with tree := r2.tree.update r.tree.size fun i => { i with details } }, ?_, again.score ..,
    ⟨grown.gains.update (Nat.le_refl _) fun i => ⟨rfl, rfl⟩, grown.language, grown.inChord⟩,
    same.duration, ⟨?_, ?_⟩, ?_⟩
  · -- the note does not stand in a command for pitches, so a duration of its own may follow
    have outside : r.current?.any (·.region == .lily .pitchCommand) = false := by
      simpa [took.current] using plain
    have noted : (addNote t.token).run r = (some (r.tree.size, pitch), r1) :=
      addNote_run (by rw [text, known])
    rw [readMusicItem, run_bind]
    apply run_then noted
    apply run_then run
    rw [← outside]
    rfl
  · rw [kind, item_update_self there, made]
    rfl
  · rw [item_update_self there]
    refine ⟨q.octave, ?_⟩
    show Details.note q.pitch q.octave q.accidental q.check = _
    rw [octave, accidental, check]
    rfl
  · rw [children, item_update_self there, made]
    rfl

/-- Reading has given an item that mirrors an expression. -/
structure Reader.Gave (r r' : Reader) (names : Naming) (last : Length) (m : Music) (id : ItemId) :
    Prop where
  grown : r.Grown r' [id]
  duration : r'.duration = (m.lastLength last).duration
  mirrored : m.MirroredBy r'.tree names last id

/-- The letters are names, and a length that is not written is known. -/
structure Reader.Knows (r : Reader) (names : Naming) (last : Length) : Prop where
  names : names.KnownIn r.language
  apart : r.inChord = false
  duration : r.duration = last.duration

theorem Reader.Knows.same {r r' : Reader} {names : Naming} {last : Length} (knows : r.Knows names last)
    (same : SameScore r r') : r'.Knows names last where
  names := same.language ▸ knows.names
  apart := same.inChord.trans knows.apart
  duration := same.duration.trans knows.duration

theorem Reader.Gave.knows {r r' : Reader} {names : Naming} {last : Length} {m : Music} {id : ItemId}
    (gave : r.Gave r' names last m id) (knows : r.Knows names last) :
    r'.Knows names (m.lastLength last) where
  names := gave.grown.language ▸ knows.names
  apart := gave.grown.inChord.trans knows.apart
  duration := gave.duration

section Leaves

variable {names : Naming} {written : Option Length} {last : Length} {s : State} {offset : Nat}

theorem readOwnDuration_run {id : ItemId} {r' : Reader} (apart : r.inChord = false)
    (run : (readDuration id none).run r = ((), r')) :
    (readOwnDuration false id).run r = (some id, r') := by
  have timed : ((get : Reading Reader).run r).1.inChord = false := apart
  rw [readOwnDuration, run_bind, timed]
  exact congrArg (fun x : Unit × Reader => (some id, x.2)) run

theorem readNote (tone : Tone) (knows : r.Knows names last)
    (text : t.token.text = String.ofList [tone.letter.char])
    (plain : t.region ≠ .lily .pitchCommand)
    (took : r.Took limit t (scanned offset ((tone.pieces s).tail ++
      (written.map (Length.pieces s)).getD []) ++ us))
    (inside : Within limit t.depth) (within : Within limit s.depth) (spaced : Spaced limit us (u :: ts))
    (ends : Starts u) :
    ∃ r', (readMusicItem .note t.token).run r = (some r.tree.size, r') ∧ r'.Ready limit (u :: ts) ∧
      r.Gave r' names last (.leaf (.note tone) written) r.tree.size := by
  rw [scanned_append, List.append_assoc] at took
  generalize offset + byteSize (textOf (tone.pieces s).tail) = behind at took
  obtain ⟨r1, us₁, run, again, spaced, grown, same, mirrored, empty⟩ : ∃ r1 us₁,
      (readMusicItem .note t.token).run r = (readOwnDuration false r.tree.size).run r1 ∧
      r1.Ready limit (scanned behind ((written.map (Length.pieces s)).getD []) ++ us₁) ∧
      Spaced limit us₁ (u :: ts) ∧ r.Grown r1 [r.tree.size] ∧ r1.duration = r.duration ∧
      tone.MirroredBy r1.tree names r.tree.size ∧ r1.tree.children r.tree.size = [] := by
    cases written with
    | none =>
      obtain ⟨r1, run, again, rest⟩ :=
        readTone tone knows.names text plain took inside within spaced (.inl ends)
      exact ⟨r1, u :: ts, run, again, .inl rfl, rest⟩
    | some l =>
      obtain ⟨r1, run, again, rest⟩ :=
        readTone tone knows.names text plain took inside within (.inl rfl) (.inr rfl)
      exact ⟨r1, us, run, again, spaced, rest⟩
  obtain ⟨ids, r2, later, again, whole, next, known, alike, _⟩ :=
    readDuration_written written last grown (same.trans knows.duration) again within spaced ends
  have timed : r1.inChord = false := grown.inChord.trans knows.apart
  refine ⟨r2, run.trans (readOwnDuration_run timed later), again, whole, next, ⟨⟨?_, ?_⟩, ?_⟩,
    alike.duration⟩
  · exact alike.kind.trans mirrored.1
  · rw [alike.details]
    exact mirrored.2
  · rw [children, alike.children, empty]
    exact known

theorem readRest (knows : r.Knows names last) (plain : t.region ≠ .lily .pitchCommand)
    (took : r.Took limit t (scanned offset ((written.map (Length.pieces s)).getD []) ++ us))
    (inside : Within limit t.depth) (within : Within limit s.depth) (spaced : Spaced limit us (u :: ts))
    (ends : Starts u) :
    ∃ r', (readMusicItem .rest t.token).run r = (some r.tree.size, r') ∧ r'.Ready limit (u :: ts) ∧
      r.Gave r' names last (.leaf .rest written) r.tree.size := by
  let r1 : Reader := { r with tree := r.tree.push (.single .rest t.token.start (some t.token)) }
  have grown : r.Grown r1 [r.tree.size] := .add ..
  obtain ⟨ids, r2, run, again, grown, next, known, alike, _⟩ :=
    readDuration_written written last grown knows.duration ((took.ready inside).score ..) within spaced
      ends
  have made : r1.tree.item r.tree.size = .single .rest t.token.start (some t.token) := by
    rw [item_push, if_pos rfl]
  rw [made] at alike
  refine ⟨r2, ?_, again, grown, next, ⟨alike.kind, ?_⟩, alike.duration⟩
  · have outside : r.current?.any (·.region == .lily .pitchCommand) = false := by
      simpa [took.current] using plain
    rw [readMusicItem, run_bind]
    show StateT.run (readOwnDuration _ r.tree.size) r1 = _
    rw [← readOwnDuration_run (r := r1) knows.apart run, ← outside]
    rfl
  · rw [children, alike.children, children, made]
    exact known

end Leaves

end Parts
end ScoreText
