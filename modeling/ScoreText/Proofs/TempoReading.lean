import ScoreText.Proofs.MusicItems

/-! A tempo in front of music. Its region is left in front of the first token that has no place in it. The reader
takes that token to find this out, and gives it back. A chord specifier does not.

```text
  { \tempo 4 = 60 c d }     taken by the tempo: up to c     read next: c
```
-/
namespace ScoreText

open Reader Reading ScoreText.Tree

section Pieces

variable (s : State)

/-- The state in a tempo. -/
abbrev State.inTempo : State :=
  s.enter (.lily .tempo)

/-- A tempo of sixty quarters, with the space behind it. -/
def tempoChars : List Char :=
  "\\tempo 4 = 60 ".toList

def tempoPieces : List (Piece × State) :=
  [(⟨.lily .tempo, "\\tempo".toList⟩, s.inTempo), (spacePiece, s.inTempo),
    (⟨.lily .length, ['4']⟩, s.inTempo.inLength), (spacePiece, s.inTempo.inLength),
    (⟨.lily .equalSign, ['=']⟩, s.inTempo), (spacePiece, s.inTempo),
    (⟨.lily .integerValue, ['6', '0']⟩, s.inTempo), (spacePiece, s.inTempo)]

/-- The first token of an expression opens no region. -/
def Music.StartsInPlace : Music → Prop
  | .leaf (.note _) _ | .leaf .rest _ | .tuplet _ _ _ => True
  | .leaf (.chord _ _) _ | .list _ _ => False

end Pieces

section Scan

variable {s last : State} {cs rest : List Char} {ps : List (Piece × State)}

theorem settle_behind_tempo (rooted : s.Rooted) {before : Option Char}
    (no_part : (Region.lily .tempo).at? before cs = none) :
    s.inTempo.settleAt before cs = s.settleAt before cs := by
  rw [State.settleAt_eq, State.settleAt_eq, State.settle_rooted (show s.inTempo.Rooted from rooted),
    State.settle_rooted rooted]
  simp only [State.enter, State.enterAwaiting, State.settleFrames, no_part, Region.rule, Lily.Region.rule,
    Option.isSome_none]
  rfl

theorem tempo_at (before : Option Char) :
    (Region.lily .music).at? before ("\\tempo".toList ++ ' ' :: rest) =
      some ⟨.lily .tempo, "\\tempo".toList, ' ' :: rest⟩ := by
  rfl

set_option maxRecDepth 4000 in
theorem no_tempo_part {m : Music} (inPlace : m.StartsInPlace) (before : Option Char) :
    (Region.lily .tempo).at? before (m.chars ++ rest) = none := by
  cases m with
  | leaf l written =>
    cases l with
    | note tone =>
      have no_starters : (Region.lily .tempo).starters tone.letter.char = [] := by
        cases tone.letter <;> rfl
      exact Region.at_none before _ no_starters
    | rest => exact Region.at_none before _ rfl
    | chord first others => exact inPlace.elim
  | list b items => exact inPlace.elim
  | tuplet p b items => rfl

/-- A tempo is over in front of what has no place in it. -/
theorem Follows.tempo (within : s.In .music) {c : Char} (ends_length : EndsLength c)
    (no_part : ∀ before, (Region.lily .tempo).at? before (c :: cs) = none)
    (next : Follows s (c :: cs) ps last) :
    Follows s (tempoChars ++ c :: cs) (tempoPieces s ++ ps) last := by
  have gone : Follows s.inTempo (c :: cs) ps last :=
    .left (fun before => settle_behind_tempo within.rooted (no_part before)) next
  have space {c : Char} {cs : List Char} {ps : List (Piece × State)} (solid : Text.isBlank c = false)
      (next : Follows s.inTempo (c :: cs) ps last) :
      Follows s.inTempo (' ' :: c :: cs) ((spacePiece, s.inTempo) :: ps) last :=
    .inside rfl (single_space_at rfl (ends_cons.mpr solid)) rfl next
  have count : Follows s.inTempo (tempoChars.drop 11 ++ c :: cs) ((tempoPieces s).drop 6 ++ ps) last :=
    .inside rfl (fun _ => rfl) rfl (space ends_length.1 gone)
  -- The sign lies behind the length, whose region is left in front of it.
  have settles (before : Option Char) :
      s.inTempo.inLength.settleAt before ('=' :: (tempoChars.drop 10 ++ c :: cs)) = s.inTempo := by
    rw [settle_behind_length (s := s.inTempo) within.rooted before rfl rfl]
    exact State.settle_of_stays (s := s.inTempo) (.inr rfl)
  have sign : Follows s.inTempo.inLength (tempoChars.drop 9 ++ c :: cs) ((tempoPieces s).drop 4 ++ ps) last :=
    .found settles (fun _ => rfl) rfl (space (by decide) count)
  have beat : Follows s.inTempo (tempoChars.drop 7 ++ c :: cs) ((tempoPieces s).drop 2 ++ ps) last :=
    .inside rfl (fun _ => rfl) rfl (.inside rfl (single_space_at rfl (ends_cons.mpr rfl)) rfl sign)
  exact .token within tempo_at rfl (space (by decide) beat)

end Scan

section Tempo

variable {r r₀ r₁ : Reader} {limit : Option Nat} {n : Nat} {deeper : Deeper} {id : ItemId}
  {t u space : ScannedToken} {us : List ScannedToken}

/-- A tempo is being read: its item is the only new one that nothing holds. -/
structure Reader.InTempo (r₀ r : Reader) (id : ItemId) : Prop where
  grown : r₀.Grown r [id]
  kind : r.tree.kind id = .tempo

theorem Reader.InTempo.same (inTempo : r₀.InTempo r id) (same : r.SameScore r₁) : r₀.InTempo r₁ id :=
  ⟨inTempo.grown.same same, same.tree ▸ inTempo.kind⟩

theorem scanned_tempo (s : State) (offset : Nat) :
    ∃ t behind, scanned offset (tempoPieces s) = t :: scanned behind (tempoPieces s).tail ∧
      t.token.kind = .lily .tempo ∧ t.depth = s.inTempo.depth :=
  ⟨_, _, scanned_cons .., rfl, rfl⟩

/-- The parts of a tempo that are still to come. -/
abbrev Reading.tempoParts (deeper : Deeper) (id : ItemId) : TempoParts → Reading TempoParts :=
  loop (through (readTempoPart deeper id))

theorem tempo_blank (deeper : Deeper) (id : ItemId) (ready : r.Ready limit (space :: us))
    (blank : space.token.kind = .space) :
    ∃ r', (∀ p, (tempoParts deeper id p).run r =
        (tempoParts deeper id { p with unused := some space.token }).run r') ∧
      r'.Took limit space us ∧ r.SameScore r' := by
  obtain ⟨r1, taken, took, same⟩ := next_ready ready
  refine ⟨r1, fun p => loop_more (through_found taken ?_) (took.fewer ready), took, same⟩
  simp only [readTempoPart, startsTempoText, isOne, blank, Bool.and_false]
  cases p.hasEqualSign <;> rfl

theorem tempo_beat (deeper : Deeper) (inTempo : r₀.InTempo r id)
    (ready : r.Ready limit (t :: space :: u :: us)) (kind : t.token.kind = .lily .length)
    (text : t.token.text = String.ofList Length.quarter.digits) (inside : Within limit t.depth)
    (blank : space.token.kind = .space) (still : Within limit space.depth)
    (sign : u.token.kind = .lily .equalSign) :
    ∃ r', (∀ p, p.hasEqualSign = false →
        (tempoParts deeper id p).run r = (tempoParts deeper id { p with unused := none }).run r') ∧
      r'.Ready limit (u :: us) ∧ r₀.InTempo r' id ∧ r'.duration = Length.quarter.duration := by
  obtain ⟨r1, taken, took, same⟩ := next_ready ready
  obtain ⟨r2, run, ready₂, same₂⟩ := readDurationTokens_up_to [t.token] (took.ready inside)
    (.inr ⟨space, rfl, blank, still⟩) (by simp only [isDuration, sign]; rfl) (by rw [sign]; rfl)
  have inTempo₂ := (inTempo.same same).same same₂
  have value : Duration.ofParts? ([t.token].map (·.text.toList)) = some Length.quarter.duration := by
    rw [List.map_singleton, text, String.toList_ofList]
    exact Length.quarter.ofParts
  have timed : r₀.Timed _ r2.tree id (some .quarter) .quarter [r2.tree.size] :=
    inTempo₂.grown.timed .quarter t.token []
  have duration : (readDuration id (some t.token)).run r1 = _ := readDuration_run run value
  refine ⟨_, fun p front => loop_more (through_found taken ?_) ?_, ready₂.score .., ⟨timed.grown, ?_⟩,
    timed.duration⟩
  · have no_text : startsTempoText t.token = false := by
      simp only [startsTempoText, kind]
      rfl
    simp only [readTempoPart, front, no_text, kind, Bool.and_false]
    exact run_then duration rfl
  · rw [(ready₂.score ..).left, ready.left]
    simp
  · rw [Tree.kind, timed.alike.kind]
    exact inTempo₂.kind

theorem tempo_sign (deeper : Deeper) (inTempo : r₀.InTempo r id) (ready : r.Ready limit (t :: us))
    (sign : t.token.kind = .lily .equalSign) :
    ∃ r', (∀ p, p.hasEqualSign = false → (tempoParts deeper id p).run r =
        (tempoParts deeper id { p with hasEqualSign := true, unused := none }).run r') ∧
      r'.Took limit t us ∧ r₀.InTempo r' id ∧ r'.duration = r.duration := by
  obtain ⟨r1, taken, took, same⟩ := next_ready ready
  have inTempo₁ := inTempo.same same
  obtain ⟨new, there, _⟩ := inTempo₁.grown.gains.loose id List.mem_cons_self
  let v := r1.tree.update id fun i => { i with tokens := [t.token] }
  have took₁ : Took { r1 with tree := v } limit t us := took.score ..
  refine ⟨{ r1 with tree := v }, fun p front => loop_more (through_found taken ?_) (took₁.fewer ready), took₁,
    ⟨⟨inTempo₁.grown.gains.update new fun i => ⟨rfl, rfl⟩, inTempo₁.grown.language, inTempo₁.grown.inChord⟩,
      ?_⟩, same.duration⟩
  · have no_text : startsTempoText t.token = false := by
      simp only [startsTempoText, sign]
      rfl
    simp only [readTempoPart, front, no_text, sign, Bool.and_false]
    rfl
  · rw [Tree.kind, item_update_self there]
    exact inTempo₁.kind

/-- The beats in a minute. They are an item if there is a level left for it. -/
theorem tempo_count (n : Nat) (inTempo : r₀.InTempo r id) (ready : r.Ready limit (t :: us))
    (count : t.token.kind = .lily .integerValue) :
    ∃ r', (∀ p, p.hasEqualSign = true → (tempoParts (Reading.read n) id p).run r =
        (tempoParts (Reading.read n) id { p with unused := none }).run r') ∧
      r'.Took limit t us ∧ r₀.InTempo r' id ∧ r'.duration = r.duration := by
  obtain ⟨r1, taken, took, same⟩ := next_ready ready
  have inTempo₁ := inTempo.same same
  have value : isOne [.integerValue, .schemeStart] t.token = true := by
    simp only [isOne, count]
    rfl
  cases n with
  | zero =>
    refine ⟨r1, fun p behind => loop_more (through_found taken ?_) (took.fewer ready), took, inTempo₁,
      same.duration⟩
    simp only [readTempoPart, behind, value]
    rfl
  | succ n =>
    let number := Item.single .number t.token.start (some t.token)
    obtain ⟨gains, _, holder, _⟩ := inTempo₁.grown.gains.put (push_gains r1.tree .number t.token.start t.token)
    let v := (r1.tree.push number).append id r1.tree.size
    have took₁ : Took { r1 with tree := v } limit t us := took.score ..
    refine ⟨{ r1 with tree := v }, fun p behind => loop_more (through_found taken ?_) (took₁.fewer ready), took₁,
      ⟨⟨gains, inTempo₁.grown.language, inTempo₁.grown.inChord⟩, holder.kind.trans inTempo₁.kind⟩,
      same.duration⟩
    have read : (Reading.read (n + 1) .item t.token).run { r1 with source := .free } =
        (some r1.tree.size, { r1 with source := .free, tree := r1.tree.push number }) := by
      rw [read_item count]
      rfl
    simp only [readTempoPart, behind, value]
    exact run_then (within_run read) rfl

theorem tempo_over (deeper : Deeper) (id : ItemId) {d : Nat} (ready : r.Ready (some d) (u :: us))
    (starts : Starts u) (leaves : u.depth < d) :
    ∃ r', (∀ p, p.hasEqualSign = true →
        (tempoParts deeper id p).run r = ({ p with unused := some u.token }, r')) ∧ r'.At u us ∧
      r.SameScore r' := by
  obtain ⟨r1, taken, took, same⟩ := next_ready ready
  obtain ⟨source, ended⟩ := next_over took leaves
  refine ⟨{ r1 with source }, fun p behind => ?_, ⟨took.ahead, took.pushed, took.current⟩,
    ⟨same.tree, same.language, same.inChord, same.duration⟩⟩
  have part : (readTempoPart deeper id p u.token).run r1 = ({ p with unused := some u.token }, r1) := by
    obtain ⟨k, member, kind⟩ := starts
    have no_place : ∀ k ∈ startKinds, [Lily.Kind.integerValue, .schemeStart].contains k = false ∧
        (TokenKind.lily k == .lily .tempoSeparator) = false := by decide
    simp only [readTempoPart, behind, isOne, kind, no_place k member]
    rfl
  rw [loop_more (through_found taken part) (took.fewer ready), loop_done (through_over ended)]

/-- A tempo gives back the first token that has no place in it. -/
theorem readTempo_gives {s : State} {offset : Nat} (deep : t.depth = s.inTempo.depth)
    (took : r.Took limit t (scanned offset (tempoPieces s).tail ++ u :: us)) (starts : Starts u)
    (leaves : u.depth < t.depth) :
    ∃ r', (readTempo (Reading.read n) t.token).run r = (r.tree.size, r') ∧ r'.Ready limit (u :: us) ∧
      r.InTempo r' r.tree.size ∧ r'.duration = Length.quarter.duration := by
  let r1 : Reader := { r with tree := r.tree.push (.single .tempo t.token.start (some t.token)) }
  have start : r.InTempo r1.entering r.tree.size := by
    refine ⟨⟨push_gains .., rfl, rfl⟩, ?_⟩
    rw [Tree.kind, item_push, if_pos rfl]
    rfl
  have inside : Within (some t.depth) s.inTempo.depth := by simp [Within, deep]
  have within_length : Within (some t.depth) s.inTempo.inLength.depth := fun d member =>
    Nat.le_succ_of_le (inside d member)
  have entering : r1.entering.Ready (some t.depth) _ := (took.score ..).entering
  rw [tempoPieces, List.tail_cons] at entering
  let deeper := Reading.read n
  let id := r.tree.size
  obtain ⟨r2, run₂, took₂, same₂⟩ := tempo_blank deeper id entering rfl
  obtain ⟨r3, run₃, ready₃, tempo₃, timed⟩ := tempo_beat deeper (start.same same₂) (took₂.ready inside) rfl
    rfl within_length rfl within_length rfl
  obtain ⟨r4, run₄, took₄, tempo₄, lasts₄⟩ := tempo_sign deeper tempo₃ ready₃ rfl
  obtain ⟨r5, run₅, took₅, same₅⟩ := tempo_blank deeper id (took₄.ready inside) rfl
  obtain ⟨r6, run₆, took₆, tempo₆, lasts₆⟩ := tempo_count n (tempo₄.same same₅) (took₅.ready inside) rfl
  obtain ⟨r7, run₇, took₇, same₇⟩ := tempo_blank deeper id (took₆.ready inside) rfl
  obtain ⟨r8, run₈, there, same₈⟩ := tempo_over deeper id (took₇.ready inside) starts leaves
  obtain ⟨r9, back, gives, _, same₉⟩ := pushBack_at there
  -- five parts of the tempo are taken, and then the token that has no place in it
  have parts : (tempoParts deeper id ⟨false, false, none⟩).run r1.entering =
      (⟨false, true, some u.token⟩, r8) := by
    rw [run₂, run₃ _ rfl, run₄ _ rfl, run₅, run₆ _ rfl, run₇, run₈ _ rfl]
  have whole : (do
      let p ← tempoParts deeper id ⟨false, false, none⟩
      if p.unused.any fun t => !t.kind.isSpace && !t.kind.isComment then pushBack : Reading Unit).run
        r1.entering = ((), r9) := by
    rw [run_bind, parts]
    simp only [Option.any_some, starts.solid.1, starts.solid.2]
    exact back
  obtain ⟨last, bound⟩ := bounded_run whole
  have tempo₉ := tempo₆.same ((same₇.trans same₈).trans same₉)
  have lasts₉ := ((same₇.trans same₈).trans same₉).duration
  refine ⟨{ r9 with source := r.source }, ?_, Gives.ready ⟨gives.ahead, gives.pushed, gives.known⟩ took.goesOn,
    ⟨⟨tempo₉.grown.gains, tempo₉.grown.language, tempo₉.grown.inChord⟩, tempo₉.kind⟩,
    lasts₉.trans (lasts₆.trans (same₅.duration.trans (lasts₄.trans timed)))⟩
  rw [readTempo, run_bind, addFor_run]
  exact congrArg (fun x : (Unit × Option Token) × Reader => (r.tree.size, x.2)) bound

end Tempo

section ChordSpecifier

variable {r : Reader} {limit : Option Nat} {t u : ScannedToken} {us : List ScannedToken}

def Reading.specifierStep (id : ItemId) (_ : Unit) : Reading (Turn Unit) := do
  match ← Reading.next with
  | none => return .done ()
  | some t =>
    if isChordItem t then append id (← addFor .chordItem t)
    else if t.kind == .lily .note then
      if let some (note, pitch) ← addNote t then
        setDetails note (.note pitch none none none)
        append id note
    return .more ()

theorem specifierStep_found {r₁ : Reader} {id : ItemId} {t : Token} (taken : next.run r = (some t, r₁)) :
    ∃ v, (specifierStep id ()).run r = (.more (), { r₁ with tree := v }) := by
  rw [specifierStep, run_bind, taken]
  dsimp only
  split
  · exact ⟨_, rfl⟩
  · split
    · cases name : readPitch? r₁.language t.text with
      | none =>
        have none_added : (addNote t).run r₁ = (none, r₁) := by
          have here : readPitch? ((get : Reading Reader).run r₁).1.language t.text = none := name
          rw [addNote, run_bind, here]
          rfl
        refine ⟨r₁.tree, ?_⟩
        rw [run_bind, none_added]
        rfl
      | some p =>
        rw [run_bind, addNote_run name]
        exact ⟨_, rfl⟩
    · exact ⟨r₁.tree, rfl⟩

/-- A chord specifier takes the first token behind its region, whatever that is, and does not give it back. -/
theorem readChordSpecifier_takes (inside : List ScannedToken) (took : r.Took limit t (inside ++ u :: us))
    (within : ∀ v ∈ inside, t.depth ≤ v.depth) (leaves : u.depth < t.depth) :
    ∃ r', (readChordSpecifier t.token).run r = (r.tree.size, r') ∧ r'.Took limit u us := by
  let id := r.tree.size
  let whole := r.tree.push (.single .chordSpecifier t.token.start none)
  let v := (whole.push (.single .chordItem t.token.start (some t.token))).append id whole.size
  let r1 : Reader := { r with tree := v }
  have entering : r1.entering.Ready (some t.depth) _ := (took.score ..).entering
  have found {a : Unit} {t : Token} {r r₁ : Reader} (taken : next.run r = (some t, r₁)) :
      ∃ v, (specifierStep id a).run r = (.more (), { r₁ with tree := v }) ∧ True :=
    (specifierStep_found taken).imp fun _ run => ⟨run, trivial⟩
  have stops {a : Unit} {r r₁ : Reader} (ended : next.run r = (none, r₁)) :
      (specifierStep id a).run r = (.done a, r₁) := by
    rw [specifierStep, run_bind, ended]
    rfl
  obtain ⟨r2, run, there, _⟩ := loop_region (Q := fun _ _ => True) (fun _ _ => trivial) found stops inside entering
    within leaves ()
  obtain ⟨last, bound⟩ := bounded_run run
  have took₂ := took.back there r2.tree r2.inChord
  refine ⟨{ r2 with source := r.source }, ?_, took₂⟩
  exact congrArg (fun x : (Unit × Option Token) × Reader => (id, x.2)) bound

end ChordSpecifier

end ScoreText
