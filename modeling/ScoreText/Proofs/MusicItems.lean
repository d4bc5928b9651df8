import ScoreText.Proofs.MusicReading

/-! Reading lists, chords and tuplets, and with them any expression. -/
namespace ScoreText

open Reader Reading ScoreText.Tree

variable {names : Naming} {last : Length} {n : Nat} {limit : Option Nat} {r : Reader}
  {s : State} {offset : Nat} {t u : ScannedToken} {ts us us₀ : List ScannedToken}

/-- A token that ends a list or a chord. -/
def Closes (t : ScannedToken) : Prop :=
  ∃ k ∈ [Lily.Kind.sequentialEnd, .simultaneousEnd, .chordEnd], t.token.kind = .lily k

namespace Closes

theorem starts (closes : Closes t) : Starts t := by
  obtain ⟨k, member, kind⟩ := closes
  have all : ∀ k ∈ [Lily.Kind.sequentialEnd, .simultaneousEnd, .chordEnd], k ∈ startKinds := by decide
  exact ⟨k, all k member, kind⟩

theorem no_item (closes : Closes t) (n : Nat) (r : Reader) :
    (read n .item t.token).run r = (none, r) := by
  obtain ⟨k, member, kind⟩ := closes
  cases n with
  | zero => rfl
  | succ n =>
    simp only [List.mem_cons, List.not_mem_nil, or_false] at member
    rw [Reading.read, readItem, kind]
    rcases member with rfl | rfl | rfl <;> rfl

end Closes

namespace Music

/-- An expression is read as an item that mirrors it, from its first token on. Spaces behind it may be
taken, too. -/
def ReadBy (names : Naming) (n : Nat) (m : Music) : Prop :=
  ∀ ⦃r : Reader⦄ ⦃limit : Option Nat⦄ ⦃s : State⦄ ⦃offset : Nat⦄ ⦃last : Length⦄
    ⦃t u : ScannedToken⦄ ⦃tail us ts : List ScannedToken⦄,
    r.Knows names last →
    s.top.region ≠ .lily .pitchCommand → Within limit s.depth →
    scanned offset (m.pieces s) = t :: tail → r.Took limit t (tail ++ us) →
    Spaced limit us (u :: ts) → Starts u →
    ∃ id r' us', (read n .item t.token).run r = (some id, r') ∧ r'.Ready limit us' ∧
      (us' = us ∨ us' = u :: ts) ∧ r.Gave r' names last m id

/-- The rest of a region with expressions in it is read as items that mirror them. -/
def AllReadBy (names : Naming) (n : Nat) (ms : List Music) : Prop :=
  ∀ ⦃r : Reader⦄ ⦃d : Nat⦄ ⦃s : State⦄ ⦃offset : Nat⦄ ⦃last : Length⦄
    ⦃closing : ScannedToken⦄ ⦃us us₀ : List ScannedToken⦄,
    r.Knows names last →
    s.top.region ≠ .lily .pitchCommand → d ≤ s.depth → r.Ready (some d) us₀ →
    Spaced (some d) us₀ (scanned offset (piecesOfAll s ms) ++ closing :: us) →
    Closes closing → closing.depth < d →
    ∃ ids r', Gathers (read n) r ids r' ∧ r.Grown r' ids ∧ r'.At closing us ∧
      r'.duration = (lastLengthOfAll last ms).duration ∧ AllMirroredBy r'.tree names last ms ids

theorem front (m : Music) (s : State) (offset : Nat) :
    ∃ t tail, scanned offset (m.pieces s) = t :: tail ∧ Starts t := by
  cases m with
  | leaf l written =>
    cases l with
    | note tone => exact ⟨_, _, rfl, .note, by decide, rfl⟩
    | rest => exact ⟨_, _, rfl, .rest, by decide, rfl⟩
    | chord first others => exact ⟨_, _, rfl, .chordStart, by decide, rfl⟩
  | list b items => exact ⟨_, _, rfl, openingKind b, by cases b <;> decide, rfl⟩
  | tuplet p b items => exact ⟨_, _, rfl, .command, by decide, rfl⟩

theorem front_all (ms : List Music) (s : State) (offset : Nat) {closing : ScannedToken}
    (closes : Closes closing) (us : List ScannedToken) :
    ∃ u ts, scanned offset (piecesOfAll s ms) ++ closing :: us = u :: ts ∧ Starts u := by
  cases ms with
  | nil => exact ⟨closing, us, rfl, closes.starts⟩
  | cons m ms =>
    obtain ⟨u, tail, shape, starts⟩ := m.front s offset
    rw [piecesOfAll, scanned_append, shape]
    exact ⟨u, _, rfl, starts⟩

theorem depth_behind (m : Music) (s : State) : s.depth ≤ (m.behind s).depth := by
  cases m with
  | leaf l written =>
    cases written with
    | none => exact Nat.le_refl _
    | some l => exact Nat.le_succ _
  | list b items => exact Nat.le_refl _
  | tuplet p b items => exact Nat.le_refl _

theorem AllReadBy.nil (names : Naming) (n : Nat) : AllReadBy names n [] := by
  intro r d s offset last closing us us₀ knows _ _ ready spaced closes leaves
  obtain ⟨r', gathers, same, there⟩ :=
    gathers_over ready spaced closes.starts.solid leaves (closes.no_item n)
  exact ⟨[], r', gathers, ⟨same.tree ▸ .refl _, same.language, same.inChord⟩, there,
    same.duration.trans knows.duration, rfl⟩

theorem AllReadBy.cons {m : Music} {ms : List Music} (first : m.ReadBy names n)
    (rest : AllReadBy names n ms) : AllReadBy names n (m :: ms) := by
  intro r d s offset last closing us us₀ knows plain deep ready spaced closes leaves
  rw [piecesOfAll, scanned_append, scanned_cons] at spaced
  generalize offset + byteSize (textOf (m.pieces s)) = behind at spaced
  obtain ⟨t, tail, shape, starts⟩ := m.front s offset
  obtain ⟨u, ts, next, next_starts⟩ := front_all ms s (behind + byteSize spacePiece.text) closes us
  simp only [shape, List.append_assoc, List.cons_append, next] at spaced
  obtain ⟨r1, taken, took, same⟩ := nextItem_ready ready spaced starts.solid
  have inside : Within (some d) s.depth := by simpa [Within] using deep
  have beyond : Within (some d) (m.behind s).depth := fun d member =>
    Nat.le_trans (inside d member) (m.depth_behind s)
  obtain ⟨id, r2, us', run, again, near, gave⟩ := first (knows.same same) plain inside shape took
    (.inr ⟨_, rfl, rfl, beyond⟩) next_starts
  have fewer : r2.left < r.left := by
    have enough := left_of_spaced ready spaced
    rw [again.left]
    rcases near with rfl | rfl <;> simp at enough ⊢ <;> omega
  have spaced₂ : Spaced (some d) us'
      (scanned (behind + byteSize spacePiece.text) (piecesOfAll s ms) ++ closing :: us) := by
    rw [next]
    rcases near with rfl | rfl
    · exact .inr ⟨_, rfl, rfl, beyond⟩
    · exact .inl rfl
  obtain ⟨ids, r3, gathers, grown, there, lasts, mirrored⟩ :=
    rest (gave.knows (knows.same same)) plain deep again spaced₂ closes leaves
  refine ⟨id :: ids, r3, .item taken run fewer gathers, ?_, there, lasts, ?_⟩
  · have whole := gave.grown.trans grown
    exact ⟨same.tree ▸ whole.gains, whole.language.trans same.language, whole.inChord.trans same.inChord⟩
  · rw [AllMirroredBy]
    exact ⟨id, ids, rfl, gave.mirrored.kept (gave.grown.gains.alikeFrom grown.gains)
      (gave.grown.gains.from List.mem_cons_self), mirrored⟩

end Music

section Lists

variable {closing : ScannedToken} {tail : List ScannedToken}

theorem startList_run (opens : opensList t.token.kind = true) :
    ∃ v, (startList t.token).run r = (some (r.tree.size, true), { r with tree := v }) ∧
      Gains r.tree v [r.tree.size] ∧ v.size = r.tree.size + 1 ∧
      Alike
        { Item.single .musicList t.token.start (some t.token) with
          details := .list (t.token.text == "<<") }
        (v.item r.tree.size) := by
  refine ⟨((r.tree.push (.single .musicList t.token.start (some t.token))).update r.tree.size fun i =>
      { i with details := .list (t.token.text == "<<") }).update r.tree.size fun i =>
        { i with tokens := i.tokens ++ [] }, ?_, ?_, ?_, ?_⟩
  · rw [startList, if_pos opens]
    rfl
  · refine ((push_gains ..).update (Nat.le_refl _) ?_).update (Nat.le_refl _) ?_
    · exact fun i => ⟨rfl, rfl⟩
    · exact fun i => ⟨rfl, rfl⟩
  · simp [size_update, size_push]
  · rw [item_update_self (by simp [size_update, size_push]), item_update_self (by simp [size_push]),
      item_push, if_pos rfl]
    exact ⟨rfl, rfl, rfl, rfl⟩

/-- A list was read. It holds the items that were read of its region. -/
structure Reader.Listed (r inner r' : Reader) (b : Bool) (ids : List ItemId) : Prop where
  grown : r.Grown r' [r.tree.size]
  duration : r'.duration = inner.duration
  kind : r'.tree.kind r.tree.size = .musicList
  details : (r'.tree.item r.tree.size).details = .list b
  children : r'.tree.children r.tree.size = ids
  stays : AlikeFrom (r.tree.size + 1) inner.tree r'.tree
  inside : ∀ c ∈ ids, From (r.tree.size + 1) inner.tree c

/-- A list is read if its region is, up to the token that closes it. -/
theorem readList_lists {b : Bool} {Q : Reader → List ItemId → Prop}
    (kind : t.token.kind = .lily (Music.openingKind b))
    (text : t.token.text = String.ofList (Music.opening b)) (took : r.Took limit t us₀)
    (region : ∀ v : Tree, ∃ ids r₂, Gathers (read n) { r with tree := v }.entering ids r₂ ∧
      Grown { r with tree := v } r₂ ids ∧ r₂.At closing us ∧ Q r₂ ids) :
    ∃ ids r₂ r', (readList (read n) t.token).run r = (some r.tree.size, r') ∧ r'.Took limit closing us ∧
      r.Listed r₂ r' b ids ∧ Q r₂ ids := by
  have opens : opensList t.token.kind = true := by
    rw [kind]
    cases b <;> rfl
  have simultaneous : (t.token.text == "<<") = b := by
    rw [text]
    cases b <;> decide
  obtain ⟨v, started, gains, size, single⟩ := startList_run (r := r) opens
  rw [simultaneous] at single
  have holder : Grown r { r with tree := v } [r.tree.size] := ⟨gains, rfl, rfl⟩
  obtain ⟨ids, r2, gathers, grown, there, holds⟩ := region v
  obtain ⟨u, run, whole, _, alike, kept⟩ := readRegionInto_gives holder gathers grown
  have took₁ : Took { r with tree := v } limit t us₀ := took.score ..
  refine ⟨ids, r2, _, ?_, took₁.back there u r2.inChord, ⟨⟨whole, grown.language, grown.inChord⟩, rfl, ?_, ?_, ?_,
    kept, fun c member => size ▸ grown.gains.from member⟩, holds⟩
  · rw [readList, run_bind, started]
    exact congrArg (fun x : Unit × Reader => (some r.tree.size, x.2)) run
  · exact alike.kind.trans single.kind
  · exact alike.details.trans single.details
  · rw [children, alike.children, children, single.children]
    rfl

theorem read_list {b : Bool} (kind : t.token.kind = .lily (Music.openingKind b)) :
    read (n + 1) .item t.token = readList (read n) t.token := by
  rw [Reading.read, readItem, kind]
  cases b <;> rfl

theorem scanned_list (s : State) (offset : Nat) (b : Bool) (inner : List (Piece × State)) :
    ∃ opening space closing behind,
      scanned offset (Music.listPieces s b inner) =
        opening :: space :: (scanned behind inner ++ [closing]) ∧
      opening.token.kind = .lily (Music.openingKind b) ∧
      opening.token.text = String.ofList (Music.opening b) ∧ opening.depth = s.depth + 1 ∧
      space.token.kind = .space ∧ space.depth = s.depth + 1 ∧
      closing.token.kind = .lily (Music.closingKind b) ∧ closing.depth = s.depth := by
  rw [Music.listPieces, scanned_cons, scanned_cons, scanned_append]
  exact ⟨_, _, _, _, rfl, rfl, rfl, rfl, rfl, rfl, rfl, rfl⟩

/-- A list that stands in front is read if what is between its brackets is. -/
theorem readList_front {b : Bool} {inner : List (Piece × State)} {Q : Reader → List ItemId → Prop}
    (shape : scanned offset (Music.listPieces s b inner) = t :: tail) (took : r.Took limit t (tail ++ us))
    (knows : r.Knows names last)
    (region : ∀ ⦃r₁ : Reader⦄ ⦃behind : Nat⦄ ⦃closing : ScannedToken⦄ ⦃us₀ : List ScannedToken⦄,
      r₁.Knows names last → r₁.Ready (some (s.enter (.lily .music)).depth) us₀ →
      Spaced (some (s.enter (.lily .music)).depth) us₀ (scanned behind inner ++ closing :: us) →
      Closes closing → closing.depth < (s.enter (.lily .music)).depth →
      ∃ ids r₂, Gathers (read n) r₁ ids r₂ ∧ r₁.Grown r₂ ids ∧ r₂.At closing us ∧ Q r₂ ids) :
    ∃ closing ids r₂ r', (read (n + 1) .item t.token).run r = (some r.tree.size, r') ∧
      r'.Took limit closing us ∧ closing.depth = s.depth ∧ r.Listed r₂ r' b ids ∧ Q r₂ ids := by
  obtain ⟨opening, space, closing, behind, pieces, kind, text, deep, blank, space_deep, closing_kind,
    leaves⟩ := scanned_list s offset b inner
  rw [pieces, List.cons.injEq] at shape
  obtain ⟨rfl, rfl⟩ := shape
  have closes : Closes closing := ⟨_, by cases b <;> decide, closing_kind⟩
  have opened : (s.enter (.lily .music)).depth = opening.depth := deep.symm
  rw [opened] at region
  have spaced : Spaced (some opening.depth) (space :: (scanned behind inner ++ [closing]) ++ us)
      (scanned behind inner ++ closing :: us) := by
    refine .inr ⟨space, by simp, blank, fun d member => ?_⟩
    obtain rfl : opening.depth = d := by simpa using member
    omega
  have items (v : Tree) := @region { r with tree := v }.entering _ _ _
    ⟨knows.names, knows.apart, knows.duration⟩ (took.score v r.inChord r.duration).entering spaced closes
    (by omega)
  obtain ⟨ids, r2, r', run, took', listed, holds⟩ := readList_lists kind text took fun v => by
    obtain ⟨ids, r2, gathers, grown, there, holds⟩ := items v
    exact ⟨ids, r2, gathers, ⟨grown.gains, grown.language, grown.inChord⟩, there, holds⟩
  refine ⟨closing, ids, r2, r', ?_, took', leaves, listed, holds⟩
  rw [read_list kind, run]

/-- A list is read as an item that mirrors it if its items are. -/
theorem Music.AllReadBy.front {b : Bool} {items : List Music} (all : AllReadBy names n items)
    (knows : r.Knows names last)
    (shape : scanned offset (listPieces s b (piecesOfAll (s.enter (.lily .music)) items)) = t :: tail)
    (took : r.Took limit t (tail ++ us)) :
    ∃ closing r', (read (n + 1) .item t.token).run r = (some r.tree.size, r') ∧ r'.Took limit closing us ∧
      closing.depth = s.depth ∧ r.Gave r' names last (.list b items) r.tree.size := by
  have plain : (s.enter (.lily .music)).top.region ≠ .lily .pitchCommand := by
    simp [State.enter, State.enterAwaiting, State.top]
  obtain ⟨closing, ids, r2, r', run, took', leaves, listed, lasts, mirrored⟩ :=
    readList_front shape took knows fun r₁ behind closing us₀ knows ready spaced closes leaves =>
      all knows plain (Nat.le_refl _) ready spaced closes leaves
  refine ⟨closing, r', run, took', leaves, listed.grown, listed.duration.trans lasts, ?_⟩
  rw [MirroredBy, listed.children]
  exact ⟨listed.kind, listed.details, mirrored.kept listed.stays listed.inside⟩

theorem Music.ReadBy.list {b : Bool} {items : List Music} (all : AllReadBy names n items) :
    (Music.list b items).ReadBy names (n + 1) := by
  intro r limit s offset last t u tail us ts knows _ inside shape took _ _
  rw [Music.pieces] at shape
  obtain ⟨closing, r', run, took, leaves, gave⟩ := all.front knows shape took
  exact ⟨_, r', us, run, took.ready (leaves ▸ inside), .inl rfl, gave⟩

end Lists

section Chords

variable {closing : ScannedToken} {tail : List ScannedToken}

theorem read_item {k : Lily.Kind} (kind : t.token.kind = .lily k) (n : Nat) :
    read (n + 1) .item t.token = readLily (read n) k t.token := by
  rw [Reading.read, readItem, kind]

/-- A note of a chord. What comes behind it is read behind it. -/
theorem tone_read (tone : Tone) (known : names.KnownIn r.language)
    (chord : r.inChord = true) (plain : s.top.region ≠ .lily .pitchCommand) (inside : Within limit s.depth)
    (ready : r.Ready limit us₀) (spaced₀ : Spaced limit us₀ (scanned offset (tone.pieces s) ++ us))
    (spaced : Spaced limit us (u :: ts)) (starts : Starts u) :
    ∃ id r', (∀ ids r₂, Gathers (read (n + 1)) r' ids r₂ → Gathers (read (n + 1)) r (id :: ids) r₂) ∧
      r'.Ready limit (u :: ts) ∧ r.Grown r' [id] ∧ r'.duration = r.duration ∧
      tone.MirroredBy r'.tree names id ∧ r'.tree.children id = [] := by
  rw [Tone.pieces, scanned_cons, List.cons_append] at spaced₀
  obtain ⟨r1, taken, took, same⟩ := nextItem_ready ready spaced₀ ⟨rfl, rfl⟩
  obtain ⟨r2, run, again, grown, kept, mirrored, empty⟩ :=
    readTone tone (same.language ▸ known) rfl plain took inside inside spaced (.inl starts)
  have in_chord : r2.inChord = true := grown.inChord.trans (same.inChord.trans chord)
  have timeless : (readOwnDuration false r1.tree.size).run r2 = (some r1.tree.size, r2) := by
    have timed : ((get : Reading Reader).run r2).1.inChord = true := in_chord
    rw [readOwnDuration, run_bind, timed]
    rfl
  refine ⟨r1.tree.size, r2, fun ids r₂ rest => ?_, again, ?_, kept.trans same.duration, mirrored, empty⟩
  · refine .found taken ?_ ?_ rest
    · rw [read_item rfl]
      exact run.trans timeless
    · have enough := left_of_spaced ready spaced₀
      rw [again.left]
      rcases spaced with rfl | ⟨space, rfl, _⟩ <;> simp at enough ⊢ <;> omega
  · exact ⟨same.tree ▸ grown.gains, grown.language.trans same.language, grown.inChord.trans same.inChord⟩

theorem tones_read {d : Nat} (first : Tone) (others : List Tone) (known : names.KnownIn r.language)
    (chord : r.inChord = true) (plain : s.top.region ≠ .lily .pitchCommand) (deep : d ≤ s.depth)
    (ready : r.Ready (some d) us₀)
    (spaced : Spaced (some d) us₀ (scanned offset (first.pieces s ++ others.flatMap fun tone =>
      (spacePiece, s) :: tone.pieces s) ++ closing :: us))
    (closes : Closes closing) (leaves : closing.depth < d) :
    ∃ ids r', Reading.Gathers (read (n + 1)) r ids r' ∧ r.Grown r' ids ∧ r'.At closing us ∧
      r'.duration = r.duration ∧ List.Forall₂
        (fun id tone => tone.MirroredBy r'.tree names id ∧ r'.tree.children id = []) ids
        (first :: others) := by
  have inside : Within (some d) s.depth := by simpa [Within] using deep
  induction others generalizing first r offset us₀ with
  | nil =>
    rw [List.flatMap_nil, List.append_nil] at spaced
    obtain ⟨id, r1, gathers, again, grown, kept, mirrored, empty⟩ :=
      tone_read first known chord plain inside ready spaced (.inl rfl) closes.starts
    obtain ⟨r2, ended, same, there⟩ :=
      gathers_over again (.inl rfl) closes.starts.solid leaves (closes.no_item (n + 1))
    refine ⟨[id], r2, gathers [] r2 ended, grown.same same, there, same.duration.trans kept, ?_⟩
    rw [same.tree]
    exact .cons ⟨mirrored, empty⟩ .nil
  | cons tone others ih =>
    rw [List.flatMap_cons, List.cons_append, scanned_append, scanned_cons, List.append_assoc] at spaced
    generalize offset + byteSize (textOf (first.pieces s)) + byteSize spacePiece.text = behind at spaced
    have starts : ∃ u ts, scanned behind (tone.pieces s ++ others.flatMap fun tone =>
        (spacePiece, s) :: tone.pieces s) ++ closing :: us = u :: ts ∧ Starts u := by
      rw [Tone.pieces, List.cons_append, scanned_cons]
      exact ⟨_, _, rfl, .note, by decide, rfl⟩
    obtain ⟨u, ts, shape, starts⟩ := starts
    rw [List.cons_append, shape] at spaced
    obtain ⟨id, r1, gathers, again, grown, kept, mirrored, empty⟩ :=
      tone_read first known chord plain inside ready spaced
        (.inr ⟨_, rfl, rfl, inside⟩) starts
    rw [← shape] at again
    obtain ⟨ids, r2, rest, more, there, lasts, all⟩ := ih tone (grown.language ▸ known)
      (grown.inChord.trans chord) again (.inl rfl)
    have same := grown.gains.alikeFrom more.gains
    have from_id : From r.tree.size r1.tree id := grown.gains.from List.mem_cons_self
    refine ⟨id :: ids, r2, gathers ids r2 rest, grown.trans more, there, lasts.trans kept, .cons ?_ all⟩
    exact ⟨mirrored.kept same from_id, (same.children from_id).trans empty⟩

theorem readChord_run {deeper : Deeper} {r' r'' : Reader} (apart : r.inChord = false)
    (region : (readRegionInto deeper r.tree.size).run
      { r with
        inChord := true
        tree := r.tree.push (.single .chord t.token.start (some t.token)) } = ((), r'))
    (duration : (readDuration r.tree.size none).run { r' with inChord := false } = ((), r'')) :
    (readChord deeper t.token).run r = (some r.tree.size, r'') := by
  have free : ((get : Reading Reader).run r).1.inChord = false := apart
  rw [readChord, run_bind, free, if_neg Bool.false_ne_true, run_bind]
  apply run_then (addFor_run ..)
  apply run_then region
  exact run_then rfl (run_then duration rfl)

theorem scanned_chord (s : State) (offset : Nat) (first : Tone) (others : List Tone) :
    ∃ opening closing behind,
      scanned offset ((Leaf.chord first others).pieces s) =
        opening :: (scanned behind (first.pieces (s.enter (.lily .chord)) ++ others.flatMap fun tone =>
          (spacePiece, s.enter (.lily .chord)) :: tone.pieces (s.enter (.lily .chord))) ++ [closing]) ∧
      opening.token.kind = .lily .chordStart ∧ opening.depth = s.depth + 1 ∧
      closing.token.kind = .lily .chordEnd ∧ closing.depth = s.depth := by
  rw [Leaf.pieces, scanned_cons, scanned_append]
  exact ⟨_, _, _, rfl, rfl, rfl, rfl, rfl⟩

theorem Music.ReadBy.chord (first : Tone) (others : List Tone) (written : Option Length) :
    (Music.leaf (.chord first others) written).ReadBy names (n + 2) := by
  intro r limit s offset last t u tail us ts knows _ inside shape took spaced starts
  obtain ⟨opening, closing, behind, pieces, kind, deep, closing_kind, leaves⟩ :=
    scanned_chord s offset first others
  rw [Music.pieces, scanned_append, pieces, List.cons_append, List.cons.injEq] at shape
  obtain ⟨rfl, rfl⟩ := shape
  have plain : (s.enter (.lily .chord)).top.region ≠ .lily .pitchCommand := by
    simp [State.enter, State.enterAwaiting, State.top]
  have closes : Closes closing := ⟨_, by decide, closing_kind⟩
  let r1 : Reader :=
    { r with
      inChord := true
      tree := r.tree.push (.single .chord opening.token.start (some opening.token)) }
  have took₁ := took.score r1.tree true r.duration
  simp only [List.append_assoc, List.singleton_append] at took₁
  obtain ⟨ids, r2, gathers, grown, there, kept, tones⟩ :=
    tones_read (n := n) first others (r := r1.entering) knows.names rfl plain (Nat.le_of_eq deep)
      took₁.entering (.inl rfl) closes (by omega)
  have made : r1.tree.item r.tree.size = .single .chord opening.token.start (some opening.token) := by
    rw [item_push, if_pos rfl]
  have holder : Grown { r with inChord := true } r1 [r.tree.size] := ⟨push_gains .., rfl, rfl⟩
  have grown : r1.Grown r2 ids := ⟨grown.gains, grown.language, grown.inChord⟩
  obtain ⟨v, run, gains, size, alike, stays⟩ := readRegionInto_gives holder gathers grown
  let r3 : Reader := { r2 with source := r.source, tree := v, inChord := false }
  have held : r.Grown r3 [r.tree.size] := ⟨gains, grown.language, knows.apart.symm⟩
  have took₃ : r3.Took limit closing _ := took.back there v false
  obtain ⟨more, r4, later, again, grown₄, lasts, known, alike₄, others₄⟩ :=
    readDuration_written written last held (kept.trans knows.duration)
      (took₃.ready (leaves ▸ inside)) inside spaced starts
  refine ⟨r.tree.size, r4, u :: ts, ?_, again, .inr rfl, grown₄, lasts, ⟨?_, ids, more, ?_, ?_, known⟩,
    alike₄.duration⟩
  · rw [read_item kind]
    exact readChord_run knows.apart run later
  · rw [Tree.kind, alike₄.kind, alike.kind, made]
    rfl
  · rw [children, alike₄.children, children, alike.children, children, made]
    rfl
  · have stays₄ : AlikeFrom (r.tree.size + 1) r2.tree r4.tree := by
      refine ⟨stays.below, fun i later there => (stays.alike i later there).trans ?_⟩
      exact others₄ i (Nat.lt_of_lt_of_eq there size.symm) (Nat.ne_of_gt later)
    exact notes_kept stays₄ (fun c member => size_push r.tree _ ▸ grown.gains.from member) tones

end Chords

section Leaves

theorem Music.ReadBy.note (tone : Tone) (written : Option Length) :
    (Music.leaf (.note tone) written).ReadBy names (n + 1) := by
  intro r limit s offset last t u tail us ts knows plain inside shape took spaced starts
  rw [Music.pieces, Leaf.pieces, Tone.pieces, List.cons_append, scanned_cons, List.cons.injEq] at shape
  obtain ⟨rfl, rfl⟩ := shape
  obtain ⟨r', run, again, gave⟩ := readNote tone knows rfl plain took inside inside spaced starts
  refine ⟨_, r', u :: ts, ?_, again, .inr rfl, gave⟩
  rw [read_item rfl]
  exact run

theorem Music.ReadBy.rest (written : Option Length) :
    (Music.leaf .rest written).ReadBy names (n + 1) := by
  intro r limit s offset last t u tail us ts knows plain inside shape took spaced starts
  rw [Music.pieces, Leaf.pieces, List.singleton_append, scanned_cons, List.cons.injEq] at shape
  obtain ⟨rfl, rfl⟩ := shape
  obtain ⟨r', run, again, gave⟩ := readRest knows plain took inside inside spaced starts
  refine ⟨_, r', u :: ts, ?_, again, .inr rfl, gave⟩
  rw [read_item rfl]
  exact run

end Leaves

section Tuplets

variable {f space₁ space₂ : ScannedToken}

/-- The ratio of a tuplet stands between two spaces. -/
theorem readRatio_tuplet (p : Proportion) (id : ItemId)
    (ready : r.Ready limit (space₁ :: f :: space₂ :: u :: ts))
    (blank₁ : space₁.token.kind = .space) (blank₂ : space₂.token.kind = .space)
    (fraction : f.token.kind = .lily .fraction) (text : f.token.text = String.ofList p.chars)
    (inside₁ : Within limit space₁.depth) (inside : Within limit f.depth)
    (inside₂ : Within limit space₂.depth) (starts : Starts u) :
    ∃ r', (readRatio id true).run r = (⟨p.played, p.counted, p.scaling⟩, r') ∧ r'.Ready limit (u :: ts) ∧
      SameScore
        { r with
          tree := (r.tree.push (.single .number f.token.start (some f.token))).append id r.tree.size }
        r' := by
  obtain ⟨r1, run₁, took₁, same₁⟩ := next_ready ready
  obtain ⟨r2, run₂, took₂, same₂⟩ := next_ready (took₁.ready inside₁)
  let r3 : Reader :=
    { r2 with
      tree := (r2.tree.push (.single .number f.token.start (some f.token))).append id r2.tree.size }
  have took₃ : r3.Took limit f _ := took₂.score ..
  obtain ⟨r4, run₄, took₄, same₄⟩ := next_ready (took₃.ready inside)
  obtain ⟨r5, run₅, took₅, same₅⟩ := next_ready (took₄.ready inside₂)
  obtain ⟨r6, run₆, ready₆, same₆⟩ := pushBack_took took₅
  have fewer₂ : r3.left < r1.left := took₃.fewer (took₁.ready inside₁)
  refine ⟨r6, ?_, ready₆, ?_⟩
  · -- four turns: a space, the ratio, a space, and the token behind it that is given back
    rw [readRatio, loop_more (b := ⟨0, 0, 1⟩) ?_ (took₁.fewer ready),
      loop_more (b := ⟨p.played, p.counted, p.scaling⟩) ?_ fewer₂,
      loop_more (b := ⟨p.played, p.counted, p.scaling⟩) ?_ (took₄.fewer (took₃.ready inside)), loop_done]
    · obtain ⟨k, member, kind⟩ := starts
      simp only [startKinds, List.mem_cons, List.not_mem_nil, or_false] at member
      rw [run_bind, run₅]
      simp only [kind]
      rcases member with rfl | rfl | rfl | rfl | rfl | rfl | rfl | rfl | rfl <;> exact back_done run₆
    · rw [run_bind, run₄]
      simp only [blank₂]
      rfl
    · rw [run_bind, run₂]
      have numbers := p.readInts
      rw [← text] at numbers
      have nonzero : (decide ((p.played : Int) = 0) || decide ((p.counted : Int) = 0)) = false := by
        have played := p.played_pos
        have counted := p.counted_pos
        simp only [Bool.or_eq_false_iff, decide_eq_false_iff_not]
        omega
      simp only [fraction, numbers, nonzero, beq_self_eq_true, if_true, Bool.false_eq_true, if_false]
      rfl
    · rw [run_bind, run₁]
      simp only [blank₁]
      rfl
  · have same : SameScore r r2 := same₁.trans same₂
    have later : SameScore r3 r6 := same₄.trans (same₅.trans same₆)
    have put : SameScore
        { r with
          tree := (r.tree.push (.single .number f.token.start (some f.token))).append id r.tree.size }
        r3 := by
      refine ⟨?_, same.language, same.inChord, same.duration⟩
      show Tree.append _ _ _ = _
      rw [same.tree]
    exact put.trans later

theorem readScaler_run {deeper : Deeper} {r₁ r₂ r₃ : Reader} {ratio : Ratio} {list : ItemId}
    (text : t.token.text = "\\tuplet")
    (read_ratio : (readRatio r.tree.size true).run
      { r with tree := r.tree.push (.single .scaler t.token.start (some t.token)) } = (ratio, r₁))
    (taken : nextItem.run
      { r₁ with
        tree := r₁.tree.update r.tree.size fun i =>
          { i with details := .scaler ratio.numerator ratio.denominator ratio.scaling } } =
        (some u.token, r₂))
    (found : (deeper .item u.token).run r₂ = (some list, r₃)) :
    (readScaler deeper t.token).run r =
      (r.tree.size, { r₃ with tree := r₃.tree.append r.tree.size list }) := by
  have music := readOne_run taken found
  have scaled : (t.token.text == "\\scaleDurations") = false := by rw [text]; decide
  have tuplet : (t.token.text == "\\tuplet") = true := by rw [text]; decide
  rw [readScaler]
  apply run_then (addFor_run ..)
  rw [scaled, tuplet, if_neg Bool.false_ne_true]
  apply run_then read_ratio
  rw [run_bind]
  exact run_then music rfl

theorem tuplet_gains {t₀ t₁ t₂ t₃ t₄ : Tree} {id number list : ItemId} {start : Token} {ratio : Token}
    {details : Details} (made : t₁ = t₀.push (.single .scaler start.start (some start)))
    (here : id = t₀.size) (there : number = t₁.size)
    (counted : t₂ = (t₁.push (.single .number ratio.start (some ratio))).append id number)
    (told : t₃ = t₂.update id fun i => { i with details }) (read : Gains t₃ t₄ [list]) :
    Gains t₀ (t₄.append id list) [id] ∧ (t₄.append id list).kind id = .scaler ∧
      ((t₄.append id list).item id).details = details ∧
      (t₄.append id list).children id = [number, list] ∧ (t₄.append id list).kind number = .number ∧
      AlikeFrom (id + 1) t₄ (t₄.append id list) ∧ From (id + 1) t₄ list := by
  subst made here there told
  have own : Gains t₀ (t₀.push (.single .scaler start.start (some start))) [t₀.size] := push_gains ..
  obtain ⟨gains₂, size₂, alike₂, others₂⟩ := own.put (push_gains _ .number ratio.start (some ratio))
  rw [← counted] at gains₂ size₂ alike₂ others₂
  have gains₃ : Gains t₀ (t₂.update t₀.size fun i => { i with details }) [t₀.size] :=
    gains₂.update (Nat.le_refl _) fun i => ⟨rfl, rfl⟩
  have inside : t₀.size < t₂.size := (gains₂.loose _ List.mem_cons_self).2.1
  obtain ⟨gains₅, _, alike₅, _⟩ := gains₃.put read
  have stays : AlikeFrom (t₀.size + 1) t₄ (t₄.append t₀.size list) := gains₃.putFrom read
  rw [children, item_update_self inside] at alike₅
  have below := read.from List.mem_cons_self
  have list_there : From (t₀.size + 1) t₄ list :=
    ⟨Nat.le_trans (Nat.le_trans inside (Nat.le_of_eq (size_update ..).symm)) below.1, below.2⟩
  refine ⟨gains₅, ?_, alike₅.details, ?_, ?_, stays, list_there⟩
  · rw [kind, alike₅.kind]
    simp [alike₂.kind, item_push, Item.single]
  · rw [children, alike₅.children]
    simp [alike₂.children, children, item_push, Item.single]
  · have apart : (t₀.push (.single .scaler start.start (some start))).size ≠ t₀.size := by
      simp [size_push]
    have known : (t₀.push (.single .scaler start.start (some start))).size < t₂.size := by
      simp [size₂, size_push]
    have old := read.kept _ (size_update t₂ _ _ ▸ known)
    have inside : From (t₀.size + 1) t₄ (t₀.push (.single .scaler start.start (some start))).size :=
      ⟨by simp [size_push], Nat.lt_of_lt_of_le (size_update t₂ _ _ ▸ known) read.larger⟩
    rw [stays.kind inside, kind, old, item_update_other apart, (others₂ _ apart).kind, item_push, if_pos rfl]
    rfl

theorem scanned_tuplet (s : State) (offset : Nat) (p : Proportion) (b : Bool) (items : List Music) :
    ∃ command space₁ f space₂ behind,
      scanned offset ((Music.tuplet p b items).pieces s) = command :: space₁ :: f :: space₂ ::
        scanned behind (Music.listPieces s b (Music.piecesOfAll (s.enter (.lily .music)) items)) ∧
      command.token.kind = .lily .command ∧ command.token.text = "\\tuplet" ∧ command.depth = s.depth ∧
      space₁.token.kind = .space ∧ space₁.depth = s.depth ∧
      f.token.kind = .lily .fraction ∧ f.token.text = String.ofList p.chars ∧ f.depth = s.depth ∧
      space₂.token.kind = .space ∧ space₂.depth = s.depth := by
  rw [Music.pieces, scanned_cons, scanned_cons, scanned_cons, scanned_cons]
  exact ⟨_, _, _, _, _, rfl, rfl, rfl, rfl, rfl, rfl, rfl, rfl, rfl, rfl, rfl⟩

theorem Music.ReadBy.tuplet {p : Proportion} {b : Bool} {items : List Music}
    (all : AllReadBy names n items) : (Music.tuplet p b items).ReadBy names (n + 2) := by
  intro r limit s offset last t u tail us ts knows _ inside shape took _ _
  obtain ⟨command, space₁, f, space₂, behind, pieces, kind, text, deep, blank₁, deep₁, fraction,
    ratio, deep_f, blank₂, deep₂⟩ := scanned_tuplet s offset p b items
  obtain ⟨opening, rest, list_shape, starts⟩ := (Music.list b items).front s behind
  rw [Music.pieces] at list_shape
  rw [pieces, List.cons.injEq, list_shape] at shape
  obtain ⟨rfl, rfl⟩ := shape
  let r1 : Reader :=
    { r with tree := r.tree.push (.single .scaler command.token.start (some command.token)) }
  have ready₁ := (took.ready (deep ▸ inside)).score r1.tree r.inChord r.duration
  obtain ⟨r2, read_ratio, ready₂, same₂⟩ := readRatio_tuplet p r.tree.size (r := r1) ready₁ blank₁ blank₂
    fraction ratio (deep₁ ▸ inside) (deep_f ▸ inside) (deep₂ ▸ inside) starts
  let r3 : Reader :=
    { r2 with
      tree := r2.tree.update r.tree.size fun i =>
        { i with details := .scaler p.played p.counted p.scaling } }
  have ready₃ := ready₂.score r3.tree r2.inChord r2.duration
  obtain ⟨r4, taken, took₄, same₄⟩ := nextItem_ready ready₃ (.inl rfl) starts.solid
  have knows₃ : r3.Knows names last :=
    ⟨same₂.language ▸ knows.names, same₂.inChord.trans knows.apart, same₂.duration.trans knows.duration⟩
  obtain ⟨closing, r5, found, took₅, leaves, gave⟩ :=
    all.front (knows₃.same same₄) list_shape took₄
  have ready₅ := (took₅.ready (leaves ▸ inside)).score (r5.tree.append r.tree.size r4.tree.size)
    r5.inChord r5.duration
  have more : Gains r3.tree r5.tree [r4.tree.size] := by
    have grown := gave.grown.gains
    rwa [same₄.tree] at grown ⊢
  obtain ⟨gains, scaler, details, children, number, stays, list_there⟩ :=
    tuplet_gains rfl rfl rfl same₂.tree rfl more
  refine ⟨r.tree.size, _, us, ?_, ready₅, .inl rfl, ⟨gains, ?_, ?_⟩, gave.duration, ?_⟩
  · have scaler : readCommand (read (n + 1)) .command command.token =
        readScaler (read (n + 1)) command.token := by
      rw [readCommand, text]
      rfl
    rw [read_item kind]
    exact run_then (scaler ▸ readScaler_run text read_ratio taken found) rfl
  · exact gave.grown.language.trans (same₄.language.trans same₂.language)
  · exact gave.grown.inChord.trans (same₄.inChord.trans same₂.inChord)
  · have list := gave.mirrored.kept stays list_there
    simp only [Music.MirroredBy] at list ⊢
    exact ⟨scaler, details, _, _, children, number, list⟩

end Tuplets

namespace Music

mutual

/-- Every expression is read as an item that mirrors it, as long as enough levels are left. -/
theorem readBy (m : Music) (n : Nat) (deep : m.depth ≤ n) : m.ReadBy names n := by
  cases m with
  | leaf l written =>
    cases l with
    | note tone =>
      obtain ⟨k, rfl⟩ : ∃ k, n = k + 1 := Nat.exists_eq_add_of_le' deep
      exact .note tone written
    | rest =>
      obtain ⟨k, rfl⟩ : ∃ k, n = k + 1 := Nat.exists_eq_add_of_le' deep
      exact .rest written
    | chord first others =>
      obtain ⟨k, rfl⟩ : ∃ k, n = k + 2 := Nat.exists_eq_add_of_le' deep
      exact .chord first others written
  | list b items =>
    obtain ⟨k, rfl, inner⟩ := levels_list deep
    exact .list (allReadBy items k inner)
  | tuplet p b items =>
    obtain ⟨k, rfl, inner⟩ := levels_tuplet deep
    exact .tuplet (allReadBy items k inner)

theorem allReadBy (ms : List Music) (n : Nat) (deep : depthOfAll ms ≤ n) : AllReadBy names n ms := by
  cases ms with
  | nil => exact .nil names n
  | cons m ms =>
    obtain ⟨first, rest⟩ := levels_cons deep
    exact .cons (readBy m n first) (allReadBy ms n rest)

end

end Music

end ScoreText
