import ScoreText.Music.Reading.Note
import ScoreText.Proofs.Grading

/-! Grades of values and of notes. What a function reads itself is one level above what it lets others read.
-/
namespace ScoreText

open Builds

/-- What a reader of nested items gives is of a level or below it. -/
def Deepens (n : Nat) (deeper : Deeper) : Prop :=
  ∀ form t g, Builds g (deeper form t) fun found h => ∀ c ∈ found, h.Low n c

theorem Builds.wrapped {act : Reading ItemId} {g : Graded} {n : Nat}
    (builds : Builds g act fun id h => h.Low n id) :
    Builds g (act >>= fun id => Pure.pure (some id)) fun found h => ∀ c ∈ found, h.Low n c :=
  bind builds fun id h _ low => pure fun c member => by
    cases member
    exact low

theorem Builds.addFor {g : Graded} {n : Nat} {kind : ItemKind} {t : Token} {k : ItemId → Reading ItemId}
    (fill : ∀ id h, h.Is kind ⟨n + 1, .plain⟩ id → Builds h (k id) fun a _ => a = id) :
    Builds g (Reading.addFor kind t >>= k) fun id h => h.Is kind ⟨n + 1, .plain⟩ id := by
  refine bind (Reading.addFor_builds g kind t ⟨n + 1, .plain⟩ fun _ => Nat.succ_pos n) fun id h _ is => ?_
  refine (fill id h is).mono fun a k later same => ?_
  subst same
  exact is.later later

namespace Graded

theorem lows_later {g h : Graded} {n : Nat} {ids : List ItemId} (low : ∀ c ∈ ids, g.Low n c)
    (later : g.Later h) : ∀ c ∈ ids, h.Low n c :=
  fun c member => (low c member).later later

theorem none_low {h : Graded} {n : Nat} : ∀ c ∈ (none : Option ItemId), h.Low n c := by
  simp

end Graded

namespace Reading

open ScoreText.Graded

variable {deeper : Deeper} {n : Nat} {g : Graded} {id : ItemId} {t : Token} {kind : ItemKind}

section Items

variable (deep : Deepens n deeper)
include deep

theorem readAll_builds : Builds g (readAll deeper) fun ids h => ∀ c ∈ ids, h.Low n c := by
  refine .bind (.loop (I := fun ids h => ∀ c ∈ ids, h.Low n c) (by simp) fun ids h _ low => ?_)
    fun ids h _ low => .pure (by simpa using low)
  refine .bind nextItem_builds fun found k later _ => ?_
  cases found with
  | none => exact .pure (lows_later low later)
  | some t =>
    refine .bind (deep .item t k) fun child l further new => .pure fun c member => ?_
    rcases List.mem_append.mp member with member | member
    · exact new c (Option.mem_toList.mp member)
    · exact (low c member).later (later.trans further)

theorem readOne_builds : Builds g (readOne deeper) fun found h => ∀ c ∈ found, h.Low n c := by
  refine .loop none_low fun _ h _ _ => .bind nextItem_builds fun found k _ _ => ?_
  cases found with
  | none => exact .pure none_low
  | some t =>
    refine .bind (deep .item t k) fun child l _ low => ?_
    cases child with
    | none => exact .pure none_low
    | some c => exact .pure low

theorem readRegionInto_builds (above : g.Above n id) : Builds g (readRegionInto deeper id) Any := by
  refine .bind (.bounded (readAll_builds deep)) fun out h later low => ?_
  exact .bind (appendAll_low (above.later later) low) fun _ _ _ _ => addToken_builds

theorem readArgumentsInto_builds (count : Nat) (above : g.Above n id) :
    Builds g (readArgumentsInto deeper id count) Any := by
  induction count generalizing g with
  | zero => exact .pure trivial
  | succ count ih =>
    refine .bind (readOne_builds deep) fun child h later low => ?_
    cases child with
    | none => exact .pure trivial
    | some c =>
      refine .bind (append_low (above.later later) (low c rfl)) fun _ k further _ => ?_
      exact ih (above.later (later.trans further))

end Items

section Values

theorem readString_builds (t : Token) : Builds g (readString t) fun id h => h.Low n id := by
  refine .bind (addFor_builds g .string t ⟨0, .plain⟩ nofun) fun id h _ is => ?_
  refine .bind (.bounded (.loop_any fun ts h _ => .bind next_builds fun found k _ _ => ?_)) fun out k later _ => ?_
  · cases found <;> exact .pure trivial
  · refine .bind setTokens_builds fun _ l further _ => .pure ?_
    exact (is.later (later.trans further)).low (Nat.zero_le n)

variable (deep : Deepens n deeper)
include deep

theorem readPart_builds : Builds g (readPart deeper) fun found h => ∀ c ∈ found, h.Low n c := by
  refine .loop none_low fun _ h _ _ => .bind next_builds fun found k _ _ => ?_
  cases found with
  | none => exact .pure none_low
  | some t =>
    refine .bind (deep .scheme t k) fun child l _ low => ?_
    cases child with
    | none => exact .pure none_low
    | some c => exact .pure low

theorem readPartsInto_builds (above : g.Above n id) : Builds g (readPartsInto deeper id) Any := by
  refine .loop_any fun _ h later => .bind next_builds fun found k further _ => ?_
  cases found with
  | none => exact .pure trivial
  | some t =>
    exact readInto_low (above.later (later.trans further)) (deep .scheme t k) fun _ _ => .pure trivial

theorem readQuoting_builds (kind : ItemKind) (t : Token) :
    Builds g (readQuoting deeper kind t) fun id h => h.Is kind ⟨n + 1, .plain⟩ id :=
  .addFor fun _ _ is => .bind (.bounded (readPart_builds deep)) fun _ _ later low =>
    .bind (appendIf_low (is.above.later later) low) fun _ _ _ _ => .pure rfl

theorem readScheme_builds (t : Token) :
    Builds g (readScheme deeper t) fun id h => h.Is .scheme ⟨n + 1, .plain⟩ id :=
  readQuoting_builds deep .scheme t

theorem readScheme_low (t : Token) : Builds g (readScheme deeper t) fun id h => h.Low (n + 1) id :=
  (readScheme_builds deep t).mono fun _ _ _ is => is.low (Nat.le_refl _)

end Values

section Markup

theorem filled_low {kind : ItemKind} {k : ItemId → Reading ItemId}
    (fill : ∀ id h, Graded.Above h n id → Builds h (k id) fun a _ => a = id) :
    Builds g (addFor kind t >>= k) fun id h => h.Low (n + 1) id :=
  (Builds.addFor fun id h is => fill id h is.above).mono fun _ _ _ is => is.low (Nat.le_refl _)

theorem filled_some {kind : ItemKind} {k : ItemId → Reading (Option ItemId)}
    (fill : ∀ id h, Graded.Above h n id → Builds h (k id) fun a _ => a = some id) :
    Builds g (addFor kind t >>= k) fun found h => ∀ c ∈ found, h.Low (n + 1) c := by
  refine .bind (addFor_builds g kind t ⟨n + 1, .plain⟩ fun _ => Nat.succ_pos n) fun id h _ is => ?_
  refine (fill id h is.above).mono fun a k later same c member => ?_
  subst same
  cases member
  exact (is.later later).low (Nat.le_refl _)

theorem leaf_low (n : Nat) (kind : ItemKind) (t : Token) (plain : kind ≠ .scheme) :
    Builds g (addFor kind t) fun id h => h.Low n id :=
  (addFor_builds g kind t ⟨0, .plain⟩ fun is => absurd is plain).mono fun _ _ _ is => is.low (Nat.zero_le n)

theorem appendLeaf_builds (kind : ItemKind) (t : Token) (plain : kind ≠ .scheme) (above : g.Above n id) :
    Builds g (addFor kind t >>= append id) Any :=
  .bind (leaf_low n kind t plain) fun _ _ later low => append_low (above.later later) low

variable (deep : Deepens n deeper)
include deep

theorem readSchemePart_builds (t : Token) :
    Builds g (readSchemePart deeper t) fun found h => ∀ c ∈ found, h.Low (n + 1) c := by
  have quoting : Builds g (readQuoting deeper .schemeQuote t) fun id h => h.Low (n + 1) id :=
    (readQuoting_builds deep .schemeQuote t).mono fun _ _ _ is => is.low (Nat.le_refl _)
  unfold readSchemePart
  split
  · exact quoting.wrapped
  iterate 2
    · refine filled_some fun id h above => ?_
      refine .bind (.bounded (readPartsInto_builds deep above)) fun _ _ _ _ => ?_
      exact .bind addToken_builds fun _ _ _ _ => .pure rfl
  · exact (readString_builds t).wrapped
  · exact filled_some fun id h above => .bind (readRegionInto_builds deep above) fun _ _ _ _ => .pure rfl
  · split
    · exact (leaf_low _ .schemeItem t nofun).wrapped
    · exact .pure none_low
  · exact .pure none_low

theorem readMarkupsInto_builds (above : g.Above n id) (list : Bool) :
    Builds g (readMarkupsInto deeper id list) Any := by
  refine .bind (.bounded (.loop_any fun _ h later => .bind next_builds fun found k further _ => ?_))
    fun _ _ _ _ => .pure trivial
  cases found with
  | none => exact .pure trivial
  | some t =>
    refine .bind (deep .markup t k) fun child l behind low => ?_
    have above := above.later (later.trans (further.trans behind))
    cases child with
    | some c => exact .bind (append_low above (low c rfl)) fun _ _ _ _ => .pure trivial
    | none =>
      dsimp only
      split
      · exact .bind setTokens_builds fun _ _ _ _ => .pure trivial
      · exact .bind (.pure trivial (P := Any)) fun _ _ _ _ => .pure trivial

theorem readMarkupScore_builds (t : Token) :
    Builds g (readMarkupScore deeper t) fun id h => h.Low (n + 1) id := by
  refine filled_low fun id h above => .bind (.bounded (.loop_any fun _ k later => ?_)) fun _ _ _ _ => .pure rfl
  refine .bind next_builds fun found l further _ => ?_
  cases found with
  | none => exact .pure trivial
  | some t =>
    have above := above.later (later.trans further)
    dsimp only
    split
    · refine .bind setTokens_builds fun _ m behind _ => ?_
      exact .bind (readRegionInto_builds deep (above.later behind)) fun _ _ _ _ => .pure trivial
    · exact .pure trivial

theorem readMarkup_builds (t : Token) :
    Builds g (readMarkup deeper t) fun found h => ∀ c ∈ found, h.Low (n + 1) c := by
  unfold readMarkup
  split
  · exact (readScheme_low deep t).wrapped
  · exact (readString_builds t).wrapped
  · exact (readMarkupScore_builds deep t).wrapped
  · refine filled_some fun id h above => ?_
    dsimp only
    split
    · exact .bind (readMarkupsInto_builds deep above false) fun _ _ _ _ => .pure rfl
    · exact .pure rfl
  · exact (leaf_low _ .markupUserCommand t nofun).wrapped
  · exact filled_some fun id h above => .bind (readMarkupsInto_builds deep above true) fun _ _ _ _ => .pure rfl
  · exact (leaf_low _ .markupWord t nofun).wrapped
  · exact .pure none_low

end Markup

section Durations

variable {length : Option Token}

theorem readDurationTokens_builds (taken : List Token) : Builds g (readDurationTokens taken) Any := by
  refine .loop_any fun ts h _ => .bind next_builds fun found k _ _ => ?_
  cases found with
  | none => exact .pure trivial
  | some t =>
    dsimp only
    split
    · split
      · exact .bind pushBack_builds fun _ _ _ _ => .pure trivial
      · exact .pure trivial
    · split
      · exact .pure trivial
      · exact .bind pushBack_builds fun _ _ _ _ => .pure trivial

theorem modify_builds {f : Reader → Reader} (same : ∀ r, (f r).tree = r.tree) :
    Builds g (modify f : Reading Unit) Any :=
  .still same

theorem readDuration_builds (above : g.Above n id) (length : Option Token) :
    Builds g (readDuration id length) Any := by
  have last : ∀ (h : Graded) (d : Duration),
      Builds h (update id fun i => { i with duration := some d }) Any :=
    fun h d => update_builds fun _ => ⟨rfl, rfl, rfl, rfl, rfl⟩
  refine .bind (readDurationTokens_builds length.toList) fun ts h later _ => ?_
  cases ts with
  | nil => exact .get fun _ => last h _
  | cons first rest =>
    refine .bind (leaf_low n .writtenDuration first nofun) fun written k further low => ?_
    refine .bind setTokens_builds fun _ l behind _ => ?_
    refine .bind (append_low (above.later (later.trans (further.trans behind))) (low.later behind))
      fun _ m _ _ => ?_
    dsimp only
    split
    · exact .bind (modify_builds fun _ => rfl) fun _ o _ _ => .get fun _ => last o _
    · exact .get fun _ => last m _

end Durations

section Notes

theorem readNoteParts_builds (p : NoteParts) : Builds g (readNoteParts p) Any := by
  refine .loop_any fun p h _ => .bind next_builds fun found k _ _ => ?_
  cases found with
  | none => exact .pure trivial
  | some t =>
    dsimp only
    split
    · exact .pure trivial
    · exact .pure trivial
    · exact .pure trivial
    · exact .pure trivial
    · split
      · exact .pure trivial
      · exact .bind pushBack_builds fun _ _ _ _ => .pure trivial

theorem addNote_builds (t : Token) (grade : Grade) :
    Builds g (addNote t) fun found h => ∀ note ∈ found, h.Is .note grade note.1 := by
  refine .get fun r => ?_
  split
  · exact .pure (by simp)
  · refine .bind (addFor_builds g .note t grade nofun) fun id h _ is => .pure fun note member => ?_
    cases member
    exact is

theorem readOwnDuration_builds (is : g.Is kind ⟨n + 1, .plain⟩ id) (inPitchCommand : Bool) :
    Builds g (readOwnDuration inPitchCommand id) fun found h => ∀ c ∈ found, h.Low (n + 1) c := by
  have given : ∀ h, g.Later h → ∀ c ∈ some id, h.Low (n + 1) c := by
    intro h later c member
    cases member
    exact (is.later later).low (Nat.le_refl _)
  refine .get fun r => ?_
  dsimp only
  split
  · exact .bind (readDuration_builds is.above none) fun _ h later _ => .pure (given h later)
  · exact .pure (given g (.refl g))

theorem readMusicItem_builds (k : Lily.Kind) (t : Token) :
    Builds g (readMusicItem k t) fun found h => ∀ c ∈ found, h.Low (n + 1) c := by
  have leaf : ∀ (kind : ItemKind) (b : Bool), Builds g (addFor kind t >>= readOwnDuration b)
      fun found h => ∀ c ∈ found, h.Low (n + 1) c :=
    fun kind b => .bind (addFor_builds g kind t ⟨n + 1, .plain⟩ fun _ => Nat.succ_pos n) fun id h _ is =>
      readOwnDuration_builds is b
  refine .get fun r => ?_
  dsimp only
  split
  · refine .bind (addNote_builds t ⟨n + 1, .plain⟩) fun found h _ is => ?_
    cases found with
    | none => exact .pure none_low
    | some note =>
      refine .bind (readNoteParts_builds _) fun p k later _ => .bind setDetails_builds fun _ l further _ => ?_
      exact readOwnDuration_builds ((is note rfl).later (later.trans further)) _
  · exact leaf .rest _
  · exact leaf .q _
  · exact leaf .skip _

theorem readUnpitched_builds (t : Token) : Builds g (readUnpitched t) fun id h => h.Low (n + 1) id := by
  refine .bind (add_builds g .unpitched t.start none ⟨n + 1, .plain⟩ nofun) fun id h _ is => ?_
  refine .bind (readDuration_builds is.1.above (some t)) fun _ k later _ => ?_
  exact .pure ((is.1.later later).low (Nat.le_refl _))

theorem addList_builds (t : Token) (simultaneous : Bool) (bracket : Option Token) (grade : Grade) :
    Builds g (addList t simultaneous bracket) fun id h => h.Is .musicList grade id := by
  refine .bind (addFor_builds g .musicList t grade nofun) fun id h _ is => .bind setDetails_builds fun _ k later _ => ?_
  exact .bind addToken_builds fun _ l further _ => .pure (is.later (later.trans further))

/-- A list is started with any grade. What is none is a keyword. -/
theorem startList_builds (t : Token) (grade : Grade) :
    Builds g (startList t) fun found h => ∀ started ∈ found,
      if started.2 then h.Is .musicList grade started.1 else h.Is .keyword ⟨0, .plain⟩ started.1 := by
  unfold startList
  split
  · refine .bind (addList_builds t _ none grade) fun id h _ is => .pure fun started member => ?_
    cases member
    exact is
  · split
    · refine .bind (.free nextItem_builds) fun found h _ _ => ?_
      cases found with
      | none => exact .pure (by simp)
      | some bracket =>
        dsimp only
        split
        · refine .bind (addList_builds t _ (some bracket) grade) fun id k _ is => .pure fun started member => ?_
          cases member
          exact is
        · refine .bind pushBack_builds fun _ k _ _ => ?_
          refine .bind (addFor_builds k .keyword t ⟨0, .plain⟩ nofun) fun id l _ is => .pure fun started member => ?_
          cases member
          exact is
    · exact .pure (by simp)

theorem readChordSpecifier_builds (t : Token) :
    Builds g (readChordSpecifier t) fun id h => h.Low (n + 1) id := by
  refine .bind (add_builds g .chordSpecifier t.start none ⟨n + 1, .plain⟩ nofun) fun id h _ is => ?_
  have is := is.1
  refine .bind (leaf_low n .chordItem t nofun) fun child k later low => ?_
  refine .bind (append_low (is.above.later later) low) fun _ l further _ => ?_
  have is := is.later (later.trans further)
  refine .bind (.bounded (.loop_any fun _ m behind => .bind next_builds fun found o past _ => ?_))
    fun _ m behind _ => .pure ((is.later behind).low (Nat.le_refl _))
  have above := is.above.later (behind.trans past)
  cases found with
  | none => exact .pure trivial
  | some s =>
    dsimp only
    split
    · refine .bind (leaf_low n .chordItem s nofun) fun _ _ next low => ?_
      exact .bind (append_low (above.later next) low) fun _ _ _ _ => .pure trivial
    · split
      · refine .bind (addNote_builds s ⟨0, .plain⟩) fun note p next plain => ?_
        cases note with
        | none => exact .pure trivial
        | some note =>
          refine .bind setDetails_builds fun _ q more _ => ?_
          have low := ((plain note rfl).later more).low (Nat.zero_le n)
          exact .bind (append_low (above.later (next.trans more)) low) fun _ _ _ _ => .pure trivial
      · exact .pure trivial

theorem readTremolo_builds (t : Token) : Builds g (readTremolo t) fun id h => h.Low (n + 1) id := by
  refine filled_low fun id h above => .bind (.free next_builds) fun found k later _ => ?_
  cases found with
  | none => exact .pure rfl
  | some s =>
    dsimp only
    split
    · refine .bind (leaf_low n .writtenDuration s nofun) fun child l further low => ?_
      refine .bind (append_low (above.later (later.trans further)) low) fun _ _ _ _ => ?_
      exact .bind (update_builds fun _ => ⟨rfl, rfl, rfl, rfl, rfl⟩) fun _ _ _ _ => .pure rfl
    · exact .bind pushBack_builds fun _ _ _ _ => .pure rfl

theorem addSpan_builds (kind : ItemKind) (t : Token) (starts : Bool) :
    Builds g (addSpan kind t starts) fun id h => h.Low (n + 1) id :=
  filled_low fun _ _ _ => .bind setDetails_builds fun _ _ _ _ => .pure rfl

variable (deep : Deepens n deeper)
include deep

theorem readChord_builds (t : Token) :
    Builds g (readChord deeper t) fun found h => ∀ c ∈ found, h.Low (n + 1) c := by
  refine .get fun r => ?_
  split
  · exact .pure none_low
  · refine .bind (modify_builds fun _ => rfl) fun _ h _ _ => filled_some fun id k above => ?_
    refine .bind (readRegionInto_builds deep above) fun _ l later _ => ?_
    refine .bind (modify_builds fun _ => rfl) fun _ m further _ => ?_
    exact .bind (readDuration_builds (above.later (later.trans further)) none) fun _ _ _ _ => .pure rfl

theorem readList_builds (t : Token) :
    Builds g (readList deeper t) fun found h => ∀ c ∈ found, h.Low (n + 1) c := by
  refine .bind (startList_builds t ⟨n + 1, .plain⟩) fun found h _ started => ?_
  cases found with
  | none => exact .pure none_low
  | some list =>
    obtain ⟨id, follows⟩ := list
    have is := started _ rfl
    cases follows with
    | false =>
      refine .pure fun c member => ?_
      cases member
      exact Is.low is (Nat.zero_le _)
    | true =>
      refine .bind (readRegionInto_builds deep (Is.above is)) fun _ k later _ => .pure fun c member => ?_
      cases member
      exact Is.low (Is.later is later) (Nat.le_refl _)

theorem readDirection_builds (t : Token) : Builds g (readDirection deeper t) fun id h => h.Low (n + 1) id := by
  refine filled_low fun id h above => .bind setDetails_builds fun _ k later _ => ?_
  refine .bind (.free nextItem_builds) fun found l further _ => ?_
  cases found with
  | none => exact .pure rfl
  | some s =>
    dsimp only
    split
    · exact readInto_low (above.later (later.trans further)) (.free (deep .item s l)) fun _ _ => .pure rfl
    · exact .bind pushBack_builds fun _ _ _ _ => .pure rfl

end Notes

end Reading
end ScoreText
