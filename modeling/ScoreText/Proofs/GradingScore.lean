import ScoreText.Music.Reading.Score
import ScoreText.Proofs.GradingCommands

/-! Grades of lyrics and of a whole score. Lists of lyrics are all of one level, however deep they are nested.
-/
namespace ScoreText

namespace Graded

variable {g h : Graded} {p c id : ItemId} {kind : ItemKind} {n : Nat}

/-- An item that may be put into what holds lyrics at a level. -/
structure Sung (g : Graded) (level : Nat) (id : ItemId) : Prop where
  inside : id < g.tree.size
  level : (g.grade id).level < level ∨ (g.grade id).level ≤ level ∧ (g.tree.kind id).isSung
  lyrics : (g.grade id).hold = .lyrics → g.tree.kind id = .musicList

/-- What holds lyrics at a level. -/
structure Hosts (g : Graded) (level : Nat) (id : ItemId) : Prop where
  inside : id < g.tree.size
  level : (g.grade id).level = level
  hosts : HostsLyrics g.tree g.grade id

theorem Hosts.later {level : Nat} (hosts : g.Hosts level id) (later : g.Later h) : h.Hosts level id := by
  have grade := later.grade id hosts.inside
  have kind : h.tree.kind id = g.tree.kind id := (later.start id hosts.inside).kind
  constructor
  · exact Nat.lt_of_lt_of_le hosts.inside later.larger
  · rw [grade, hosts.level]
  · simpa only [HostsLyrics, grade, kind] using hosts.hosts

theorem Hosts.above (hosts : g.Hosts (n + 1) id) : g.Above n id :=
  ⟨hosts.inside, by simp [hosts.level]⟩

theorem Hosts.fits {level : Nat} (hosts : g.Hosts level p) (sung : g.Sung level c) :
    Fits g.tree g.grade p c := by
  constructor
  · rw [hosts.level]
    exact sung.level.imp_right fun at_level => ⟨at_level.1, .inr ⟨hosts.hosts, at_level.2⟩⟩
  · exact fun lyrics => ⟨sung.lyrics lyrics, hosts.hosts⟩

theorem Low.sung (low : g.Low n id) : g.Sung (n + 1) id where
  inside := low.inside
  level := .inl (Nat.lt_succ_of_le low.level)
  lyrics list := absurd list low.plain

theorem Is.sung {grade : Grade} (is : g.Is kind grade id) (sung : kind.isSung)
    (lyrics : grade.hold = .lyrics → kind = .musicList) : g.Sung grade.level id := by
  constructor
  · exact is.inside
  · exact .inr ⟨by simp [is.grade], by simpa [is.kind] using sung⟩
  · simpa [is.grade, is.kind] using lyrics

theorem Is.hosts {grade : Grade} (is : g.Is kind grade id) (hosts : kind.isLyricMode ∨ grade.hold = .lyrics) :
    g.Hosts grade.level id := by
  constructor
  · exact is.inside
  · simp [is.grade]
  · simpa [HostsLyrics, is.kind, is.grade] using hosts

end Graded

namespace Reading

open ScoreText.Graded Builds

variable {deeper : Deeper} {n : Nat} {g : Graded} {id : ItemId}

section Lyrics

theorem append_sung {level : Nat} {c : ItemId} (hosts : g.Hosts level id) (sung : g.Sung level c) :
    Builds g (append id c) Any :=
  append_builds hosts.inside sung.inside (hosts.fits sung)

variable (deep : Deepens n deeper)
include deep

theorem readLyric_builds (m : Nat) (t : Token) :
    Builds g (readLyric deeper m t) fun found h => ∀ c ∈ found, h.Sung (n + 1) c := by
  have given : ∀ {h : Graded} {id : ItemId}, h.Sung (n + 1) id → ∀ c ∈ some id, h.Sung (n + 1) c := by
    intro h id sung c member
    cases member
    exact sung
  have no_item : ∀ h : Graded, ∀ c ∈ (none : Option ItemId), h.Sung (n + 1) c := by simp
  induction m generalizing g t with
  | zero => exact .bind (.still fun _ => rfl) fun _ h _ _ => .pure (no_item h)
  | succ m ih =>
    unfold readLyric
    split
    · refine .bind (add_builds g .lyricText t.start none ⟨n + 1, .plain⟩ nofun) fun id h _ added => ?_
      have is := added.1
      refine readInto_low is.above (.free (deep .item t h)) fun l later => ?_
      have is := is.later later
      exact .bind (.free (readDuration_builds is.above none)) fun _ _ behind _ =>
        .pure (given ((is.later behind).sung rfl nofun))
    split
    · refine .bind (addFor_builds g .lyricText t ⟨n + 1, .plain⟩ nofun) fun id h _ is => ?_
      exact .bind (.free (readDuration_builds is.above none)) fun _ _ later _ =>
        .pure (given ((is.later later).sung rfl nofun))
    split
    · exact .bind (leaf_low n .lyricItem t nofun) fun _ _ _ low => .pure (given low.sung)
    · refine .bind (startList_builds t ⟨n + 1, .lyrics⟩) fun found h _ started => ?_
      cases found with
      | none => exact .pure (no_item h)
      | some list =>
        obtain ⟨id, follows⟩ := list
        have is := started _ rfl
        cases follows with
        | false => exact .pure (given (Is.low is (Nat.zero_le n)).sung)
        | true =>
          have is : h.Is .musicList ⟨n + 1, .lyrics⟩ id := is
          have hosts : h.Hosts (n + 1) id := is.hosts (.inr rfl)
          refine .bind (.bounded (.loop_any fun _ k later => .bind nextItem_builds fun found l further _ => ?_))
            fun out k later _ => .bind addToken_builds fun _ l further _ =>
              .pure (given ((is.later (later.trans further)).sung rfl fun _ => rfl))
          cases found with
          | none => exact .pure trivial
          | some s =>
            refine .bind (ih s) fun child o behind sung => ?_
            have hosts := hosts.later (later.trans (further.trans behind))
            -- what is no word of lyrics is read at the level of any other item
            cases child with
            | some c => exact .bind (append_sung hosts (sung c rfl)) fun _ _ _ _ => .pure trivial
            | none =>
              exact readInto_low hosts.above (.free (deep .item s o)) fun _ _ => .pure trivial

theorem readLyricOrItem_builds (t : Token) :
    Builds g (readLyricOrItem deeper t) fun found h => ∀ c ∈ found, h.Sung (n + 1) c := by
  refine .get fun r => .bind (readLyric_builds deep _ t) fun found h _ sung => ?_
  cases found with
  | some c => exact .pure sung
  | none => exact (Builds.free (deep .item t h)).mono fun _ _ _ low c member => (low c member).sung

theorem readLyricContext_builds : Builds g (readLyricContext deeper) Any := by
  refine .bind nextItem_builds fun found h _ _ => ?_
  cases found with
  | none => exact .pure trivial
  | some s =>
    dsimp only
    split
    · exact .pure trivial
    · split
      · exact .bind (.free (deep .item s h)) fun _ _ _ _ => .pure trivial
      · exact .bind pushBack_builds fun _ _ _ _ => .pure trivial

/-- One item of lyrics is read into a mode of lyrics. -/
theorem bounded_sung {kind : ItemKind} {k : Option Token → Reading Unit} (is : g.Is kind ⟨n + 1, .plain⟩ id)
    (mode : kind.isLyricMode) (ended : k none = Pure.pure ())
    (item : ∀ s, k (some s) = readLyricOrItem deeper s >>= appendIf id) :
    Builds g (bounded (nextItem >>= k) >>= fun _ => pure id) fun id h => h.Low (n + 1) id := by
  refine .bind (.bounded (P := Any) (.bind nextItem_builds fun found h later _ => ?_)) fun _ _ later _ =>
    .pure ((is.later later).low (Nat.le_refl _))
  cases found with
  | none =>
    rw [ended]
    exact .pure trivial
  | some s =>
    rw [item]
    refine .bind (readLyricOrItem_builds deep s) fun child l further sung => ?_
    cases child with
    | none => exact .pure trivial
    | some c => exact append_sung ((is.hosts (.inl mode)).later (later.trans further)) (sung c rfl)

theorem readLyricMode_builds (t : Token) :
    Builds g (readLyricMode deeper t) fun id h => h.Low (n + 1) id := by
  unfold readLyricMode
  dsimp only
  split
  · refine .bind (addFor_builds g .lyricsTo t ⟨n + 1, .plain⟩ nofun) fun id h _ is => ?_
    refine .bind (readLyricContext_builds deep) fun _ k later _ => .bind setDetails_builds fun _ l further _ => ?_
    exact bounded_sung deep (is.later (later.trans further)) rfl rfl fun _ => rfl
  · refine .bind (addFor_builds g .lyricMode t ⟨n + 1, .plain⟩ nofun) fun id h _ is => ?_
    exact bounded_sung deep is rfl rfl fun _ => rfl

end Lyrics

section Score

variable (deep : Deepens n deeper)
include deep

theorem readInput_builds (kind : ItemKind) (t : Token) :
    Builds g (readInput deeper kind t) fun id h => h.Low (n + 1) id :=
  filled_low fun _ _ above => readInto_low above (.free (readOne_builds deep)) fun _ _ => .pure rfl

theorem readWholeMarkup_builds (t : Token) :
    Builds g (readWholeMarkup deeper t) fun id h => h.Low (n + 1) id :=
  filled_low fun _ _ above => .bind (readMarkupsInto_builds deep above false) fun _ _ _ _ => .pure rfl

theorem readLily_builds (k : Lily.Kind) (t : Token) :
    Builds g (readLily deeper k t) fun found h => ∀ c ∈ found, h.Low (n + 1) c := by
  unfold readLily
  split
  · rename_i kind found
    refine (leaf_low (n + 1) kind t ?_).wrapped
    rintro rfl
    unfold plainKind? at found
    split at found <;> cases found
  · exact (readBlock_builds deep _ t).wrapped
  · exact (readInput_builds deep _ t).wrapped
  · split
    · exact (readScheme_low deep t).wrapped
    · exact (readString_builds t).wrapped
    iterate 5 exact readMusicItem_builds _ t
    · exact (readUnpitched_builds t).wrapped
    · exact readChord_builds deep t
    iterate 5 exact readList_builds deep t
    · exact (readChordSpecifier_builds t).wrapped
    · exact (readTremolo_builds t).wrapped
    -- an assignment that was given up may leave another item, which is as low
    iterate 2 exact (readAssignment_builds deep t).mono fun _ _ _ given c member => (given c member).1
    iterate 3 exact readVariable_builds deep t
    · exact (readDirection_builds deep t).wrapped
    iterate 8 exact (addSpan_builds _ t _).wrapped
    · exact (readSet_builds deep t).wrapped
    · exact (readUnset_builds t).wrapped
    · exact (readOverride_builds deep t).wrapped
    · exact (readRevert_builds deep t).wrapped
    · exact (readTweak_builds deep t).wrapped
    iterate 3 exact (readTranslator_builds deep t).wrapped
    · exact (readClef_builds t).wrapped
    · exact (readTempo_builds deep t).wrapped
    · exact (readRepeat_builds deep t).wrapped
    · exact (readLyricMode_builds deep t).wrapped
    iterate 3 exact (readWholeMarkup_builds deep t).wrapped
    · split
      · exact (readParts_builds deep t).wrapped
      · exact (leaf_low (n + 1) .userCommand t nofun).wrapped
    iterate 3 exact (readCommand_builds deep _ t).wrapped
    · exact .pure none_low

theorem readItem_builds (t : Token) :
    Builds g (readItem deeper t) fun found h => ∀ c ∈ found, h.Low (n + 1) c := by
  unfold readItem
  split
  · exact readLily_builds deep _ t
  · exact (readString_builds t).wrapped
  · exact .pure none_low

end Score

/-- With at most `n` levels of items, what is read is of a level up to `n`. -/
theorem read_deepens (n : Nat) : Deepens n (read n) := by
  induction n with
  | zero => exact fun _ _ _ => .pure none_low
  | succ n ih =>
    intro form t g
    cases form with
    | item => exact readItem_builds ih t
    | markup => exact readMarkup_builds ih t
    | scheme => exact readSchemePart_builds ih t

end Reading

/-- The root is above the levels of all that is read. -/
def Graded.start (depth : Nat) : Graded where
  tree := .start
  grade _ := ⟨depth + 1, .plain⟩
  inside p c member := by cases p <;> cases member
  fits p c member := by cases p <;> cases member
  scheme _ _ _ := Nat.succ_pos depth

theorem Tree.ofTokens_graded (tokens : List ScannedToken) (language : String) (depth : Nat) :
    ∃ g : Graded, g.tree = .ofTokens tokens language depth ∧ g.grade Tree.root = ⟨depth + 1, .plain⟩ := by
  have above : (Graded.start depth).Above depth Tree.root := ⟨Nat.one_pos, Nat.lt_succ_self depth⟩
  have builds : Builds (Graded.start depth) (Reading.readScore depth) Any :=
    .bind (Reading.readAll_builds (Reading.read_deepens depth)) fun _ _ later low =>
      Reading.appendAll_low (above.later later) low
  obtain ⟨g, later, tree, _⟩ := builds (.start tokens.toArray language) rfl
  exact ⟨g, tree.symm, later.grade Tree.root Nat.one_pos⟩

end ScoreText
