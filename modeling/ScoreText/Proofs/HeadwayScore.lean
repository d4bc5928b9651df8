import ScoreText.Music.Reading.Score
import ScoreText.Proofs.HeadwayCommands

/-! Headway in lyrics and in a whole score. Reading comes to its end, and then all tokens are in use. -/
namespace ScoreText.Reading

variable {n : Nat} {deeper : Deeper}

section Lyrics

variable (deep : ∀ form t, Firm (deeper form t))
include deep

/-- Lists of lyrics are never nested deeper than tokens are to come. -/
theorem readLyric_headway (levels : Nat) (t : Token) (few : n < levels) :
    Headway n 0 (readLyric deeper levels t) fun _ => 0 := by
  induction levels generalizing n t with
  | zero => exact absurd few (Nat.not_lt_zero n)
  | succ levels ih =>
    unfold readLyric
    split
    · exact .firm add_firm fun id => .firm (.free (deep .item t)) fun _ => .firm appendIf_firm fun _ =>
        .firm (.free (readDuration_firm id none)) fun _ => .pure (Nat.zero_le _)
    split
    · exact .firm add_firm fun id => .firm (.free (readDuration_firm id none)) fun _ => .pure (Nat.zero_le _)
    split
    · exact .firm add_firm fun _ => .pure (Nat.zero_le _)
    refine .firm (startList_firm t) fun started => ?_
    cases started with
    | none => exact .pure (Nat.zero_le _)
    | some started =>
      dsimp only
      split
      · refine .bind (.bounded (.loop fun _ => .bind nextItem_headway fun found => ?_)) fun out =>
          .firm updateTree_firm fun _ => .pure (Nat.zero_le _)
        cases found with
        | none => exact .pure (Nat.zero_le _)
        | some t =>
          refine .bind (.shift (d := 1) fun _ => ih t (by omega)) fun child => ?_
          cases child with
          | some child => exact .firm updateTree_firm fun _ => .pure (Nat.le_refl _)
          | none => exact .firm (.free (deep .item t)) fun _ => .firm appendIf_firm fun _ => .pure (Nat.le_refl _)
      · exact .pure (Nat.zero_le _)

/-- A word of lyrics, or else any other item, where `n` levels of lists are more than there are tokens. -/
theorem readLyricElse_headway {n levels : Nat} (enough : n < levels) (t : Token) : Headway n 0 (do
    match ← readLyric deeper levels t with
    | some id => return some id
    | none => Reading.free (deeper .item t)) fun _ => 0 := by
  refine .bind (readLyric_headway deep _ t enough) fun found => ?_
  cases found with
  | some id => exact .pure (Nat.zero_le _)
  | none => exact .free (deep .item t _)

theorem readLyricOrItem_firm (t : Token) : Firm (readLyricOrItem deeper t) := by
  intro _ c r le _
  have tried := readLyricElse_headway deep (Nat.lt_succ_self r.left) t
  exact (tried r.used r (Nat.le_refl _) r.size_le).below le le

theorem readLyricContext_firm : Firm (readLyricContext deeper) := fun _ =>
  .bind nextItem_headway fun found => by
    cases found with
    | none => exact .pure (Nat.zero_le _)
    | some t =>
      dsimp only
      split
      · exact .pure (Nat.zero_le _)
      · split
        · exact .firm (.free (deep .item t)) fun _ => .pure (Nat.zero_le _)
        · exact .bind .pushBack fun _ => .pure (Nat.zero_le _)

theorem readLyricsInto_firm (id : ItemId) : Firm (do
    let _ ← bounded do
      match ← nextItem with
      | none => pure ()
      | some t => appendIf id (← readLyricOrItem deeper t)
    return id) := by
  refine fun _ => .firm (.bounded fun _ => .bind nextItem_headway fun found => ?_) fun _ =>
    .pure (Nat.zero_le _)
  cases found with
  | none => exact .pure (Nat.zero_le _)
  | some t =>
    exact .firm (readLyricOrItem_firm deep t) fun _ => appendIf_firm.headway.mono fun _ => Nat.zero_le _

theorem readLyricMode_firm (t : Token) : Firm (readLyricMode deeper t) := fun _ => by
  refine .firm add_firm fun id => ?_
  dsimp only
  split
  · exact .firm (readLyricContext_firm deep) fun _ => .firm updateTree_firm fun _ => readLyricsInto_firm deep id _
  · exact readLyricsInto_firm deep id _

end Lyrics

section Score

variable (deep : ∀ form t, Firm (deeper form t))
include deep

theorem readInput_firm (kind : ItemKind) (t : Token) : Firm (readInput deeper kind t) := fun _ =>
  .firm add_firm fun _ => .firm (.free (readOne_firm deep)) fun _ => .firm appendIf_firm fun _ =>
    .pure (Nat.zero_le _)

theorem readWholeMarkup_firm (t : Token) : Firm (readWholeMarkup deeper t) := fun _ =>
  .firm add_firm fun id => .firm (readMarkupsInto_firm deep id false) fun _ => .pure (Nat.zero_le _)

theorem readLily_firm (k : Lily.Kind) (t : Token) : Firm (readLily deeper k t) := by
  unfold readLily
  split
  · exact add_firm.wrapped
  · exact (readBlock_firm deep _ t).wrapped
  · exact (readInput_firm deep _ t).wrapped
  · split
    · exact (readQuoting_firm deep .scheme t).wrapped
    · exact (readString_firm t).wrapped
    iterate 5 exact readMusicItem_firm _ t
    · exact (readUnpitched_firm t).wrapped
    · exact readChord_firm deep t
    iterate 5 exact readList_firm deep t
    · exact (readChordSpecifier_firm t).wrapped
    · exact (readTremolo_firm t).wrapped
    iterate 2 exact readAssignment_firm deep t
    iterate 3 exact readVariable_firm deep t
    · exact (readDirection_firm deep t).wrapped
    iterate 8 exact (addSpan_firm _ t _).wrapped
    · exact (readSet_firm deep t).wrapped
    · exact (readUnset_firm t).wrapped
    · exact (readOverride_firm deep t).wrapped
    · exact (readRevert_firm deep t).wrapped
    · exact (readTweak_firm deep t).wrapped
    iterate 3 exact (readTranslator_firm deep t).wrapped
    · exact (readClef_firm t).wrapped
    · exact (readTempo_firm deep t).wrapped
    · exact (readRepeat_firm deep t).wrapped
    · exact (readLyricMode_firm deep t).wrapped
    iterate 3 exact (readWholeMarkup_firm deep t).wrapped
    · split
      · exact (readParts_firm deep t).wrapped
      · exact add_firm.wrapped
    iterate 3 exact (readCommand_firm deep _ t).wrapped
    · exact fun _ => .pure (Nat.zero_le _)

theorem readItem_firm (t : Token) : Firm (readItem deeper t) := by
  unfold readItem
  split
  · exact readLily_firm deep _ t
  · exact (readString_firm t).wrapped
  · exact fun _ => .pure (Nat.zero_le _)

end Score

theorem read_firm (n : Nat) : ∀ form t, Firm (read n form t) := by
  induction n with
  | zero => exact fun _ _ _ => .pure (Nat.zero_le _)
  | succ n ih =>
    intro form t
    cases form with
    | item => exact readItem_firm ih t
    | markup => exact readMarkup_firm ih t
    | scheme => exact readSchemePart_firm ih t

theorem Firm.keeps {α : Type} {x : Reading α} (firm : Firm x) {r : Reader} (taken : r.pushed = false) :
    Reader.Onward r.index 0 r (x.run r).2 :=
  firm r.tokens.size r.index r (by simp [Reader.used, taken]) (Nat.le_add_left ..)

theorem readScore_firm (depth : Nat) : Firm (readScore depth) := fun _ =>
  .firm (readAll_firm (read_firm depth)) fun _ => appendAll_firm _

theorem readScore_used (tokens : List ScannedToken) (language : String) (depth : Nat) :
    ((readScore depth).run (.start tokens.toArray language)).2.course.stalled = false ∧
      ((readScore depth).run (.start tokens.toArray language)).2.used = tokens.length := by
  have large : (Reader.start tokens.toArray language).AtLarge := ⟨rfl, nofun⟩
  have all := (readAll_firm (read_firm depth)).keeps (r := .start tokens.toArray language) rfl
  have used := readAll_used (read_firm depth) large all.stalled
  have size : ((readAll (read depth)).run (.start tokens.toArray language)).2.tokens.size = tokens.length :=
    congrArg Array.size all.tokens
  rw [size] at used
  -- the items are put into the root behind that
  have rest : Reader.Onward tokens.length 0 ((readAll (read depth)).run (.start tokens.toArray language)).2
      ((readScore depth).run (.start tokens.toArray language)).2 :=
    appendAll_firm 0 tokens.length _ used (Nat.le_of_eq size)
  have score := (readScore_firm depth).keeps (r := .start tokens.toArray language) rfl
  have inside := Nat.le_of_eq (congrArg Array.size score.tokens)
  exact ⟨score.stalled, Nat.le_antisymm (Nat.le_trans (Reader.used_le_size _) inside) rest.used⟩

/-- Reading comes to its end whatever the tokens are and whatever regions they claim to be in. No loop is
given up, and all tokens are in use then. Whatever is read behind a token that was just taken leaves that
token in use, and gives back only tokens that it has taken itself. A word of lyrics may be tried as one
and then as any other item. -/
theorem reading_ends (tokens : List ScannedToken) (language : String) (depth : Nat) :
    (((readScore depth).run (.start tokens.toArray language)).2.course.stalled = false ∧
      ((readScore depth).run (.start tokens.toArray language)).2.used = tokens.length) ∧
    ∀ (n : Nat) (t : Token) (r : Reader), r.pushed = false →
      (∀ form, Reader.Onward r.index 0 r ((read n form t).run r).2) ∧
      (∀ levels, r.left < levels → Reader.Onward r.index 0 r ((readLyric (read n) levels t).run r).2) ∧
      Reader.Onward r.index 0 r ((readLyricOrItem (read n) t).run r).2 := by
  refine ⟨readScore_used tokens language depth, fun n t r taken => ⟨fun form => ?_, fun levels few => ?_, ?_⟩⟩
  · exact (read_firm n form t).keeps taken
  · have here : r.index + 0 ≤ r.used := by simp [Reader.used, taken]
    have room := r.size_le
    exact readLyric_headway (read_firm n) levels t few r.index r here (by simp [Reader.used, taken] at room; omega)
  · exact (readLyricOrItem_firm (read_firm n) t).keeps taken

/-- The note is given back behind the command, and then it is read once more. -/
theorem reading_ends_behind_command :
    let tokens : List ScannedToken := [
      ⟨⟨.lily .simultaneousOrSequentialCommand, 0, "\\simultaneous"⟩, 5, .lily .global⟩,
      ⟨⟨.space, 13, " "⟩, 1, .lily .lyricMode⟩,
      ⟨⟨.lily .note, 14, "c"⟩, 3, .lily .pitchCommand⟩]
    let r : Reader := { Reader.start tokens.toArray "nederlands" with index := 1, inside := by decide }
    r.pushed = false ∧ r.left < 3 ∧
      ((readScore 2).run (.start tokens.toArray "nederlands")).2.used = 3 ∧
      Reader.Onward 1 0 r ((readLyric (read 2) 3 ⟨.lily .simultaneousOrSequentialCommand, 0, "\\simultaneous"⟩).run r).2 := by
  intro tokens r
  have ends := reading_ends tokens "nederlands" 2
  exact ⟨rfl, by decide, ends.1.2, (ends.2 2 _ r rfl).2.1 3 (by decide)⟩

end ScoreText.Reading
