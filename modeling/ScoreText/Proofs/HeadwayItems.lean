import ScoreText.Music.Reading.Note
import ScoreText.Music.Reading.Setting
import ScoreText.Proofs.Headway

/-! Headway in music and in settings: notes, chords and lists, assignments, blocks, and the commands that
change properties. -/
namespace ScoreText.Reading

variable {n : Nat} {deeper : Deeper}

section Notes

theorem readDurationTokens_firm (taken : List Token) : Firm (readDurationTokens taken) := fun _ =>
  .loop fun ts => .bind .next fun found => by
    cases found with
    | none => exact .pure (Nat.zero_le _)
    | some t =>
      dsimp only
      split
      · split
        · exact .bind .pushBack fun _ => .pure (Nat.zero_le _)
        · exact .pure (Nat.le_refl _)
      · split
        · exact .pure (Nat.le_refl _)
        · exact .bind .pushBack fun _ => .pure (Nat.zero_le _)

theorem readDuration_firm (id : ItemId) (length : Option Token) : Firm (readDuration id length) := fun _ => by
  have own : Firm (do
      let duration := (← get).duration
      update id fun i => { i with duration := some duration }) :=
    fun _ => .get fun _ => updateTree_firm _
  refine .firm (readDurationTokens_firm _) fun ts => ?_
  cases ts with
  | nil => exact own _
  | cons first rest =>
    refine .firm add_firm fun written => .firm updateTree_firm fun _ => .firm updateTree_firm fun _ => ?_
    dsimp only
    split
    · exact .firm (.rest fun _ => ⟨rfl, rfl, rfl, rfl, rfl⟩) fun _ => own _
    · exact own _

theorem readNoteParts_firm (p : NoteParts) : Firm (readNoteParts p) := fun _ =>
  .loop fun p => .bind .next fun found => by
    cases found with
    | none => exact .pure (Nat.zero_le _)
    | some t =>
      dsimp only
      split
      · exact .pure (Nat.le_refl _)
      · exact .pure (Nat.le_refl _)
      · exact .pure (Nat.le_refl _)
      · exact .pure (Nat.zero_le _)
      · split
        · exact .pure (Nat.le_refl _)
        · exact .bind .pushBack fun _ => .pure (Nat.zero_le _)

theorem addNote_firm (t : Token) : Firm (addNote t) := fun _ => .get fun r => by
  split
  · exact .pure (Nat.zero_le _)
  · exact .firm add_firm fun _ => .pure (Nat.zero_le _)

theorem readOwnDuration_firm (inPitchCommand : Bool) (id : ItemId) :
    Firm (readOwnDuration inPitchCommand id) := fun _ => .get fun r => by
  split
  · exact .firm (readDuration_firm id none) fun _ => .pure (Nat.zero_le _)
  · exact .pure (Nat.zero_le _)

theorem readMusicItem_firm (k : Lily.Kind) (t : Token) : Firm (readMusicItem k t) := fun _ => by
  refine .get fun r => ?_
  dsimp only
  split
  · refine .firm (addNote_firm t) fun note => ?_
    cases note with
    | none => exact .pure (Nat.zero_le _)
    | some note =>
      exact .firm (readNoteParts_firm _) fun _ => .firm updateTree_firm fun _ => readOwnDuration_firm _ _ _
  · exact .firm add_firm fun _ => readOwnDuration_firm _ _ _
  · exact .firm add_firm fun _ => readOwnDuration_firm _ _ _
  · exact .firm add_firm fun _ => readOwnDuration_firm _ _ _

theorem readUnpitched_firm (t : Token) : Firm (readUnpitched t) := fun _ =>
  .firm add_firm fun id => .firm (readDuration_firm id _) fun _ => .pure (Nat.zero_le _)

theorem addList_firm (t : Token) (simultaneous : Bool) (bracket : Option Token) :
    Firm (addList t simultaneous bracket) := fun _ =>
  .firm add_firm fun _ => .firm updateTree_firm fun _ => .firm updateTree_firm fun _ =>
    .pure (Nat.zero_le _)

theorem startList_firm (t : Token) : Firm (startList t) := fun _ => by
  unfold startList
  split
  · exact .firm (addList_firm _ _ _) fun _ => .pure (Nat.zero_le _)
  · split
    · refine .bind (.free nextItem_headway) fun found => ?_
      cases found with
      | none => exact .pure (Nat.zero_le _)
      | some bracket =>
        dsimp only
        split
        · exact .firm (addList_firm _ _ _) fun _ => .pure (Nat.zero_le _)
        · exact .bind .pushBack fun _ => .firm add_firm fun _ => .pure (Nat.zero_le _)
    · exact .pure (Nat.zero_le _)

theorem readChordSpecifier_firm (t : Token) : Firm (readChordSpecifier t) := fun _ => by
  refine .firm add_firm fun id => .firm add_firm fun _ => .firm updateTree_firm fun _ =>
    .bind (.bounded (.loop fun _ => .bind .next fun found => ?_)) fun _ => .pure (Nat.zero_le _)
  cases found with
  | none => exact .pure (Nat.zero_le _)
  | some t =>
    dsimp only
    split
    · exact .firm add_firm fun _ => .firm updateTree_firm fun _ => .pure (Nat.le_refl _)
    · split
      · refine .firm (addNote_firm t) fun note => ?_
        cases note with
        | none => exact .pure (Nat.le_refl _)
        | some note => exact .firm updateTree_firm fun _ => .firm updateTree_firm fun _ => .pure (Nat.le_refl _)
      · exact .pure (Nat.le_refl _)

theorem readTremolo_firm (t : Token) : Firm (readTremolo t) := fun _ => by
  refine .firm add_firm fun id => .bind (.free .next) fun found => ?_
  cases found with
  | none => exact .pure (Nat.zero_le _)
  | some t =>
    dsimp only
    split
    · exact .firm add_firm fun _ => .firm updateTree_firm fun _ => .firm updateTree_firm fun _ =>
        .pure (Nat.zero_le _)
    · exact .bind .pushBack fun _ => .pure (Nat.zero_le _)

theorem addSpan_firm (kind : ItemKind) (t : Token) (starts : Bool) : Firm (addSpan kind t starts) := fun _ =>
  .firm add_firm fun _ => .firm updateTree_firm fun _ => .pure (Nat.zero_le _)

variable (deep : ∀ form t, Firm (deeper form t))
include deep

theorem readChord_firm (t : Token) : Firm (readChord deeper t) := fun _ => .get fun r => by
  split
  · exact .pure (Nat.zero_le _)
  · exact .firm (.rest fun _ => ⟨rfl, rfl, rfl, rfl, rfl⟩) fun _ => .firm add_firm fun id =>
      .firm (readRegionInto_firm deep id) fun _ => .firm (.rest fun _ => ⟨rfl, rfl, rfl, rfl, rfl⟩) fun _ =>
        .firm (readDuration_firm id none) fun _ => .pure (Nat.zero_le _)

theorem readList_firm (t : Token) : Firm (readList deeper t) := fun _ => by
  refine .firm (startList_firm t) fun started => ?_
  cases started with
  | none => exact .pure (Nat.zero_le _)
  | some started =>
    dsimp only
    split
    · exact .firm (readRegionInto_firm deep _) fun _ => .pure (Nat.zero_le _)
    · exact .pure (Nat.zero_le _)

theorem readDirection_firm (t : Token) : Firm (readDirection deeper t) := fun _ => by
  refine .firm add_firm fun id => .firm updateTree_firm fun _ => .bind (.free nextItem_headway) fun found => ?_
  cases found with
  | none => exact .pure (Nat.zero_le _)
  | some t =>
    dsimp only
    split
    · exact .firm (.free (deep .item t)) fun _ => .firm appendIf_firm fun _ => .pure (Nat.zero_le _)
    · exact .bind .pushBack fun _ => .pure (Nat.zero_le _)

end Notes

section Settings

theorem addPathStep_firm (id : ItemId) (t : Token) : Firm (addPathStep id t) := fun _ =>
  .firm add_firm fun _ => updateTree_firm _

/-- The token that ends a path is still to be given back. -/
theorem readWhile_headway (ks : List Lily.Kind) {act : Token → Reading Unit} (firm : ∀ t, Firm (act t)) :
    Headway n 0 (readWhile ks act) (Reader.afford 0) :=
  .loop_from (e := Reader.afford 0) (a := none) fun found => .bind nextItem_headway fun next => by
    cases next with
    | none => exact .pure (Nat.zero_le _)
    | some t =>
      dsimp only
      split
      · exact .firm (firm t) fun _ => .pure (by simp [Reader.afford])
      · exact .pure (by simp [Reader.afford])

theorem readUnset_firm (t : Token) : Firm (readUnset t) := fun _ => by
  refine .firm add_firm fun id => .firm (.bounded fun _ => ?_) fun _ => .pure (Nat.zero_le _)
  refine .bind (readWhile_headway _ fun t => updateTree_firm) fun stop => ?_
  cases stop with
  | none => exact .pure (Nat.zero_le _)
  | some stop => exact .pushBack

variable (deep : ∀ form t, Firm (deeper form t))
include deep

theorem readAssignment_firm (t : Token) : Firm (readAssignment deeper t) := fun _ =>
  .firm add_firm fun id => .loop fun _ => .bind (.free nextItem_headway) fun found => by
    cases found with
    | none => exact .pure (Nat.zero_le _)
    | some t =>
      dsimp only
      split
      · exact .firm updateTree_firm fun _ => .firm (.free (readOne_firm deep)) fun _ =>
          .firm appendIf_firm fun _ => .pure (Nat.zero_le _)
      · split
        · refine .tree fun tree => ?_
          split
          · exact .bind .pushBack fun _ => .pure (Nat.zero_le _)
          · exact .firm (readQuoting_firm deep _ t) fun _ => .firm updateTree_firm fun _ =>
              .pure (Nat.le_refl _)
        · exact .bind .pushBack fun _ => .pure (Nat.zero_le _)

theorem readVariable_firm (t : Token) : Firm (readVariable deeper t) := fun _ => by
  refine .firm (readAssignment_firm deep t) fun assigned => ?_
  cases assigned with
  | none => exact .pure (Nat.zero_le _)
  | some id =>
    refine .bind (.free nextItem_headway) fun found => ?_
    cases found with
    | none => exact .pure (Nat.zero_le _)
    | some t =>
      dsimp only
      split
      · exact .firm add_firm fun _ => .firm updateTree_firm fun _ => .pure (Nat.zero_le _)
      · exact .bind .pushBack fun _ => .pure (Nat.zero_le _)

theorem readBlockInto_firm (id : ItemId) : Firm (readBlockInto deeper id) := fun _ =>
  .loop fun _ => .bind .next fun found => by
    cases found with
    | none => exact .pure (Nat.zero_le _)
    | some t =>
      dsimp only
      split
      · exact .firm updateTree_firm fun _ => .firm (readRegionInto_firm deep id) fun _ => .pure (Nat.zero_le _)
      · split
        · exact .pure (Nat.le_refl _)
        · exact .bind .pushBack fun _ => .pure (Nat.zero_le _)

theorem readBlock_firm (kind : ItemKind) (t : Token) : Firm (readBlock deeper kind t) := fun _ => by
  refine .firm add_firm fun id => .firm (readBlockInto_firm deep id) fun found => ?_
  dsimp only
  split
  · exact .firm (readOne_firm deep) fun _ => .firm appendIf_firm fun _ => .pure (Nat.zero_le _)
  · exact .pure (Nat.zero_le _)

theorem readSet_firm (t : Token) : Firm (readSet deeper t) := fun _ => by
  refine .firm add_firm fun id => .bind (.loop fun ts => .bind nextItem_headway fun found => ?_) fun _ =>
    .pure (Nat.zero_le _)
  cases found with
  | none => exact .pure (Nat.zero_le _)
  | some t =>
    dsimp only
    split
    · exact .firm updateTree_firm fun _ => .firm (readOne_firm deep) fun _ => .firm appendIf_firm fun _ =>
        .pure (Nat.zero_le _)
    · exact .pure (Nat.le_refl _)

theorem readOverride_firm (t : Token) : Firm (readOverride deeper t) := fun _ => by
  refine .firm add_firm fun id => .bind (.bounded (.loop fun _ => .bind nextItem_headway fun found => ?_))
    fun _ => .pure (Nat.zero_le _)
  cases found with
  | none => exact .pure (Nat.zero_le _)
  | some t =>
    dsimp only
    split
    · exact .firm (.free (deep .item t)) fun _ => .firm appendIf_firm fun _ => .pure (Nat.le_refl _)
    · split
      · exact .firm updateTree_firm fun _ => .firm (.free (readOne_firm deep)) fun _ =>
          .firm appendIf_firm fun _ => .pure (Nat.zero_le _)
      · exact .firm (addPathStep_firm id t) fun _ => .pure (Nat.le_refl _)

theorem readPath_headway (ks : List Lily.Kind) (id : ItemId) (goesOn : Tree → Bool) :
    Headway n 0 (do
      match ← readWhile ks (addPathStep id) with
      | none => pure ()
      | some t =>
        if t.kind == .lily .schemeStart && goesOn (← tree) then
          append id (← readScheme deeper t)
        else pushBack) fun _ => 0 := by
  refine .bind (readWhile_headway ks (addPathStep_firm id)) fun stop => ?_
  cases stop with
  | none => exact .pure (Nat.zero_le _)
  | some t =>
    refine .tree fun tree => ?_
    split
    · exact .firm (readQuoting_firm deep _ t) fun _ => updateTree_firm.headway.mono fun _ => Nat.zero_le _
    · exact .pushBack

theorem readRevert_firm (t : Token) : Firm (readRevert deeper t) := fun _ =>
  .firm add_firm fun id => .bind (.bounded (readPath_headway deep _ id fun tree => !namesProperty tree id))
    fun _ => .pure (Nat.zero_le _)

theorem readTweak_firm (t : Token) : Firm (readTweak deeper t) := fun _ =>
  .firm add_firm fun id => .bind (.bounded (readPath_headway deep _ id fun tree => (tree.children id).isEmpty))
    fun _ => .firm (.free (readOne_firm deep)) fun _ => .firm appendIf_firm fun _ =>
      .pure (Nat.zero_le _)

end Settings

end ScoreText.Reading
