import ScoreText.Music.Reading.Command
import ScoreText.Proofs.HeadwayItems

/-! Headway in commands that take arguments. -/
namespace ScoreText.Reading

variable {n : Nat} {deeper : Deeper}

theorem readContextId_firm (found : Option Attribute) : Firm (readContextId found) := fun _ =>
  .loop fun _ => .bind .next fun next => by
    cases next with
    | none => exact .pure (Nat.zero_le _)
    | some t =>
      dsimp only
      split
      · exact .firm (readString_firm t) fun _ => .pure (Nat.zero_le _)
      · split
        · exact .pure (Nat.zero_le _)
        · split
          · exact .pure (Nat.le_refl _)
          · exact .bind .pushBack fun _ => .pure (Nat.zero_le _)

theorem readContext_firm : Firm readContext := fun _ => .bind nextItem_headway fun found => by
  cases found with
  | none => exact .pure (Nat.zero_le _)
  | some context =>
    dsimp only
    split
    · refine .firm (fun _ => .loop fun found => .bind .next fun next => ?_) fun _ => .pure (Nat.zero_le _)
      cases next with
      | none => exact .pure (Nat.zero_le _)
      | some t =>
        dsimp only
        split
        · exact .firm (readContextId_firm found) fun _ => .pure (Nat.le_refl _)
        · split
          · exact .pure (Nat.le_refl _)
          · exact .bind .pushBack fun _ => .pure (Nat.zero_le _)
    · exact .bind .pushBack fun _ => .pure (Nat.zero_le _)

theorem readClef_firm (t : Token) : Firm (readClef t) := fun _ => by
  have set : ∀ (id : ItemId) (found : Option Attribute), Firm (do
      setDetails id (.clef found)
      return id) := fun _ _ _ => .firm updateTree_firm fun _ => .pure (Nat.zero_le _)
  refine .firm add_firm fun id => .bind nextItem_headway fun found => ?_
  cases found with
  | none => exact set id none _
  | some t =>
    dsimp only
    split
    · exact (set id (some (.token t))).headway.mono fun _ => Nat.zero_le _
    · split
      · exact .firm (readString_firm t) fun string => (set id _).headway.mono fun _ => Nat.zero_le _
      · exact .bind .pushBack fun _ => set id none _

theorem readRatio_firm (id : ItemId) (isTuplet : Bool) : Firm (readRatio id isTuplet) := fun _ =>
  .loop fun ratio => .bind .next fun found => by
    cases found with
    | none => exact .pure (Nat.zero_le _)
    | some t =>
      dsimp only
      split
      · refine .firm add_firm fun _ => .firm updateTree_firm fun _ => ?_
        split
        · exact .pure (Nat.le_refl _)
        · exact .pure (Nat.zero_le _)
      · split
        · exact .firm (readDuration_firm id _) fun _ => .pure (Nat.zero_le _)
        · split
          · exact .pure (Nat.le_refl _)
          · exact .bind .pushBack fun _ => .pure (Nat.zero_le _)

theorem setLanguage_firm (language : String) : Firm (setLanguage language) :=
  .rest fun _ => ⟨rfl, rfl, rfl, rfl, rfl⟩

/-- Behind a part of a tempo its token may still be given back if it was of no use. -/
def TempoParts.spare (p : TempoParts) : Nat :=
  if p.unused.isSome then 1 else 0

theorem TempoParts.spare_le (p : TempoParts) : p.spare ≤ 1 := by
  unfold spare
  split <;> omega

variable (deep : ∀ form t, Firm (deeper form t))
include deep

theorem readArguments_firm (kind : ItemKind) (t : Token) (count : Nat) :
    Firm (readArguments deeper kind t count) := fun _ =>
  .firm add_firm fun id => .firm (readArgumentsInto_firm deep id count) fun _ => .pure (Nat.zero_le _)

theorem readNotesAndMusic_firm (kind : ItemKind) (t : Token) (notes : Nat) :
    Firm (readNotesAndMusic deeper kind t notes) := fun _ => by
  refine .firm add_firm fun id => .firm (fun _ => .loop fun left => .bind (readOne_headway deep) fun child => ?_)
    fun _ => .pure (Nat.zero_le _)
  cases child with
  | none => exact .pure (Nat.zero_le _)
  | some child =>
    refine .firm updateTree_firm fun _ => .tree fun tree => ?_
    split
    · exact .pure (Nat.le_refl _)
    · exact .pure (Nat.zero_le _)

theorem readAfterGrace_firm (t : Token) : Firm (readAfterGrace deeper t) := fun _ => by
  refine .firm (readArguments_firm deep _ t _) fun id => .tree fun tree => ?_
  dsimp only
  split
  · exact .tree fun _ => .firm add_firm fun _ => .firm updateTree_firm fun _ => .firm updateTree_firm fun _ =>
      .pure (Nat.zero_le _)
  · exact .pure (Nat.zero_le _)

theorem readParts_firm (t : Token) : Firm (readParts deeper t) := fun _ =>
  .firm add_firm fun _ => .firm (.free (readOne_firm deep)) fun _ => .firm appendIf_firm fun _ =>
    .firm (.free (readOne_firm deep)) fun _ => .firm appendIf_firm fun _ => .pure (Nat.zero_le _)

theorem readAlternative_firm (t : Token) : Firm (readAlternative deeper t) := fun _ =>
  .firm add_firm fun _ => .firm (readOne_firm deep) fun _ => .firm appendIf_firm fun _ =>
    .pure (Nat.zero_le _)

theorem readSettingsAndMusicInto_firm (id : ItemId) : Firm (readSettingsAndMusicInto deeper id) := fun _ =>
  .loop fun _ => .bind (readOne_headway deep) fun child => by
    cases child with
    | none => exact .pure (Nat.zero_le _)
    | some child =>
      refine .firm updateTree_firm fun _ => .tree fun tree => ?_
      split
      · exact .pure (Nat.le_refl _)
      · exact .pure (Nat.zero_le _)

theorem readTranslator_firm (t : Token) : Firm (readTranslator deeper t) := fun _ => by
  refine .firm add_firm fun id => .firm (.bounded readContext_firm) fun out => .firm updateTree_firm fun _ => ?_
  dsimp only
  split
  · exact .firm (readSettingsAndMusicInto_firm deep id) fun _ => .pure (Nat.zero_le _)
  · exact .pure (Nat.zero_le _)

section Tempo

theorem readTempoPart_firm (id : ItemId) (p : TempoParts) (t : Token) :
    Firm (readTempoPart deeper id p t) := fun _ => by
  unfold readTempoPart
  split
  · split
    · exact .firm (.free (deep .item t)) fun _ => .firm appendIf_firm fun _ => .pure (Nat.zero_le _)
    · split
      · exact .firm (readDuration_firm id _) fun _ => .pure (Nat.zero_le _)
      · split
        · exact .firm updateTree_firm fun _ => .pure (Nat.zero_le _)
        · exact .pure (Nat.zero_le _)
  · split
    · exact .firm (.free (deep .item t)) fun _ => .firm appendIf_firm fun _ => .pure (Nat.zero_le _)
    · split
      · exact .firm updateTree_firm fun _ => .pure (Nat.zero_le _)
      · exact .pure (Nat.zero_le _)

theorem readTempo_firm (t : Token) : Firm (readTempo deeper t) := fun _ => by
  refine .firm add_firm fun id => .firm (.bounded fun _ => ?_) fun _ => .pure (Nat.zero_le _)
  refine .bind (.loop_from (e := TempoParts.spare) (a := ⟨false, false, none⟩) fun p => .bind .next fun found => ?_)
    fun p => ?_
  · cases found with
    | none => exact .pure (Nat.le_refl _)
    | some t =>
      refine .firm (readTempoPart_firm deep id p t) fun q => .pure ?_
      exact Nat.max_le.mpr ⟨Nat.le_refl _, Nat.le_trans q.spare_le (Nat.le_add_left 1 _)⟩
  · cases unused : p.unused with
    | none => exact .pure (Nat.zero_le _)
    | some t =>
      have spare : p.spare = 1 := by simp [TempoParts.spare, unused]
      rw [spare]
      split
      · exact .pushBack
      · exact .pure (Nat.zero_le _)

end Tempo

section Repeat

theorem readRepeatedMusic_firm (id : ItemId) : Firm (readRepeatedMusic deeper id) := fun _ => by
  refine .firm (readOne_firm deep) fun _ => .firm appendIf_firm fun _ => .bind nextItem_headway fun found => ?_
  cases found with
  | none => exact .pure (Nat.zero_le _)
  | some t =>
    dsimp only
    split
    · exact .firm (readAlternative_firm deep t) fun _ => updateTree_firm.headway.mono fun _ => Nat.zero_le _
    · exact .pushBack

theorem readRepeatPart_headway (id : ItemId) (p : RepeatParts) (t : Token) :
    Headway n 1 (readRepeatPart deeper id p t) Turn.spare := by
  unfold readRepeatPart
  split
  · exact .pure (Nat.le_refl _)
  · split
    · exact .firm (readString_firm t) fun _ => .pure (Nat.le_refl _)
    · split
      · exact .pure (Nat.le_refl _)
      · split
        · refine .firm (readQuoting_firm deep _ t) fun _ => ?_
          split
          · exact .pure (Nat.le_refl _)
          · split
            · exact .pure (Nat.le_refl _)
            · exact .firm updateTree_firm fun _ => .pure (Nat.zero_le _)
        · exact .bind .pushBack fun _ => .firm (readRepeatedMusic_firm deep id) fun _ => .pure (Nat.zero_le _)

theorem readRepeat_firm (t : Token) : Firm (readRepeat deeper t) := fun _ => by
  refine .firm add_firm fun id => .firm (fun _ => .loop fun p => .bind nextItem_headway fun found => ?_) fun _ =>
    .firm updateTree_firm fun _ => .pure (Nat.zero_le _)
  cases found with
  | none => exact .pure (Nat.zero_le _)
  | some t => exact readRepeatPart_headway deep id p t

end Repeat

section Scaling

theorem readFactor_firm (id : ItemId) : Firm (readFactor deeper id) := fun _ => by
  refine .firm (readOne_firm deep) fun found => ?_
  cases found with
  | none => exact .pure (Nat.zero_le _)
  | some value => exact .firm updateTree_firm fun _ => .tree fun _ => .pure (Nat.zero_le _)

theorem readScaler_firm (t : Token) : Firm (readScaler deeper t) := fun _ => by
  have finish : ∀ (id : ItemId) (ratio : Ratio), Firm (do
      setDetails id (.scaler ratio.numerator ratio.denominator ratio.scaling)
      appendIf id (← readOne deeper)
      return id) := fun _ _ _ =>
    .firm updateTree_firm fun _ => .firm (readOne_firm deep) fun _ => .firm appendIf_firm fun _ =>
      .pure (Nat.zero_le _)
  refine .firm add_firm fun id => ?_
  dsimp only
  split
  · exact .firm (readFactor_firm deep id) fun ratio => finish id ratio _
  · exact .firm (readRatio_firm id _) fun ratio => finish id ratio _

theorem readTimeSignature_firm (t : Token) : Firm (readTimeSignature deeper t) := fun _ => by
  refine .firm add_firm fun id => .firm (fun _ => .loop fun p => .bind nextItem_headway fun found => ?_) fun _ =>
    .firm updateTree_firm fun _ => .pure (Nat.zero_le _)
  cases found with
  | none => exact .pure (Nat.zero_le _)
  | some t =>
    dsimp only
    split
    · exact .firm (readQuoting_firm deep _ t) fun _ => .pure (Nat.le_refl _)
    · split
      · exact .pure (Nat.zero_le _)
      · exact .bind .pushBack fun _ => .pure (Nat.zero_le _)

end Scaling

section Language

theorem readLanguage_firm (t : Token) : Firm (readLanguage deeper t) := fun _ => by
  have set : ∀ (id : ItemId) (language : Option String), Firm (do
      setDetails id (.language language)
      return id) := fun _ _ _ => .firm updateTree_firm fun _ => .pure (Nat.zero_le _)
  refine .firm add_firm fun id => .firm (readOne_firm deep) fun found => ?_
  cases found with
  | none => exact set id none _
  | some name =>
    refine .firm updateTree_firm fun _ => .tree fun tree => ?_
    split
    · refine .tree fun tree => ?_
      dsimp only
      split
      · exact .firm (setLanguage_firm _) fun _ => set id _ _
      · exact set id _ _
    · exact set id none _

theorem readInclusion_firm (t : Token) : Firm (readInclusion deeper t) := fun _ => by
  refine .firm (readOne_firm deep) fun name => .tree fun tree => ?_
  dsimp only
  split
  · exact .firm add_firm fun _ => .firm (setLanguage_firm _) fun _ => .firm updateTree_firm fun _ =>
      .firm appendIf_firm fun _ => .pure (Nat.zero_le _)
  · exact .firm add_firm fun _ => .firm appendIf_firm fun _ => .pure (Nat.zero_le _)

end Language

theorem readCommand_firm (k : Lily.Kind) (t : Token) : Firm (readCommand deeper k t) := by
  unfold readCommand
  split
  · exact readNotesAndMusic_firm deep .relative t 1
  · exact readArguments_firm deep .absolute t 1
  · exact readNotesAndMusic_firm deep .transpose t 2
  · exact readArguments_firm deep .keySignature t 2
  iterate 3 exact readScaler_firm deep t
  iterate 2 exact .free (readArguments_firm deep .tag t 3)
  iterate 3 exact .free (readArguments_firm deep .tag t 2)
  iterate 4 exact readArguments_firm deep .grace t 1
  · exact readAfterGrace_firm deep t
  · exact readAlternative_firm deep t
  · exact readTimeSignature_firm deep t
  · exact fun _ => .firm add_firm fun id => .firm (readDuration_firm id none) fun _ => .pure (Nat.zero_le _)
  · exact readArguments_firm deep .stringTuning t 1
  iterate 2 exact readParts_firm deep t
  · exact readLanguage_firm deep t
  · exact readInclusion_firm deep t
  · exact readArguments_firm deep .version t 1
  · exact add_firm

end ScoreText.Reading
