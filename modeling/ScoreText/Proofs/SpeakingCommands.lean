import ScoreText.Music.Reading.Command
import ScoreText.Proofs.SpeakingItems

/-! The language in effect in commands that take arguments. Two of them switch it: one names a language, and
one includes a file that is named after one. -/
namespace ScoreText.Reading

open Reader ScoreText.Tree

variable {configured : String} {o : Tree} {id : ItemId} {deeper : Deeper}

theorem readContextId_speaks (found : Option Attribute) : Speaks configured o (readContextId found) Whatever :=
  .loop_any fun _ => .pass next_silent fun next => by
    cases next with
    | none => exact .pure fun _ _ => trivial
    | some t =>
      dsimp only
      split
      · exact .skip (readString_speaks t) fun _ => .pure fun _ _ => trivial
      · split
        · exact .pure fun _ _ => trivial
        · split
          · exact .pure fun _ _ => trivial
          · exact .pass pushBack_silent fun _ => .pure fun _ _ => trivial

theorem readContext_speaks : Speaks configured o readContext Whatever := .pass nextItem_silent fun found => by
  cases found with
  | none => exact .pure fun _ _ => trivial
  | some context =>
    dsimp only
    split
    · refine .skip (.loop_any fun found => .pass next_silent fun next => ?_) fun _ => .pure fun _ _ => trivial
      cases next with
      | none => exact .pure fun _ _ => trivial
      | some t =>
        dsimp only
        split
        · exact .skip (readContextId_speaks found) fun _ => .pure fun _ _ => trivial
        · split
          · exact .pure fun _ _ => trivial
          · exact .pass pushBack_silent fun _ => .pure fun _ _ => trivial
    · exact .pass pushBack_silent fun _ => .pure fun _ _ => trivial

theorem readClef_speaks (t : Token) : Speaks configured o (readClef t) fun id u => u.Mute id := by
  have set : ∀ {u : Tree} {id : ItemId} (found : Option Attribute), u.Mute id → Speaks configured u (do
      setDetails id (.clef found)
      return id) fun id u => u.Mute id := fun _ mute => .skip (setDetails_speaks mute) fun _ => .pure_mute mute
  refine .bind (addFor_speaks rfl) fun id u _ mute => .pass nextItem_silent fun found => ?_
  cases found with
  | none => exact set none mute
  | some t =>
    dsimp only
    split
    · exact set _ mute
    · split
      · exact .skip (readString_speaks t) fun string => set _ mute
      · exact .pass pushBack_silent fun _ => set none mute

theorem readRatio_speaks (plain : o.Plain id) (isTuplet : Bool) :
    Speaks configured o (readRatio id isTuplet) Whatever :=
  .loop_any fun ratio => .pass next_silent fun found => by
    cases found with
    | none => exact .pure fun _ _ => trivial
    | some t =>
      dsimp only
      split
      · refine .bind (addFor_speaks rfl) fun _ u kept leaf =>
          .skip (append_speaks (plain.later kept) leaf.loose) fun _ => ?_
        split <;> exact .pure fun _ _ => trivial
      · split
        · exact .skip (readDuration_speaks plain _) fun _ => .pure fun _ _ => trivial
        · split
          · exact .pure fun _ _ => trivial
          · exact .pass pushBack_silent fun _ => .pure fun _ _ => trivial

theorem languageOfFile?_known {file l : String} (named : languageOfFile? file = some l) :
    PitchNames.isLanguage l := by
  unfold languageOfFile? at named
  dsimp only at named
  split at named
  · exact (Option.filter_eq_some_iff.mp named).2
  · cases named

variable (deep : ∀ o form t, Speaks configured o (deeper form t) (Hands o.size))
include deep

section Arguments

variable {kind : ItemKind} (mute : kind.mute)
include mute

theorem readArguments_speaks (t : Token) (count : Nat) :
    Speaks configured o (readArguments deeper kind t count) fun id u => u.Mute id :=
  .bind (addFor_speaks mute) fun _ _ _ mute => .skip (readArgumentsInto_speaks deep mute.plain count) fun _ =>
    .pure_mute mute

theorem readNotesAndMusic_speaks (t : Token) (notes : Nat) :
    Speaks configured o (readNotesAndMusic deeper kind t notes) fun id u => u.Mute id := by
  refine .bind (addFor_speaks mute) fun id u _ mute => .skip (.loop_any fun left => ?_) fun _ => .pure_mute mute
  refine .bind (readOne_speaks deep) fun child v kept hands => ?_
  cases child with
  | none => exact .pure fun _ _ => trivial
  | some child =>
    refine .skip (append_speaks (mute.plain.later kept) (hands.loose child rfl)) fun _ => .tree fun tree => ?_
    split <;> exact .pure fun _ _ => trivial

end Arguments

/-- The second argument is moved into an item of its own. It is no name of a language, for it was a child of
the item with the arguments. -/
theorem readAfterGrace_speaks (t : Token) :
    Speaks configured o (readAfterGrace deeper t) fun id u => u.Mute id := by
  refine .bind (readArguments_speaks deep rfl t 2) fun id u _ mute => .tree_at fun v _ kept voiced => ?_
  have mute := mute.later kept
  dsimp only
  split
  · rename_i first second children
    have loose : v.Loose second := voiced.loose (by rw [children]; simp) mute.plain.language
    exact .tree fun _ => .bind (add_speaks rfl) fun grace w further grown =>
      .skip (append_speaks grown.plain (loose.later further)) fun _ =>
        .skip (append_speaks (mute.plain.later further) grown.loose) fun _ => .pure_mute (mute.later further)
  · exact .pure_mute mute

theorem readParts_speaks (t : Token) : Speaks configured o (readParts deeper t) fun id u => u.Mute id :=
  .bind (addFor_speaks rfl) fun _ _ _ mute =>
    .into (.free (readOne_speaks deep)) mute.plain fun _ kept =>
      have mute := mute.later kept
      .into (.free (readOne_speaks deep)) mute.plain fun _ further => .pure_mute (mute.later further)

theorem readAlternative_speaks (t : Token) : Speaks configured o (readAlternative deeper t) fun id u => u.Mute id :=
  .bind (addFor_speaks rfl) fun _ _ _ mute => .into (readOne_speaks deep) mute.plain fun _ kept =>
    .pure_mute (mute.later kept)

theorem readSettingsAndMusicInto_speaks (plain : o.Plain id) :
    Speaks configured o (readSettingsAndMusicInto deeper id) Whatever :=
  .loop_any fun _ => .bind (readOne_speaks deep) fun child u kept hands => by
    cases child with
    | none => exact .pure fun _ _ => trivial
    | some child =>
      refine .skip (append_speaks (plain.later kept) (hands.loose child rfl)) fun _ => .tree fun tree => ?_
      split <;> exact .pure fun _ _ => trivial

theorem readTranslator_speaks (t : Token) : Speaks configured o (readTranslator deeper t) fun id u => u.Mute id := by
  have kind : (if t.text == "\\change" then ItemKind.change else .context).mute := by split <;> rfl
  refine .bind (addFor_speaks kind) fun id u _ mute => .skip (.bounded readContext_speaks) fun out =>
    .skip (setDetails_speaks mute) fun _ => ?_
  dsimp only
  split
  · exact .skip (readSettingsAndMusicInto_speaks deep mute.plain) fun _ => .pure_mute mute
  · exact .pure_mute mute

section Tempo

theorem readTempoPart_speaks (plain : o.Plain id) (p : TempoParts) (t : Token) :
    Speaks configured o (readTempoPart deeper id p t) Whatever := by
  have item : ∀ q : TempoParts, Speaks configured o (do
      appendIf id (← free (deeper .item t))
      return q) Whatever := fun q => .into (.free (deep o .item t)) plain fun _ _ => .pure fun _ _ => trivial
  unfold readTempoPart
  split
  · split
    · exact item _
    · split
      · exact .skip (readDuration_speaks plain _) fun _ => .pure fun _ _ => trivial
      · split
        · exact .skip setTokens_speaks fun _ => .pure fun _ _ => trivial
        · exact .pure fun _ _ => trivial
  · split
    · exact item _
    · split
      · exact .skip addToken_speaks fun _ => .pure fun _ _ => trivial
      · exact .pure fun _ _ => trivial

theorem readTempo_speaks (t : Token) : Speaks configured o (readTempo deeper t) fun id u => u.Mute id := by
  refine .bind (addFor_speaks rfl) fun id u _ mute => .skip (.bounded (P := Whatever) ?_) fun _ => .pure_mute mute
  refine .skip (.loop_any fun p => .pass next_silent fun found => ?_) fun p => ?_
  · cases found with
    | none => exact .pure fun _ _ => trivial
    | some t => exact .skip (readTempoPart_speaks deep mute.plain p t) fun _ => .pure fun _ _ => trivial
  · split
    · exact .silent pushBack_silent
    · exact .pure fun _ _ => trivial

end Tempo

section Repeat

theorem readRepeatedMusic_speaks (plain : o.Plain id) : Speaks configured o (readRepeatedMusic deeper id) Whatever := by
  refine .into (readOne_speaks deep) plain fun u kept => .pass nextItem_silent fun found => ?_
  cases found with
  | none => exact .pure fun _ _ => trivial
  | some t =>
    dsimp only
    split
    · exact .bind (readAlternative_speaks deep t) fun _ v further alternative =>
        append_speaks (plain.later (kept.trans further)) alternative.loose
    · exact .silent pushBack_silent

theorem readRepeatPart_speaks (plain : o.Plain id) (p : RepeatParts) (t : Token) :
    Speaks configured o (readRepeatPart deeper id p t) Whatever := by
  unfold readRepeatPart
  split
  · exact .pure fun _ _ => trivial
  · split
    · exact .skip (readString_speaks t) fun _ => .pure fun _ _ => trivial
    · split
      · exact .pure fun _ _ => trivial
      · split
        · refine .bind (readQuoting_speaks deep rfl t) fun _ u kept scheme => ?_
          split
          · exact .pure fun _ _ => trivial
          · split
            · exact .pure fun _ _ => trivial
            · exact .skip (append_speaks (plain.later kept) scheme.loose) fun _ => .pure fun _ _ => trivial
        · exact .pass pushBack_silent fun _ => .skip (readRepeatedMusic_speaks deep plain) fun _ =>
            .pure fun _ _ => trivial

theorem readRepeat_speaks (t : Token) : Speaks configured o (readRepeat deeper t) fun id u => u.Mute id := by
  refine .bind (addFor_speaks rfl) fun id u _ mute =>
    .skip (.loop_any fun p => .pass nextItem_silent fun found => ?_) fun _ =>
      .skip (setDetails_speaks mute) fun _ => .pure_mute mute
  cases found with
  | none => exact .pure fun _ _ => trivial
  | some t => exact readRepeatPart_speaks deep mute.plain p t

end Repeat

section Scaling

theorem readFactor_speaks (plain : o.Plain id) : Speaks configured o (readFactor deeper id) Whatever := by
  refine .bind (readOne_speaks deep) fun found u kept hands => ?_
  cases found with
  | none => exact .pure fun _ _ => trivial
  | some value =>
    exact .skip (append_speaks (plain.later kept) (hands.loose value rfl)) fun _ => .tree fun _ =>
      .pure fun _ _ => trivial

theorem readScaler_speaks (t : Token) : Speaks configured o (readScaler deeper t) fun id u => u.Mute id := by
  have finish : ∀ {u : Tree} {id : ItemId} (ratio : Ratio), u.Mute id → Speaks configured u (do
      setDetails id (.scaler ratio.numerator ratio.denominator ratio.scaling)
      appendIf id (← readOne deeper)
      return id) fun id u => u.Mute id := fun _ mute =>
    .skip (setDetails_speaks mute) fun _ => .into (readOne_speaks deep) mute.plain fun _ kept =>
      .pure_mute (mute.later kept)
  refine .bind (addFor_speaks rfl) fun id u _ mute => ?_
  dsimp only
  split
  · exact .skip (readFactor_speaks deep mute.plain) fun ratio => finish ratio mute
  · exact .skip (readRatio_speaks mute.plain _) fun ratio => finish ratio mute

theorem readTimeSignature_speaks (t : Token) :
    Speaks configured o (readTimeSignature deeper t) fun id u => u.Mute id := by
  refine .bind (addFor_speaks rfl) fun id u _ mute =>
    .skip (.loop_any fun p => .pass nextItem_silent fun found => ?_) fun _ =>
      .skip (setDetails_speaks mute) fun _ => .pure_mute mute
  cases found with
  | none => exact .pure fun _ _ => trivial
  | some t =>
    dsimp only
    split
    · exact .skip (readQuoting_speaks deep rfl t) fun _ => .pure fun _ _ => trivial
    · split
      · exact .pure fun _ _ => trivial
      · exact .pass pushBack_silent fun _ => .pure fun _ _ => trivial

end Scaling

section Language

theorem readLanguage_speaks (t : Token) :
    Speaks configured o (readLanguage deeper t) fun id u => u.Handed o.size id := by
  intro r _ voiced
  have turned : ∀ r' : Reader, r.tree.Turned r'.tree r.tree.size configured r'.language →
      Heard configured r r' ∧ r'.tree.Handed o.size r.tree.size :=
    fun _ turned => ⟨⟨turned.kept, turned.voiced⟩, turned.handed⟩
  rw [readLanguage, run_bind, addFor_run, run_bind]
  obtain ⟨unnamed, added⟩ := voiced.unnamed t.start (some t)
  generalize here : ({ r with tree := r.tree.push (.single .language t.start (some t)) } : Reader) = r0
  have unnamed : r.tree.Unnamed r0.tree r.tree.size := by rwa [← here]
  have added : r0.tree.Voiced configured r0.language := by rwa [← here]
  obtain ⟨heard, hands⟩ := readOne_speaks deep r0 (.refl _) added
  generalize (readOne deeper).run r0 = out at heard hands ⊢
  obtain ⟨found, r1⟩ := out
  have unnamed : r.tree.Unnamed r1.tree r.tree.size := unnamed.later heard.kept
  have voiced : r1.tree.Voiced configured r1.language := heard.voiced
  cases found with
  | none => exact turned _ (unnamed.close voiced (.language none) fun _ => nofun)
  | some name =>
    have handed : r1.tree.Handed r.tree.size name := (hands name rfl).mono (by simp [← here, size_push])
    have blank := unnamed.named handed
    have goes_on := unnamed.goes_on voiced handed
    dsimp only
    rw [run_bind, run_bind]
    split
    · rename_i is
      have string : r1.tree.kind name = .string := (kind_append r1.tree r.tree.size name name).symm.trans (eq_of_beq is)
      rw [run_bind]
      generalize value : Tree.unquoted _ name = l
      split
      · rename_i known
        exact turned { r1 with language := l, tree := _ } (unnamed.switch voiced handed string known)
      · rename_i unknown
        refine turned { r1 with tree := _ } (blank.close goes_on (.language (some l)) fun l same => ?_)
        cases same
        exact unknown
    · exact turned { r1 with tree := _ } (blank.close goes_on (.language none) fun _ => nofun)

theorem readInclusion_speaks (t : Token) :
    Speaks configured o (readInclusion deeper t) fun id u => u.Handed o.size id := by
  intro r _ voiced
  rw [readInclusion, run_bind, run_bind]
  obtain ⟨heard, hands⟩ := readOne_speaks deep r (.refl _) voiced
  generalize (readOne deeper).run r = out at heard hands ⊢
  obtain ⟨found, r1⟩ := out
  have kept : r.tree.Kept r1.tree := heard.kept
  have voiced : r1.tree.Voiced configured r1.language := heard.voiced
  have plain : Speaks configured r1.tree (do
      let id ← addFor .inclusion t
      appendIf id found
      return id) fun id u => u.Mute id := .bind (addFor_speaks rfl) fun _ _ kept mute =>
    .skip (appendIf_speaks mute.plain fun c member => (hands.loose c member).later kept) fun _ => .pure_mute mute
  dsimp only
  split
  · rename_i language file
    obtain ⟨value, named, known⟩ := Option.bind_eq_some_iff.mp file
    obtain ⟨name, is, -⟩ := Option.map_eq_some_iff.mp named
    obtain ⟨rfl, string⟩ := Option.filter_eq_some_iff.mp is
    have string : r1.tree.kind name = .string := eq_of_beq string
    have known := languageOfFile?_known known
    have handed : r1.tree.Handed r.tree.size name := hands name rfl
    obtain ⟨unnamed, added⟩ := voiced.unnamed t.start (some t)
    have string := (unnamed.kept.kind name handed.loose.inside).trans string
    have turned := (unnamed.since kept).switch added (handed.push voiced t.start (some t)) string known
    rw [← append_details] at turned
    exact ⟨⟨turned.kept, turned.voiced⟩, turned.handed⟩
  · obtain ⟨more, mute⟩ := plain r1 (.refl _) voiced
    exact ⟨⟨kept.trans more.kept, more.voiced⟩, mute.handed⟩

end Language

theorem readCommand_speaks (k : Lily.Kind) (t : Token) :
    Speaks configured o (readCommand deeper k t) fun id u => u.Handed o.size id := by
  have mutes : ∀ {x : Reading ItemId}, Speaks configured o x (fun id u => u.Mute id) →
      Speaks configured o x fun id u => u.Handed o.size id := fun speaks => speaks.mono fun _ _ _ mute => mute.handed
  unfold readCommand
  split
  · exact mutes (readNotesAndMusic_speaks deep rfl t 1)
  · exact mutes (readArguments_speaks deep rfl t 1)
  · exact mutes (readNotesAndMusic_speaks deep rfl t 2)
  · exact mutes (readArguments_speaks deep rfl t 2)
  iterate 3 exact mutes (readScaler_speaks deep t)
  iterate 2 exact mutes (.free (readArguments_speaks deep rfl t 3))
  iterate 3 exact mutes (.free (readArguments_speaks deep rfl t 2))
  iterate 4 exact mutes (readArguments_speaks deep rfl t 1)
  · exact mutes (readAfterGrace_speaks deep t)
  · exact mutes (readAlternative_speaks deep t)
  · exact mutes (readTimeSignature_speaks deep t)
  · exact mutes (.bind (addFor_speaks rfl) fun id _ _ mute => .skip (readDuration_speaks mute.plain none) fun _ =>
      .pure_mute mute)
  · exact mutes (readArguments_speaks deep rfl t 1)
  iterate 2 exact mutes (readParts_speaks deep t)
  · exact readLanguage_speaks deep t
  · exact readInclusion_speaks deep t
  · exact mutes (readArguments_speaks deep rfl t 1)
  · exact mutes (addFor_speaks (by split <;> rfl))

end ScoreText.Reading
