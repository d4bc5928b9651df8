import ScoreText.Proofs.ExtentNotes

/-! How far settings, blocks and commands with arguments are read. -/
namespace ScoreText

open Reading Stand

namespace Reading

variable {deeper : Deeper} {limit : Option Nat} {rest : List ScannedToken} {m : Nat} {u : ScannedToken}
  {source : Source} {id : ItemId}

section Strings

theorem readString_stays (kind : u.token.kind = .lily .stringQuotedStart) :
    Leads (Taken limit rest m u) (readString u.token) fun _ => In limit rest m :=
  .enclosed (by simp [Token.opens, Token.opensLily, kind]) fun _ _ =>
    (readString_leads _).mono fun _ _ => And.left

theorem readScheme_stays (contained : Contained deeper) (kind : u.token.kind = .lily .schemeStart) :
    Leads (Taken limit rest m u) (readScheme deeper u.token) fun _ => In limit rest m :=
  .enclosed (by simp [Token.opens, Token.opensLily, kind]) fun _ _ => readScheme_leads contained _

end Strings

section Settings

theorem readWhile_leads {ks : List Lily.Kind} {act : Token → Reading Unit} (still : ∀ t, Still (act t)) :
    Leads (In limit rest m) (readWhile ks act) (Got limit rest m) := by
  refine .asking (I := fun _ _ => True) (fun _ => nextItem_leads) trivial (fun _ _ _ _ _ => trivial)
    (fun _ j le _ => .pure fun s here => ⟨here.1.mono le, here.2⟩) fun _ v j less => ?_
  dsimp only
  split
  · exact .still_bind (still _) fun _ => .pure fun s taken => ⟨trivial, taken.in⟩
  · exact .pure fun s taken => ⟨v, j, rfl, less, taken⟩

theorem readUnset_leads (t : Token) :
    Leads (Apart rest m u source) (readUnset t) fun _ => Done rest m u source := by
  refine .still_bind addFor_still fun id => .bind (.region ?_) fun _ => .pure fun _ done => done
  refine .bind (readWhile_leads fun _ => addToken_still) (.got (.pure fun _ here => here.1) fun v j less => ?_)
  exact .pushBack_last less

theorem addPathStep_still {t : Token} : Still (addPathStep id t) :=
  .bind addFor_still fun _ => append_still

variable (contained : Contained deeper)
include contained

theorem readSet_leads (t : Token) : Leads (In limit rest m) (readSet deeper t) fun _ => In limit rest m := by
  refine .still_bind addFor_still fun id => .bind (Q := fun _ => In limit rest m) ?_ fun _ => .pure fun _ here => here
  refine .loop (I := fun _ => In limit rest m) fun ts => .nextItem (.pure fun _ here => here.1) fun v j less => ?_
  dsimp only
  split
  · refine .before (P := In limit rest j) (.still_bind setTokens_still fun _ => ?_) fun _ taken => taken.in
    refine .bind (readOne_leads contained) fun child => .still_bind appendIf_still fun _ => ?_
    exact .pure fun _ here => here.mono (Nat.le_of_lt less)
  · exact .pure fun _ taken => taken.in.mono (Nat.le_of_lt less)

theorem readRevert_leads (t : Token) :
    Leads (Apart rest m u source) (readRevert deeper t) fun _ => Done rest m u source := by
  refine .still_bind addFor_still fun id => .bind (.region ?_) fun _ => .pure fun _ done => done
  refine .bind (readWhile_leads fun _ => addPathStep_still) (.got (.pure fun _ here => here.1) fun v j less => ?_)
  refine .tree fun tree => ?_
  split
  · rename_i scheme
    have kind : v.token.kind = .lily .schemeStart := eq_of_beq (Bool.and_eq_true_iff.mp scheme).1
    refine .bind (readScheme_stays contained kind) fun scheme => ?_
    exact (Leads.still append_still).within (Nat.le_of_lt less)
  · exact .pushBack_last less

end Settings

section Blocks

variable (contained : Contained deeper)
include contained

theorem readBlockInto_leads : Leads (In limit rest m) (readBlockInto deeper id) fun _ => In limit rest m := by
  refine .loop (I := fun _ => In limit rest m) fun _ => .next (.pure fun _ here => here.1) fun v j less => ?_
  dsimp only
  split
  · rename_i opens
    refine .still_bind setTokens_still fun _ => ?_
    refine .bind (readRegion_leads contained (opens_of_opensBlock opens)) fun _ => ?_
    exact .pure fun _ here => here.mono (Nat.le_of_lt less)
  · split
    · exact .pure fun _ taken => taken.in.mono (Nat.le_of_lt less)
    · exact .pushBack less (.pure fun _ here => here)

theorem readBlock_leads (kind : ItemKind) (t : Token) :
    Leads (In limit rest m) (readBlock deeper kind t) fun _ => In limit rest m := by
  refine .still_bind addFor_still fun id => .bind (readBlockInto_leads contained) fun found => ?_
  dsimp only
  split
  · refine .bind (readOne_leads contained) fun child => .still_bind appendIf_still fun _ => ?_
    exact .pure fun _ here => here
  · exact .pure fun _ here => here

end Blocks

section Arguments

variable (contained : Contained deeper)
include contained

theorem readArguments_leads (kind : ItemKind) (t : Token) (count : Nat) :
    Leads (In limit rest m) (readArguments deeper kind t count) fun _ => In limit rest m :=
  .still_bind addFor_still fun _ => .bind (readArgumentsInto_leads contained count) fun _ =>
    .pure fun _ here => here

theorem readNotesAndMusic_leads (kind : ItemKind) (t : Token) (notes : Nat) :
    Leads (In limit rest m) (readNotesAndMusic deeper kind t notes) fun _ => In limit rest m := by
  refine .still_bind addFor_still fun id => .bind (Q := fun _ => In limit rest m) ?_ fun _ => .pure fun _ here => here
  refine .loop (I := fun _ => In limit rest m) fun n => .bind (readOne_leads contained) fun child => ?_
  cases child with
  | none => exact .pure fun _ here => here
  | some c =>
    refine .still_bind append_still fun _ => .tree fun tree => ?_
    split
    · exact .pure fun _ here => here
    · exact .pure fun _ here => here

theorem readAfterGrace_leads (t : Token) :
    Leads (In limit rest m) (readAfterGrace deeper t) fun _ => In limit rest m := by
  refine .bind (readArguments_leads contained .afterGrace t 2) fun id => .tree fun tree => ?_
  split
  · exact .tree fun _ => .still_bind add_still fun grace => .still_bind append_still fun _ =>
      .still_bind append_still fun _ => .pure fun _ here => here
  · exact .pure fun _ here => here

theorem readAlternative_leads (t : Token) :
    Leads (In limit rest m) (readAlternative deeper t) fun _ => In limit rest m :=
  .still_bind addFor_still fun _ => .bind (readOne_leads contained) fun _ =>
    .still_bind appendIf_still fun _ => .pure fun _ here => here

theorem readSettingsAndMusicInto_leads :
    Leads (In limit rest m) (readSettingsAndMusicInto deeper id) fun _ => In limit rest m := by
  refine .loop (I := fun _ => In limit rest m) fun _ => .bind (readOne_leads contained) fun child => ?_
  cases child with
  | none => exact .pure fun _ here => here
  | some c =>
    refine .still_bind append_still fun _ => .tree fun tree => ?_
    split
    · exact .pure fun _ here => here
    · exact .pure fun _ here => here

end Arguments

section Contexts

theorem readContextId_leads (found : Option Attribute) :
    Leads (In limit rest m) (readContextId found) fun _ => In limit rest m := by
  refine .loop (I := fun _ => In limit rest m) fun found => .next (.pure fun _ here => here.1) fun v j less => ?_
  dsimp only
  split
  · rename_i string
    refine .bind (readString_stays (eq_of_beq string)) fun name => ?_
    exact .pure fun _ here => here.mono (Nat.le_of_lt less)
  · split
    · exact .pure fun _ taken => taken.in.mono (Nat.le_of_lt less)
    · split
      · exact .pure fun _ taken => taken.in.mono (Nat.le_of_lt less)
      · exact .pushBack less (.pure fun _ here => here)

theorem readContext_leads : Leads (In limit rest m) readContext fun _ => In limit rest m := by
  refine .nextItem (.pure fun _ here => here.1) fun v j less => ?_
  dsimp only
  split
  · refine .before (P := In limit rest m) (.bind (Q := fun _ => In limit rest m) ?_ fun _ =>
      .pure fun _ here => here) fun _ taken => taken.in.mono (Nat.le_of_lt less)
    refine .loop (I := fun _ => In limit rest m) fun found => .next (.pure fun _ here => here.1) fun w i lower => ?_
    have later : ∀ s, Taken limit rest i w s → s.In limit rest m :=
      fun _ taken => taken.in.mono (Nat.le_of_lt lower)
    dsimp only
    split
    · exact .before (.bind (readContextId_leads found) fun _ => .pure fun _ here => here) later
    · split
      · exact .pure later
      · exact .pushBack lower (.pure fun _ here => here)
  · exact .pushBack less (.pure fun _ here => here)

theorem readTranslator_leads (contained : Contained deeper) (opens : u.token.opens) :
    Leads (Taken limit rest m u) (readTranslator deeper u.token) fun _ => In limit rest m := by
  refine .still_bind addFor_still fun id => ?_
  refine .bind (.enclosed opens fun _ _ => .region readContext_leads) fun out => ?_
  refine .still_bind setDetails_still fun _ => ?_
  dsimp only
  split
  · exact .bind (readSettingsAndMusicInto_leads contained) fun _ => .pure fun _ here => here
  · exact .pure fun _ here => here

theorem readClef_leads (t : Token) : Leads (In limit rest m) (readClef t) fun _ => In limit rest m := by
  refine .still_bind addFor_still fun id => ?_
  have last : ∀ specifier, Leads (In limit rest m) (do
      setDetails id (.clef specifier)
      return id) fun _ => In limit rest m := fun _ => .still_bind setDetails_still fun _ => .pure fun _ here => here
  refine .nextItem (.before (last none) fun _ here => here.1) fun v j less => ?_
  dsimp only
  split
  · exact .before (last _) fun _ taken => taken.in.mono (Nat.le_of_lt less)
  · split
    · rename_i string
      refine .bind (readString_stays (eq_of_beq string)) fun name => ?_
      exact .before (last _) fun _ here => here.mono (Nat.le_of_lt less)
    · exact .pushBack less (last none)

end Contexts

section Tempos

theorem apart_of_startsTempoText {t : Token} (starts : startsTempoText t) : t.isApart := by
  unfold startsTempoText at starts
  split at starts
  · rename_i k kind
    simp only [Token.isApart, kind]
    cases k <;> first | rfl | cases starts
  · cases starts

theorem apart_of_tempoNumber {t : Token} (number : isOne [.integerValue, .schemeStart] t) : t.isApart := by
  unfold isOne at number
  split at number
  · rename_i k kind
    simp only [Token.isApart, kind]
    cases k <;> first | rfl | cases number
  · cases number

theorem readTempoPart_leads (contained : Contained deeper) (p : TempoParts) :
    Leads (Taken limit rest m u) (readTempoPart deeper id p u.token) fun _ => In limit rest m := by
  unfold readTempoPart
  have part : ∀ q : TempoParts, u.token.isApart → Leads (Taken limit rest m u) (do
      appendIf id (← free (deeper .item u.token))
      return q) fun _ => In limit rest m := fun _ apart =>
    .bind (contained.freely limit rest m u apart) fun _ => .still_bind appendIf_still fun _ => .pure fun _ here => here
  split
  · split
    · rename_i text
      exact part _ (apart_of_startsTempoText (Bool.and_eq_true_iff.mp text).2)
    · split
      · refine .before (P := In limit rest m) ?_ fun _ taken => taken.in
        exact .bind (readDuration_leads _) fun _ => .pure fun _ here => here
      · split
        · exact .still_bind setTokens_still fun _ => .pure fun _ taken => taken.in
        · exact .pure fun _ taken => taken.in
  · split
    · rename_i number
      exact part _ (apart_of_tempoNumber number)
    · split
      · exact .still_bind addToken_still fun _ => .pure fun _ taken => taken.in
      · exact .pure fun _ taken => taken.in

/-- The last token of a tempo may be given back, but no token that was taken before it. -/
theorem readTempo_leads (contained : Contained deeper) (t : Token) :
    Leads (Apart rest m u source) (readTempo deeper t) fun _ => Done rest m u source := by
  refine .still_bind addFor_still fun id => .bind (Q := fun _ => Done rest m u source) ?_ fun _ =>
    .pure fun _ done => done
  refine (Leads.bounded_in (Q := fun _ => UpTo (some u.depth) rest m) fun outer => ?_).mono
    fun _ _ done => ⟨done.1, done.2⟩
  refine .bind (.asking (I := fun (p : TempoParts) j => p.unused.isSome → j < m)
    (Q := fun p s => s.In (some u.depth) rest m ∧ s.Ended rest ∧ (p.unused.isSome → s.ahead.length < m))
    (fun _ => next_leads) nofun ?_ ?_ ?_) fun p => ?_
  · exact fun _ _ _ le known used => Nat.lt_of_le_of_lt le (known used)
  · intro p j le known
    refine .pure fun s here => ⟨here.1.mono le, here.2, fun used => ?_⟩
    exact Nat.lt_of_le_of_lt here.1.place.short (known used)
  · intro p v j less
    exact .bind (readTempoPart_leads contained p) fun q => .pure fun s here => ⟨fun _ => less, here⟩
  · rintro r ⟨here, ended, short⟩
    split
    · rename_i used
      have used : p.unused.isSome := by
        cases unused : p.unused with
        | some t => rfl
        | none => simp [unused] at used
      cases current : r.current? with
      | none => exact absurd (here.place.known current).2 (by simp)
      | some v =>
        have place := (pushBack_place (here.place.bound (Nat.le_refl _)) ended.pushed current).1
        exact (place.bound (Nat.le_trans place.short (short used))).switch outer
    · exact here.place.switch outer

end Tempos

section Repeats

variable (contained : Contained deeper)
include contained

theorem readRepeatedMusic_leads : Leads (In limit rest m) (readRepeatedMusic deeper id) fun _ => In limit rest m := by
  refine .bind (readOne_leads contained) fun child => .still_bind appendIf_still fun _ => ?_
  refine .nextItem (.pure fun _ here => here.1) fun v j less => ?_
  dsimp only
  split
  · refine .before (P := In limit rest m) ?_ fun _ taken => taken.in.mono (Nat.le_of_lt less)
    exact .bind (readAlternative_leads contained _) fun _ => .still append_still
  · exact .pushBack_last less

theorem readRepeatPart_leads (p : RepeatParts) :
    Leads (Taken limit rest m u) (readRepeatPart deeper id p u.token) fun _ => In limit rest (m + 1) := by
  unfold readRepeatPart
  have later : ∀ s, Taken limit rest m u s → s.In limit rest (m + 1) := fun _ taken => taken.in.mono (Nat.le_succ m)
  have behind : ∀ s, In limit rest m s → s.In limit rest (m + 1) := fun _ here => here.mono (Nat.le_succ m)
  split
  · exact .pure later
  · split
    · rename_i string
      refine .bind (readString_stays (eq_of_beq (Bool.and_eq_true_iff.mp string).1)) fun name => ?_
      exact .pure behind
    · split
      · exact .pure later
      · split
        · rename_i scheme
          refine .bind (readScheme_stays contained (eq_of_beq scheme)) fun value => ?_
          split
          · exact .pure behind
          · split
            · exact .pure behind
            · exact .still_bind append_still fun _ => .pure behind
        · refine .pushBack (Nat.lt_succ_self m) ?_
          exact .bind (readRepeatedMusic_leads contained) fun _ => .pure fun _ here => here

theorem readRepeat_leads (t : Token) : Leads (In limit rest m) (readRepeat deeper t) fun _ => In limit rest m := by
  refine .still_bind addFor_still fun id => .bind (Q := fun _ => In limit rest m) ?_ fun p =>
    .still_bind setDetails_still fun _ => .pure fun _ here => here
  refine .loop (I := fun _ => In limit rest m) fun p => .nextItem (.pure fun _ here => here.1) fun v j less => ?_
  exact (readRepeatPart_leads contained p).within less

end Repeats

section Numbers

theorem setLanguage_still {language : String} : Still (setLanguage language) :=
  fun _ => rfl

theorem readRatio_leads (isTuplet : Bool) :
    Leads (In limit rest m) (readRatio id isTuplet) fun _ => In limit rest m := by
  refine .loop (I := fun _ => In limit rest m) fun ratio => .next (.pure fun _ here => here.1) fun v j less => ?_
  have later : ∀ s, Taken limit rest j v s → s.In limit rest m := fun _ taken => taken.in.mono (Nat.le_of_lt less)
  dsimp only
  split
  · refine .still_bind addFor_still fun number => .still_bind append_still fun _ => ?_
    split
    · exact .pure later
    · exact .pure later
  · split
    · exact .before (.bind (readDuration_leads _) fun _ => .pure fun _ here => here) later
    · split
      · exact .pure later
      · exact .pushBack less (.pure fun _ here => here)

variable (contained : Contained deeper)
include contained

theorem readFactor_leads : Leads (In limit rest m) (readFactor deeper id) fun _ => In limit rest m := by
  refine .bind (readOne_leads contained) fun value => ?_
  cases value with
  | none => exact .pure fun _ here => here
  | some c => exact .still_bind append_still fun _ => .tree fun _ => .pure fun _ here => here

theorem readScaler_leads (t : Token) : Leads (In limit rest m) (readScaler deeper t) fun _ => In limit rest m := by
  refine .still_bind addFor_still fun id => ?_
  have last : ∀ ratio : Ratio, Leads (In limit rest m) (do
      setDetails id (.scaler ratio.numerator ratio.denominator ratio.scaling)
      appendIf id (← readOne deeper)
      return id) fun _ => In limit rest m := fun _ => .still_bind setDetails_still fun _ =>
    .bind (readOne_leads contained) fun _ => .still_bind appendIf_still fun _ => .pure fun _ here => here
  dsimp only
  split
  · exact .bind (readFactor_leads contained) last
  · exact .bind (readRatio_leads _) last

theorem readTimeSignature_leads (t : Token) :
    Leads (In limit rest m) (readTimeSignature deeper t) fun _ => In limit rest m := by
  refine .still_bind addFor_still fun id => .bind (Q := fun _ => In limit rest m) ?_ fun p =>
    .still_bind setDetails_still fun _ => .pure fun _ here => here
  refine .loop (I := fun _ => In limit rest m) fun p => .nextItem (.pure fun _ here => here.1) fun v j less => ?_
  dsimp only
  split
  · rename_i scheme
    refine .bind (readScheme_stays contained (eq_of_beq scheme)) fun beats => ?_
    exact .pure fun _ here => here.mono (Nat.le_of_lt less)
  · split
    · exact .pure fun _ taken => taken.in.mono (Nat.le_of_lt less)
    · exact .pushBack less (.pure fun _ here => here)

theorem readLanguage_leads (t : Token) :
    Leads (In limit rest m) (readLanguage deeper t) fun _ => In limit rest m := by
  refine .still_bind addFor_still fun id => ?_
  have last : ∀ language, Leads (In limit rest m) (do
      setDetails id (.language language)
      return id) fun _ => In limit rest m := fun _ => .still_bind setDetails_still fun _ => .pure fun _ here => here
  refine .bind (readOne_leads contained) fun child => ?_
  cases child with
  | none => exact last none
  | some name =>
    refine .still_bind append_still fun _ => .tree fun tree => ?_
    split
    · refine .tree fun tree => ?_
      dsimp only
      split
      · exact .still_bind setLanguage_still fun _ => last _
      · exact last _
    · exact last none

theorem readInclusion_leads (t : Token) :
    Leads (In limit rest m) (readInclusion deeper t) fun _ => In limit rest m := by
  refine .bind (readOne_leads contained) fun name => .tree fun before => ?_
  dsimp only
  split
  · refine .still_bind addFor_still fun id => .still_bind setLanguage_still fun _ => ?_
    exact .still_bind setDetails_still fun _ => .still_bind appendIf_still fun _ => .pure fun _ here => here
  · exact .still_bind addFor_still fun id => .still_bind appendIf_still fun _ => .pure fun _ here => here

end Numbers

/-- The commands that look for their arguments in all tokens that remain are not tame. -/
theorem readCommand_leads (contained : Contained deeper) {k : Lily.Kind} (kind : u.token.kind = .lily k)
    (command : k = .command ∨ k = .pitchCommand ∨ k = .keyword) :
    Leads (Taken limit rest m u) (readCommand deeper k u.token) fun _ => In limit rest m := by
  refine .tame fun tame => .before (P := In limit rest m) ?_ fun _ taken => taken.in
  have wild : ∀ text, u.token.text = text → text ∈ ["\\appendToTag", "\\pushToTag", "\\tag", "\\keepWithTag",
      "\\removeWithTag", "\\partCombine", "\\partcombine"] → False := by
    intro text same member
    subst same
    rcases command with rfl | rfl | rfl <;> simp [Token.isTame, kind, member] at tame
  unfold readCommand
  split
  · exact readNotesAndMusic_leads contained _ _ _
  · exact readArguments_leads contained _ _ _
  · exact readNotesAndMusic_leads contained _ _ _
  · exact readArguments_leads contained _ _ _
  iterate 3 exact readScaler_leads contained _
  iterate 5
    rename_i text
    exact (wild _ text (by simp)).elim
  iterate 4 exact readArguments_leads contained _ _ _
  · exact readAfterGrace_leads contained _
  · exact readAlternative_leads contained _
  · exact readTimeSignature_leads contained _
  · exact .still_bind addFor_still fun id => .bind (readDuration_leads none) fun _ => .pure fun _ here => here
  · exact readArguments_leads contained _ _ _
  iterate 2
    rename_i text
    exact (wild _ text (by simp)).elim
  · exact readLanguage_leads contained _
  · exact readInclusion_leads contained _
  · exact readArguments_leads contained _ _ _
  · exact .still addFor_still

end Reading
end ScoreText
