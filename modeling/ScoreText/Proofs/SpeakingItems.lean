import ScoreText.Music.Reading.Note
import ScoreText.Music.Reading.Setting
import ScoreText.Proofs.MusicReading
import ScoreText.Proofs.Speaking

/-! The language in effect in music and in settings. A note is read in the language that the reader has, and
that is the one in effect where the note stands. -/
namespace ScoreText

/-- A pitch as its name says, whatever its octave. -/
structure Pitch.Spelled (note : Nat) (alter : Fraction) (pitch : Pitch) : Prop where
  note : pitch.note = note
  alter : pitch.alter = alter

namespace Reading

open Reader ScoreText.Tree

variable {α β : Type} {configured : String} {o : Tree} {id : ItemId} {n : Nat} {deeper : Deeper}

section Durations

theorem readDurationTokens_silent (taken : List Token) : Silent (readDurationTokens taken) :=
  .loop (fun ts => .bind next_silent fun found => by
    cases found with
    | none => exact .pure _
    | some t =>
      dsimp only
      split
      · split
        · exact .bind pushBack_silent fun _ => .pure _
        · exact .pure _
      · split
        · exact .pure _
        · exact .bind pushBack_silent fun _ => .pure _) _

theorem readDuration_speaks (plain : o.Plain id) (length : Option Token) :
    Speaks configured o (readDuration id length) Whatever := by
  have own : ∀ u : Tree, Speaks configured u (do
      let duration := (← get).duration
      update id fun i => { i with duration := some duration }) Whatever :=
    fun _ => .get fun _ => setDuration_speaks
  refine .pass (readDurationTokens_silent _) fun ts => ?_
  cases ts with
  | nil => exact own o
  | cons first rest =>
    refine .bind (addFor_speaks rfl) fun written u kept mute => .skip setTokens_speaks fun _ =>
      .skip (append_speaks (plain.later kept) mute.loose) fun _ => ?_
    dsimp only
    split
    · exact .pass (fun _ => ⟨rfl, rfl⟩) fun _ => own u
    · exact own u

theorem readOwnDuration_speaks (inPitchCommand : Bool) (plain : o.Plain id) (kind : o.kind id ≠ .string) :
    Speaks configured o (readOwnDuration inPitchCommand id) (Hands n) := by
  have done : Speaks configured o (pure (some id) : Reading (Option ItemId)) (Hands n) := .pure fun u kept c same => by
    obtain rfl := Option.mem_some_iff.mp same
    exact handed_of_kind (plain.later kept).inside (kept.kind id plain.inside ▸ kind)
  refine .get fun r => ?_
  split
  · exact .skip (readDuration_speaks plain none) fun _ => done
  · exact done

end Durations

section Notes

theorem readNoteParts_silent (p : NoteParts) : Silent (readNoteParts p) :=
  .loop (fun p => .bind next_silent fun found => by
    cases found with
    | none => exact .pure _
    | some t =>
      dsimp only
      split
      iterate 4 exact .pure _
      split
      · exact .pure _
      · exact .bind pushBack_silent fun _ => .pure _) _

theorem readNoteParts_spelled {note : Nat} {alter : Fraction} {p : NoteParts} {r : Reader}
    (spelled : p.pitch.Spelled note alter) : ((readNoteParts p).run r).1.pitch.Spelled note alter := by
  refine loop_invariant (S := fun (p : NoteParts) _ => p.pitch.Spelled note alter) spelled (fun p r spelled => ?_)
    fun _ _ known => known
  rw [run_bind]
  cases (next.run r).1 with
  | none => exact spelled
  | some t =>
    dsimp only
    split
    iterate 4 exact ⟨spelled.note, spelled.alter⟩
    split
    · exact spelled
    · exact spelled

theorem note_heard {r : Reader} {t : Token} {note : Nat} {alter : Fraction} {pitch : Pitch}
    (voiced : r.tree.Voiced configured r.language) (read : readPitch? r.language t.text = some (note, alter))
    (spelled : pitch.Spelled note alter) (octave accidental check : Option Token) {u : Tree}
    (filled : u = (r.tree.push (.single .note t.start (some t))).update r.tree.size
      fun i => { i with details := .note pitch octave accidental check }) :
    r.tree.Kept u ∧ u.Voiced configured r.language ∧ r.tree.size < u.size ∧ u.kind r.tree.size = .note := by
  subst filled
  obtain ⟨more, item⟩ := extends_note r.tree t (.note pitch octave accidental check)
  refine ⟨more.kept voiced, more.sounding voiced fun _ => ?_, ?_, ?_⟩
  · rw [item]
    refine ⟨t, pitch, octave, accidental, check, rfl, rfl, ?_⟩
    rw [read, spelled.note, spelled.alter]
  · rw [more.size]
    exact Nat.lt_succ_self _
  · rw [Tree.kind, item]
    rfl

theorem addNote_speaks {R : β → Tree → Prop} {t : Token} {k : Option (ItemId × Pitch) → Reading β}
    (parts : Pitch → Reading NoteParts) (rest : ItemId → Reading β)
    (unnamed : Speaks configured o (k none) R) (silent : ∀ pitch, Silent (parts pitch))
    (spelled : ∀ note alter r, ((parts (.plain note alter)).run r).1.pitch.Spelled note alter)
    (same : ∀ id pitch, k (some (id, pitch)) = (do
      let p ← parts pitch
      setDetails id (.note p.pitch p.octave p.accidental p.check)
      rest id))
    (then_ : ∀ id u, o.Kept u → id < u.size → u.kind id = .note → Speaks configured u (rest id) R) :
    Speaks configured o (addNote t >>= k) R := by
  intro r kept voiced
  rw [run_bind]
  cases read : readPitch? r.language t.text with
  | none =>
    have ran : (addNote t).run r = (none, r) := by
      have here : readPitch? ((get : Reading Reader).run r).1.language t.text = none := read
      rw [addNote, run_bind, here]
      rfl
    rw [ran]
    exact unnamed r kept voiced
  | some found =>
    obtain ⟨note, alter⟩ := found
    rw [addNote_run read, same, run_bind, run_bind]
    generalize added : ({ r with tree := _ } : Reader) = r1
    obtain ⟨tree, language⟩ := silent (.plain note alter) r1
    have spelled := spelled note alter r1
    generalize (parts (.plain note alter)).run r1 = out at tree language spelled
    obtain ⟨p, r2⟩ := out
    subst added
    obtain ⟨further, after, inside, kind⟩ := note_heard voiced read spelled p.octave p.accidental p.check
      (congrArg (fun u : Tree => u.update r.tree.size fun i =>
        { i with details := .note p.pitch p.octave p.accidental p.check }) tree)
    rw [← language] at after
    obtain ⟨last, answer⟩ := then_ _ _ (kept.trans further) inside kind
      { r2 with tree := r2.tree.update r.tree.size fun i =>
        { i with details := .note p.pitch p.octave p.accidental p.check } } (.refl _) after
    exact ⟨⟨further.trans last.kept, last.voiced⟩, answer⟩

theorem readMusicItem_speaks (k : Lily.Kind) (t : Token) :
    Speaks configured o (readMusicItem k t) (Hands o.size) := by
  have filled : ∀ {kind : ItemKind} (b : Bool), kind.mute →
      Speaks configured o (addFor kind t >>= readOwnDuration b) (Hands o.size) := fun b mute =>
    .bind (addFor_speaks mute) fun _ _ _ mute => readOwnDuration_speaks b mute.plain mute.ne_string
  refine .get fun r => ?_
  dsimp only
  split
  · refine addNote_speaks (fun pitch => readNoteParts ⟨pitch, none, none, none⟩) _
      (.pure fun _ _ => hands_none _) (fun _ => readNoteParts_silent _)
      (fun _ _ _ => readNoteParts_spelled ⟨rfl, rfl⟩) (fun _ _ => rfl) fun id u _ inside kind => ?_
    refine readOwnDuration_speaks _ ⟨inside, ?_⟩ ?_ <;> simp [kind]
  · exact filled _ rfl
  · exact filled _ rfl
  · exact filled _ rfl

theorem readUnpitched_speaks (t : Token) : Speaks configured o (readUnpitched t) fun id u => u.Mute id :=
  .bind (add_speaks rfl) fun _ _ _ mute => .skip (readDuration_speaks mute.plain _) fun _ => .pure_mute mute

theorem addList_speaks (t : Token) (simultaneous : Bool) (bracket : Option Token) :
    Speaks configured o (addList t simultaneous bracket) fun id u => u.Mute id :=
  .bind (addFor_speaks rfl) fun _ _ _ mute => .skip (setDetails_speaks mute) fun _ => .skip addToken_speaks fun _ =>
    .pure_mute mute

theorem startList_speaks (t : Token) :
    Speaks configured o (startList t) fun started u => ∀ list ∈ started, u.Mute list.1 := by
  have listed : ∀ (simultaneous : Bool) (bracket : Option Token), Speaks configured o (do
      return some (← addList t simultaneous bracket, true)) fun started u => ∀ list ∈ started, u.Mute list.1 :=
    fun simultaneous bracket => (addList_speaks t simultaneous bracket).answer (fun id => some (id, true))
      (fun _ => rfl) fun _ _ _ mute _ same => Option.mem_some_iff.mp same ▸ mute
  unfold startList
  split
  · exact listed _ none
  · split
    · refine .skip (.free (.silent nextItem_silent)) fun found => ?_
      cases found with
      | none => exact .pure fun _ _ _ => nofun
      | some bracket =>
        dsimp only
        split
        · exact listed _ (some bracket)
        · exact .pass pushBack_silent fun _ => (addFor_speaks rfl).answer (fun id => some (id, false))
            (fun _ => rfl) fun _ _ _ mute _ same => Option.mem_some_iff.mp same ▸ mute
    · exact .pure fun _ _ _ => nofun

theorem readChordSpecifier_speaks (t : Token) :
    Speaks configured o (readChordSpecifier t) fun id u => u.Mute id := by
  refine .bind (add_speaks rfl) fun id u _ mute => .bind (addFor_speaks rfl) fun item v kept leaf =>
    .skip (append_speaks (mute.plain.later kept) leaf.loose) fun _ =>
      .skip (.bounded (.loop_any fun _ => .pass next_silent fun found => ?_)) fun _ => .pure_mute (mute.later kept)
  have plain := mute.plain.later kept
  cases found with
  | none => exact .pure fun _ _ => trivial
  | some t =>
    dsimp only
    split
    · exact .bind (addFor_speaks rfl) fun _ w further leaf =>
        .skip (append_speaks (plain.later further) leaf.loose) fun _ => .pure fun _ _ => trivial
    · split
      · refine addNote_speaks (fun pitch => pure ⟨pitch, none, none, none⟩)
          (fun note => append id note >>= fun _ => pure (.more ()))
          (.pure fun _ _ => trivial) (fun _ => .pure _) (fun _ _ _ => ⟨rfl, rfl⟩) (fun _ _ => rfl)
          fun note w further inside kind => ?_
        have loose : w.Loose note := loose_of_kind inside (by simp [kind])
        exact .skip (append_speaks (plain.later further) loose) fun _ => .pure fun _ _ => trivial
      · exact .pure fun _ _ => trivial

theorem readTremolo_speaks (t : Token) : Speaks configured o (readTremolo t) fun id u => u.Mute id := by
  refine .bind (addFor_speaks rfl) fun id u _ mute => .skip (.free (.silent next_silent)) fun found => ?_
  cases found with
  | none => exact .pure_mute mute
  | some t =>
    dsimp only
    split
    · exact .bind (addFor_speaks rfl) fun _ v kept leaf =>
        .skip (append_speaks (mute.plain.later kept) leaf.loose) fun _ => .skip setDuration_speaks fun _ =>
          .pure_mute (mute.later kept)
    · exact .pass pushBack_silent fun _ => .pure_mute mute

theorem addSpan_speaks {kind : ItemKind} (mute : kind.mute) (t : Token) (starts : Bool) :
    Speaks configured o (addSpan kind t starts) fun id u => u.Mute id :=
  .bind (addFor_speaks mute) fun _ _ _ mute => .skip (setDetails_speaks mute) fun _ => .pure_mute mute

variable (deep : ∀ o form t, Speaks configured o (deeper form t) (Hands o.size))
include deep

theorem readChord_speaks (t : Token) : Speaks configured o (readChord deeper t) (Hands o.size) := .get fun r => by
  split
  · exact .pure fun _ _ => hands_none _
  · exact .pass (fun _ => ⟨rfl, rfl⟩) fun _ => .bind (addFor_speaks rfl) fun id u _ mute =>
      .skip (readRegionInto_speaks deep mute.plain) fun _ => .pass (fun _ => ⟨rfl, rfl⟩) fun _ =>
        .skip (readDuration_speaks mute.plain none) fun _ => .pure_some mute

theorem readList_speaks (t : Token) : Speaks configured o (readList deeper t) (Hands o.size) := by
  refine .bind (startList_speaks t) fun started u _ mute => ?_
  cases started with
  | none => exact .pure fun _ _ => hands_none _
  | some started =>
    have mute := mute started rfl
    dsimp only
    split
    · exact .skip (readRegionInto_speaks deep mute.plain) fun _ => .pure_some mute
    · exact .pure_some mute

theorem readDirection_speaks (t : Token) : Speaks configured o (readDirection deeper t) fun id u => u.Mute id := by
  refine .bind (addFor_speaks rfl) fun id u _ mute => .skip (setDetails_speaks mute) fun _ =>
    .skip (.free (.silent nextItem_silent)) fun found => ?_
  cases found with
  | none => exact .pure_mute mute
  | some t =>
    dsimp only
    split
    · exact .into (.free (deep u .item t)) mute.plain fun _ kept => .pure_mute (mute.later kept)
    · exact .pass pushBack_silent fun _ => .pure_mute mute

end Notes

section Settings

theorem addPathStep_speaks (plain : o.Plain id) (t : Token) : Speaks configured o (addPathStep id t) Whatever :=
  appendLeaf_speaks rfl plain

theorem readWhile_speaks (ks : List Lily.Kind) {act : Token → Reading Unit}
    (acts : ∀ t, Speaks configured o (act t) Whatever) : Speaks configured o (readWhile ks act) Whatever :=
  .loop_any fun _ => .pass nextItem_silent fun found => by
    cases found with
    | none => exact .pure fun _ _ => trivial
    | some t =>
      dsimp only
      split
      · exact .skip (acts t) fun _ => .pure fun _ _ => trivial
      · exact .pure fun _ _ => trivial

theorem readUnset_speaks (t : Token) : Speaks configured o (readUnset t) fun id u => u.Mute id := by
  refine .bind (addFor_speaks rfl) fun id u _ mute => .skip (.bounded (P := Whatever) ?_) fun _ => .pure_mute mute
  refine .skip (readWhile_speaks _ fun t => addToken_speaks) fun stop => ?_
  split
  · exact .silent pushBack_silent
  · exact .pure fun _ _ => trivial

variable (deep : ∀ o form t, Speaks configured o (deeper form t) (Hands o.size))
include deep

/-- What comes of an assignment may be the expression in front of its sign. -/
theorem readAssignment_speaks (t : Token) :
    Speaks configured o (readAssignment deeper t) fun found u => ∀ id ∈ found, u.Mute id := by
  refine .bind (addFor_speaks rfl) fun id u born mute => ?_
  refine .loop (fun _ _ _ => nofun) fun _ v kept _ => .skip (.free (.silent nextItem_silent)) fun found => ?_
  have mute := mute.later kept
  cases found with
  | none => exact .pure fun _ _ _ => nofun
  | some t =>
    dsimp only
    split
    · exact .skip setTokens_speaks fun _ => .into (.free (readOne_speaks deep)) mute.plain fun _ further =>
        .pure fun _ last child member => Option.mem_some_iff.mp member ▸ mute.later (further.trans last)
    · split
      · refine .tree_at fun w _ further voiced => ?_
        split
        · rename_i scheme found
          have kind : w.kind scheme = .scheme := by simpa using List.find?_some found
          have found : w.Mute scheme := ⟨lt_size_of_kind (by simp [kind]), by rw [kind]; rfl⟩
          exact .pass pushBack_silent fun _ => .pure fun x last child member =>
            Option.mem_some_iff.mp member ▸ found.later last
        · exact .bind (readQuoting_speaks deep rfl t) fun _ x last scheme =>
            .skip (append_speaks (mute.plain.later (further.trans last)) scheme.loose) fun _ =>
              .pure fun _ _ _ => nofun
      · exact .pass pushBack_silent fun _ => .pure fun _ _ _ => nofun

theorem readVariable_speaks (t : Token) : Speaks configured o (readVariable deeper t) (Hands o.size) := by
  refine .bind (readAssignment_speaks deep t) fun assigned u _ mute => ?_
  cases assigned with
  | none => exact .pure fun _ _ => hands_none _
  | some id =>
    have mute := mute id rfl
    refine .skip (.free (.silent nextItem_silent)) fun found => ?_
    cases found with
    | none => exact .pure_some mute
    | some t =>
      dsimp only
      split
      · exact .bind (addFor_speaks rfl) fun _ v kept leaf =>
          .skip (append_speaks (mute.plain.later kept) leaf.loose) fun _ => .pure_some (mute.later kept)
      · exact .pass pushBack_silent fun _ => .pure_some mute

theorem readBlockInto_speaks (plain : o.Plain id) : Speaks configured o (readBlockInto deeper id) Whatever :=
  .loop_any fun _ => .pass next_silent fun found => by
    cases found with
    | none => exact .pure fun _ _ => trivial
    | some t =>
      dsimp only
      split
      · exact .skip setTokens_speaks fun _ => .skip (readRegionInto_speaks deep plain) fun _ =>
          .pure fun _ _ => trivial
      · split
        · exact .pure fun _ _ => trivial
        · exact .pass pushBack_silent fun _ => .pure fun _ _ => trivial

theorem readBlock_speaks {kind : ItemKind} (mute : kind.mute) (t : Token) :
    Speaks configured o (readBlock deeper kind t) fun id u => u.Mute id := by
  refine .bind (addFor_speaks mute) fun id u _ mute => .skip (readBlockInto_speaks deep mute.plain) fun found => ?_
  dsimp only
  split
  · exact .into (readOne_speaks deep) mute.plain fun _ kept => .pure_mute (mute.later kept)
  · exact .pure_mute mute

theorem readSet_speaks (t : Token) : Speaks configured o (readSet deeper t) fun id u => u.Mute id := by
  refine .bind (addFor_speaks rfl) fun id u _ mute =>
    .skip (.loop_any fun ts => .pass nextItem_silent fun found => ?_) fun _ => .pure_mute mute
  cases found with
  | none => exact .pure fun _ _ => trivial
  | some t =>
    dsimp only
    split
    · exact .skip setTokens_speaks fun _ => .into (readOne_speaks deep) mute.plain fun _ _ =>
        .pure fun _ _ => trivial
    · exact .pure fun _ _ => trivial

theorem readOverride_speaks (t : Token) : Speaks configured o (readOverride deeper t) fun id u => u.Mute id := by
  refine .bind (addFor_speaks rfl) fun id u _ mute =>
    .skip (.bounded (.loop_any fun _ => .pass nextItem_silent fun found => ?_)) fun _ => .pure_mute mute
  cases found with
  | none => exact .pure fun _ _ => trivial
  | some t =>
    dsimp only
    split
    · exact .into (.free (deep u .item t)) mute.plain fun _ _ => .pure fun _ _ => trivial
    · split
      · exact .skip setTokens_speaks fun _ => .into (.free (readOne_speaks deep)) mute.plain fun _ _ =>
          .pure fun _ _ => trivial
      · exact .skip (addPathStep_speaks mute.plain t) fun _ => .pure fun _ _ => trivial

theorem readPath_speaks (ks : List Lily.Kind) (plain : o.Plain id) (goesOn : Tree → Bool) :
    Speaks configured o (do
      match ← readWhile ks (addPathStep id) with
      | none => pure ()
      | some t =>
        if t.kind == .lily .schemeStart && goesOn (← tree) then
          append id (← readScheme deeper t)
        else pushBack) Whatever := by
  refine .skip (readWhile_speaks ks (addPathStep_speaks plain)) fun stop => ?_
  cases stop with
  | none => exact .pure fun _ _ => trivial
  | some t =>
    refine .tree fun tree => ?_
    split
    · exact .bind (readQuoting_speaks deep rfl t) fun _ _ kept scheme =>
        append_speaks (plain.later kept) scheme.loose
    · exact .silent pushBack_silent

theorem readRevert_speaks (t : Token) : Speaks configured o (readRevert deeper t) fun id u => u.Mute id :=
  .bind (addFor_speaks rfl) fun id _ _ mute =>
    .skip (.bounded (readPath_speaks deep _ mute.plain fun tree => !namesProperty tree id)) fun _ => .pure_mute mute

theorem readTweak_speaks (t : Token) : Speaks configured o (readTweak deeper t) fun id u => u.Mute id :=
  .bind (addFor_speaks rfl) fun id _ _ mute =>
    .skip (.bounded (readPath_speaks deep _ mute.plain fun tree => (tree.children id).isEmpty)) fun _ =>
      .into (.free (readOne_speaks deep)) mute.plain fun _ kept => .pure_mute (mute.later kept)

end Settings

end Reading

end ScoreText
