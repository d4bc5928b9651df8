import ScoreText.Proofs.LayingValues

/-! Notes, durations, chords and lists of music are laid out in order. -/
namespace ScoreText

open Reader

namespace Reading

variable {whole : Prop} {n lo m : Nat} {fills : Option ItemId} {id : ItemId} {o r r' : Reader}
  {t : Token} {deeper : Deeper}

section Duration

/-- The tokens of a duration: all items end in front of the first one, and the others lie behind it. -/
def Written (whole : Prop) (lo : Nat) (tokens : List Token) (r : Reader) : Prop :=
  ∀ first others, tokens = first :: others → lo ≤ first.start ∧ InReach first.start r first ∧
    r.tree.Laid whole first.start ∧ ∀ s ∈ others, InReach first.start r s

theorem Written.mono {tokens : List Token} (written : Written whole lo tokens r)
    (le : r.reach ≤ r'.reach) (same : r'.tree = r.tree) : Written whole lo tokens r' := by
  intro first others cons
  obtain ⟨low, here, laid, within⟩ := written first others cons
  exact ⟨low, here.mono le, same ▸ laid, fun s member => (within s member).mono le⟩

theorem Written.more {tokens : List Token} (written : Written whole lo tokens r)
    (took : Picked whole n fills lo o r t r') : Written whole lo (tokens ++ [t]) r' := by
  intro first others cons
  cases tokens with
  | nil =>
    obtain ⟨rfl, rfl⟩ := List.cons.inj cons
    exact ⟨took.low, took.spare.within, took.laid, fun _ => nofun⟩
  | cons head tail =>
    obtain ⟨rfl, rfl⟩ := List.cons.inj cons
    obtain ⟨low, here, laid, within⟩ := written head tail rfl
    have le : head.start ≤ t.start :=
      Nat.le_trans (Nat.le_of_lt here.some_text) (Nat.le_trans here.stop took.after)
    refine ⟨low, here.mono took.reach_le, took.tree ▸ laid, fun s member => ?_⟩
    rcases List.mem_append.mp member with member | member
    · exact (within s member).mono took.reach_le
    · rw [List.mem_singleton.mp member]
      exact took.spare.within.since le

theorem readDurationTokens_lays (moved : Moved whole n fills lo o r) {length : List Token}
    (written : Written whole lo length r) :
    Lays whole n fills lo o r (readDurationTokens length) fun tokens r' =>
      Written whole lo tokens r' ∧ (length ≠ [] → tokens ≠ []) := by
  refine .loop moved ⟨written, fun some => some⟩ (fun tokens r1 moved ⟨written, kept⟩ => ?_)
    fun _ r ⟨written, kept⟩ => ⟨written.mono (Nat.le_refl r.reach) rfl, kept⟩
  refine .bind (next_lays moved) fun found r2 moved2 taken => ?_
  cases found with
  | none =>
    obtain ⟨_, _, rfl⟩ := taken
    exact .pure moved2 ⟨written.mono (Nat.le_refl r1.reach) rfl, kept⟩
  | some t =>
    have taken : Picked whole n fills lo o r1 t r2 := taken
    have back : Lays whole n fills lo o r2 (pushBack >>= fun _ => pure (Turn.done tokens))
        fun turn r' => Written whole lo turn.value r' ∧ (length ≠ [] → turn.value ≠ []) := by
      refine .bind (pushBack_lays taken) fun _ r3 moved3 same => .pure moved3 ⟨?_, kept⟩
      subst same
      exact written.mono taken.kept taken.tree
    dsimp only
    split
    · split
      · exact back
      · exact .pure moved2 ⟨written.more taken, fun _ => by simp [Turn.value]⟩
    · split
      · exact .pure moved2 ⟨written.mono taken.reach_le taken.tree, kept⟩
      · exact back

theorem written_of_spare (spare : Spare whole n t r) (low : lo ≤ t.start) : Written whole lo [t] r := by
  intro first others cons
  obtain ⟨rfl, rfl⟩ := List.cons.inj cons
  exact ⟨low, spare.within, spare.laid, fun _ => nofun⟩

theorem Written.nil : Written whole lo [] r :=
  fun _ _ => nofun

/-- An item gets its duration. A length that was taken before becomes part of it. -/
theorem readDuration_lays (moved : Moved whole n (some id) lo o r) {length : Option Token}
    (written : Written whole lo length.toList r) :
    Lays whole n (some id) lo o r (readDuration id length) fun _ r' =>
      length.isSome → r'.tree.children id ≠ [] := by
  -- with tokens or without, in the end the duration of the reader is set
  have rest : ∀ {r1}, Moved whole n (some id) lo o r1 → (length.isSome → r1.tree.children id ≠ []) →
      Lays whole n (some id) lo o r1 (do
        let duration := (← MonadState.get : Reader).duration
        update id fun i => { i with duration := some duration }) fun _ r' =>
        length.isSome → r'.tree.children id ≠ [] := by
    refine fun moved kept => .get ((setDuration_lays moved ?_).mono fun _ _ _ same => ?_)
    · rintro _ ⟨⟩
      exact moved.went.sound.timely.1
    · rwa [same]
  refine .bind (readDurationTokens_lays moved written) fun tokens r1 moved1 ⟨written, kept⟩ => ?_
  cases tokens with
  | nil =>
    refine rest moved1 fun some => absurd rfl (kept ?_)
    obtain ⟨_, rfl⟩ := Option.isSome_iff_exists.mp some
    exact List.cons_ne_nil _ _
  | cons first others =>
    obtain ⟨low, here, laid, within⟩ := written first others rfl
    have spare : Spare whole n first r1 := ⟨moved1.stable, laid, here.some_text, here.stop⟩
    refine .bind (add_lays spare .writtenDuration fun _ same => (Option.mem_some_iff.mp same).symm)
      fun child r2 _ ⟨born, _⟩ => ?_
    have le : r1.reach ≤ r2.reach := born.moved.went.reach_le
    refine .bind (setTokens_lays born.here fun s member => (within s member).mono le)
      fun _ r3 moved3 _ => ?_
    have single := born.single moved3 (born.occupied moved3)
    refine .bind (append_lays moved1 ⟨low, laid⟩ (born.step moved3) single.toFound)
      fun _ r4 moved4 same => ?_
    have some : r4.tree.children id ≠ [] := by
      have inside := ((born.step moved3).went.grown.opened (moved1.went.filling id rfl).opened).inside
      rw [same]
      show (r3.tree.append id child).children id ≠ []
      rw [Tree.children_append _ inside, if_pos rfl]
      exact List.append_ne_nil_of_right_ne_nil _ (List.cons_ne_nil _ _)
    dsimp only
    split
    · rename_i read
      refine .bind (modify_lays (moved4.aside _ _ (Duration.ofParts_fits read))) fun _ r5 moved5 same =>
        rest moved5 fun _ => ?_
      rw [same]
      exact some
    · exact rest moved4 fun _ => some

theorem readDuration_none_lays (moved : Moved whole n (some id) lo o r) :
    Lays whole n (some id) lo o r (readDuration id none) Anything :=
  (readDuration_lays moved .nil).mono fun _ _ _ _ => trivial

theorem readDuration_took_lays (took : Picked whole n (some id) lo o r t r') :
    Lays whole n (some id) lo o r' (readDuration id (some t)) Anything :=
  by
  have written : Written whole lo (some t).toList r' := written_of_spare took.spare took.low
  exact (readDuration_lays took.moved written).mono fun _ _ _ _ => trivial

end Duration

section Note

/-- The tokens of a note are in use. -/
def InUse (p : NoteParts) (r : Reader) : Prop :=
  ∀ s, s ∈ p.octave ∨ s ∈ p.accidental ∨ s ∈ p.check → s.stop ≤ r.reach

theorem readNoteParts_lays (moved : Moved whole n fills lo o r) {p : NoteParts} (inUse : InUse p r) :
    Lays whole n fills lo o r (readNoteParts p) InUse := by
  refine .loop moved inUse fun p r1 moved inUse => ?_
  refine .bind (next_lays moved) fun found r2 moved2 taken => ?_
  have le : r1.reach ≤ r2.reach := Taken.reach_le taken
  have kept : ∀ {r'}, r1.reach ≤ r'.reach → InUse p r' := fun le s member =>
    Nat.le_trans (inUse s member) le
  cases found with
  | none => exact .pure moved2 (kept le)
  | some t =>
    have taken : Picked whole n fills lo o r1 t r2 := taken
    -- a part that is read takes the place of one that was read before
    have more : ∀ s, s = t ∨ (s ∈ p.octave ∨ s ∈ p.accidental ∨ s ∈ p.check) → s.stop ≤ r2.reach := by
      rintro s (rfl | member)
      · exact taken.stop
      · exact kept le s member
    dsimp only
    split
    · exact .pure moved2 fun s member => more s (by grind [Turn.value])
    · exact .pure moved2 fun s member => more s (by grind [Turn.value])
    · exact .pure moved2 fun s member => more s (by grind [Turn.value])
    · exact .pure moved2 fun s member => more s (by grind [Turn.value])
    · split
      · exact .pure moved2 (kept le)
      · refine .bind (pushBack_lays taken) fun _ r3 moved3 same => .pure moved3 ?_
        subst same
        exact kept taken.kept

theorem addNote_lays (spare : Spare whole n t r) :
    Lays whole n none t.start r r (addNote t) fun found r' =>
      ∀ note ∈ found, Born whole n t.start r .note (some t) note.1 r' := by
  refine .get ?_
  split
  · exact .pure spare.start fun _ => nofun
  · refine .bind (add_lays spare .note fun _ same => (Option.mem_some_iff.mp same).symm)
      fun id r1 moved ⟨born, _⟩ => .pure moved ?_
    rintro _ ⟨⟩
    exact born

theorem readOwnDuration_lays (moved : Moved whole n (some id) lo o r) (inPitchCommand : Bool) :
    Lays whole n (some id) lo o r (readOwnDuration inPitchCommand id) fun a _ => a = some id := by
  refine .get ?_
  dsimp only
  split
  · exact .bind (readDuration_none_lays moved) fun _ _ moved _ => .pure moved rfl
  · exact .pure moved rfl

theorem setNote_lays (moved : Moved whole n (some id) lo o r) {p : NoteParts} (inUse : InUse p r) :
    Lays whole n (some id) lo o r (setDetails id (.note p.pitch p.octave p.accidental p.check))
      Anything := by
  refine (setDetails_lays moved (fun s member => inUse s ?_) ?_).mono fun _ _ _ _ => trivial
  · simpa [Details.tokens, eq_comm] using member
  · rintro _ ⟨⟩

theorem readMusicItem_offers (k : Lily.Kind) (t : Token) : Offers whole n t (readMusicItem k t) := by
  intro r spare
  have own : ∀ kind, Offers whole n t (addFor kind t >>= fun id =>
      readOwnDuration (r.current?.any (·.region == .lily .pitchCommand)) id) := fun kind =>
    .addFor fun id o here => readOwnDuration_lays here _
  refine .get ?_
  dsimp only
  split
  · refine .bind (addNote_lays spare) fun found r1 moved born => ?_
    cases found with
    | none => exact .pure moved .none
    | some note =>
      have born : Born whole n t.start r .note (some t) note.1 r1 := born note rfl
      refine .bind (readNoteParts_lays born.here (p := ⟨note.2, none, none, none⟩) (by simp [InUse]))
        fun p r2 moved2 inUse => ?_
      refine .bind (setNote_lays moved2 inUse) fun _ r3 moved3 _ => ?_
      have last := readOwnDuration_lays moved3 (r.current?.any (·.region == .lily .pitchCommand))
      refine ⟨born.step last.moved, ?_⟩
      rw [last.answer]
      exact (born.single last.moved (born.occupied last.moved)).offered
  · exact own .rest r spare
  · exact own .q r spare
  · exact own .skip r spare

theorem readUnpitched_gives (t : Token) : Gives whole n t (readUnpitched t) := by
  refine fun r spare => .bind (add_lays spare .unpitched fun _ => nofun) fun id o _ ⟨born, spare⟩ => ?_
  have written : Written whole t.start (some t).toList o :=
    written_of_spare (spare rfl) (Nat.le_refl _)
  refine .bind (readDuration_lays born.here written) fun _ r1 moved some => ?_
  exact .pure (born.step moved) (born.single moved (.inr (.inl (some rfl))))

theorem readChord_offers (deep : Deep whole n deeper) (t : Token) :
    Offers whole n t (readChord deeper t) := by
  refine fun r spare => .get ?_
  split
  · exact .pure spare.start .none
  · have aside := spare.start.aside r.language true spare.start.went.sound.timely.1
    refine .bind (modify_lays aside) fun _ r1 moved1 same => ?_
    have spare : Spare whole n t r1 := by
      rw [same]
      exact ⟨aside.stable, spare.laid, spare.some_text, spare.stop⟩
    refine Lays.mono (Lays.after moved1 (Offers.addFor (fun id o here => ?_) r1 spare)) ?_
    · refine .bind (readRegionInto_lays deep here) fun _ r2 moved2 _ => ?_
      refine .bind (modify_lays (moved2.aside _ _ moved2.went.sound.timely.1)) fun _ r3 moved3 _ => ?_
      exact .bind (readDuration_none_lays moved3) fun _ _ moved4 _ => .pure moved4 rfl
    · subst same
      exact fun _ _ _ offered => ⟨offered.2.row, offered.2.unheld⟩

end Note

section List

/-- An item with a token that has been added and may still be filled. -/
def Begun (whole : Prop) (n : Nat) (t : Token) (o : Reader) (id : ItemId) (r' : Reader) : Prop :=
  ∃ kind r, Born whole n t.start o kind (some t) id r ∧ Moved whole n (some id) t.start r r'

theorem addList_lays (spare : Spare whole n t r) (simultaneous : Bool) {bracket : Option Token}
    (within : ∀ s ∈ bracket, InReach t.start r s) :
    Lays whole n none t.start r r (addList t simultaneous bracket) (Begun whole n t r) := by
  refine .bind (add_lays spare .musicList fun _ same => (Option.mem_some_iff.mp same).symm)
    fun id o _ ⟨born, _⟩ => ?_
  have le : r.reach ≤ o.reach := born.moved.went.reach_le
  refine .bind (setDetails_bare_lays born.here rfl rfl) fun _ r1 moved1 _ => ?_
  refine .bind (addToken_lays moved1 fun s member => (within s member).mono ?_) fun _ r2 moved2 _ => ?_
  · exact Nat.le_trans le moved1.went.reach_le
  · exact .pure (born.step moved2) ⟨_, _, born, moved2⟩

/-- Where no list starts, the token may still start something else. -/
theorem startList_lays (spare : Spare whole n t r) :
    Lays whole n none t.start r r (startList t) fun found r' => match found with
      | none => Spare whole n t r' ∧ r'.tree = r.tree
      | some list => Begun whole n t r list.1 r' := by
  unfold startList
  split
  · exact .bind (addList_lays spare _ fun _ => nofun) fun _ _ moved begun => .pure moved begun
  · split
    · refine .bind (free_nextItem_lays spare.start) fun found r1 moved1 taken => ?_
      cases found with
      | none => exact .pure moved1 ⟨spare.later moved1 taken.1, taken.1⟩
      | some bracket =>
        dsimp only
        split
        · have within : ∀ s ∈ some bracket, InReach t.start r1 s := by
            rintro s ⟨⟩
            exact taken.within
          refine .bind (addList_lays (spare.later moved1 taken.tree) _ within) fun id r2 _ begun => ?_
          obtain ⟨kind, o, born, moved⟩ := begun
          have born := born.since moved1 taken.tree
          exact .pure (born.step moved) ⟨kind, o, born, moved⟩
        · refine .bind (pushBack_lays taken) fun _ r2 moved2 same => ?_
          have tree : r2.tree = r.tree := by
            rw [same]
            exact taken.tree
          refine .bind (add_lays (spare.later moved2 tree) .keyword fun _ same =>
            (Option.mem_some_iff.mp same).symm) fun id o _ ⟨born, _⟩ => ?_
          have born := born.since moved2 tree
          exact .pure born.moved ⟨.keyword, o, born, born.here⟩
    · exact .pure spare.start ⟨spare, rfl⟩

theorem readList_offers (deep : Deep whole n deeper) (t : Token) :
    Offers whole n t (readList deeper t) := by
  refine fun r spare => .bind (startList_lays spare) fun found r1 moved1 begun => ?_
  cases found with
  | none => exact .pure moved1 .none
  | some list =>
    obtain ⟨kind, o, born, moved⟩ := begun
    dsimp only
    split
    · exact .bind (readRegionInto_lays deep moved) fun _ _ moved _ => born.offers moved
    · exact born.offers moved

theorem appendLeaf_lays (took : Picked whole n (some id) lo o r t r') (kind : ItemKind) :
    Lays whole n (some id) lo o r' (addFor kind t >>= append id) Anything := by
  refine .bind (addFor_gives kind t r' took.spare) fun child r1 step single => ?_
  exact (append_lays took.moved took.gap step single.toFound).mono fun _ _ _ _ => trivial

theorem readChordSpecifier_gives (t : Token) : Gives whole n t (readChordSpecifier t) := by
  refine fun r spare => .bind (add_lays spare .chordSpecifier fun _ => nofun)
    fun id o _ ⟨born, spare⟩ => ?_
  have spare : Spare whole n t o := spare rfl
  refine .bind (addFor_gives .chordItem t o spare) fun part r1 step single => ?_
  refine .bind (append_lays born.here spare.gap step single.toFound) fun _ r2 moved2 same => ?_
  have nonempty : r2.tree.children id ≠ [] := by
    have inside := (step.went.grown.opened (born.here.went.filling id rfl).opened).inside
    rw [same]
    show (r1.tree.append id part).children id ≠ []
    rw [Tree.children_append _ inside, if_pos rfl]
    exact List.append_ne_nil_of_right_ne_nil _ (List.cons_ne_nil _ _)
  refine .bind (bounded_lays moved2.again (P := Anything) fun r0 _ here =>
    .loop here trivial fun _ r1 moved _ => ?_) fun _ r3 moved3 _ => ?_
  · refine .bind (next_lays moved) fun found r2 moved2 taken => ?_
    cases found with
    | none => exact .pure moved2 trivial
    | some t =>
      have taken : Picked whole n _ _ _ _ t r2 := taken
      dsimp only
      split
      · refine .bind (addFor_gives .chordItem t r2 taken.spare) fun child r3 step single => ?_
        exact .bind (append_lays taken.moved taken.gap step single.toFound) fun _ _ moved _ =>
          .pure moved trivial
      · split
        · refine .bind (addNote_lays taken.spare) fun found r3 step born => ?_
          cases found with
          | none => exact .pure (taken.moved.on taken.gap step) trivial
          | some note =>
            have born : Born whole n t.start r2 .note (some t) note.1 r3 := born note rfl
            refine .bind (setNote_lays born.here (p := ⟨note.2, none, none, none⟩) (by simp [InUse]))
              fun _ r4 moved4 _ => ?_
            have single := born.single moved4 (born.occupied moved4)
            exact .bind (append_lays taken.moved taken.gap (born.step moved4) single.toFound)
              fun _ _ moved _ => .pure moved trivial
        · exact .pure moved2 trivial
  · have old := (moved2.went.filling id rfl).opened.inside
    have now := moved2.join moved3
    exact .pure (born.step now)
      (born.single now (.inr (.inl (moved3.went.grown.fuller id old nonempty))))

theorem readTremolo_gives (t : Token) : Gives whole n t (readTremolo t) := by
  refine .addFor fun id o here => ?_
  refine .bind (free_next_lays here) fun found r1 moved1 taken => ?_
  cases found with
  | none => exact .pure moved1 rfl
  | some t =>
    have taken : Picked whole n _ _ _ _ t r1 := taken
    dsimp only
    split
    · refine .bind (addFor_gives .writtenDuration t r1 taken.spare) fun child r2 step single => ?_
      refine .bind (append_lays taken.moved taken.gap step single.toFound) fun _ _ moved _ => ?_
      exact .bind (setDuration_lays moved fun _ => Duration.read_fits) fun _ _ moved _ => .pure moved rfl
    · exact .bind (pushBack_lays taken) fun _ _ moved _ => .pure moved rfl

theorem readDirection_gives (deep : Deep whole n deeper) (t : Token) :
    Gives whole n t (readDirection deeper t) := by
  refine .addFor fun id o here => ?_
  refine .bind (setDetails_bare_lays here rfl rfl) fun _ r1 moved1 _ => ?_
  refine .bind (free_nextItem_lays moved1) fun found r2 moved2 taken => ?_
  cases found with
  | none => exact .pure moved2 rfl
  | some t =>
    have taken : Picked whole n _ _ _ _ t r2 := taken
    dsimp only
    split
    · refine .bind (free_deeper_lays deep .item taken.spare taken.room) fun child r3 step offered => ?_
      exact .bind (appendTaken_lays taken step offered) fun _ _ moved _ => .pure moved rfl
    · exact .bind (pushBack_lays taken) fun _ _ moved _ => .pure moved rfl

theorem addSpan_gives (kind : ItemKind) (t : Token) (starts : Bool) :
    Gives whole n t (addSpan kind t starts) :=
  .addFor fun _ _ here => .bind (setDetails_bare_lays here rfl rfl) fun _ _ moved _ => .pure moved rfl

end List

end Reading

end ScoreText
