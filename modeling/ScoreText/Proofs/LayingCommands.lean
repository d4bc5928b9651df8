import ScoreText.Music.Reading.Command
import ScoreText.Proofs.LayingSettings

/-! Commands with their arguments are laid out in order. -/
namespace ScoreText

open Reader

variable {whole : Prop} {n lo m : Nat} {fills : Option ItemId} {id : ItemId} {o r r' : Reader}
  {t : Token} {u : Tree} {deeper : Deeper}

section Part

/-- A part of an item that has been read: a token in use, or an item that nothing holds. -/
structure Part (whole : Prop) (lo : Nat) (t : Tree) (r : Reader) (a : Option Attribute) : Prop where
  token : ∀ s, a = some (.token s) → s.stop ≤ r.reach
  item : ∀ id, a = some (.item id) → Single whole lo t r.tree r.reach id

theorem Part.none : Part whole lo u r none :=
  ⟨fun _ => nofun, fun _ => nofun⟩

theorem Reader.Picked.part (took : Picked whole n fills lo o r t r') :
    Part whole lo u r' (some (.token t)) where
  token := by
    rintro _ ⟨⟩
    exact took.stop
  item _ := nofun

theorem Single.part {c : ItemId} (single : Single whole lo u r.tree r.reach c) :
    Part whole lo u r (some (.item c)) where
  token _ := nofun
  item := by
    rintro _ ⟨⟩
    exact single

theorem Part.keep {a : Option Attribute} (part : Part whole lo u o a)
    (moved : Moved whole n fills m o r) (old : ∀ id ∈ fills, id < u.size) : Part whole lo u r a where
  token s same := Nat.le_trans (part.token s same) moved.went.reach_le
  item c same := by
    have single := part.item c same
    exact single.keep moved fun fills => absurd (old c fills) (Nat.not_lt_of_le single.new)

theorem Part.mono {a : Option Attribute} (part : Part whole lo u r a) (same : r'.tree = r.tree)
    (le : r.reach ≤ r'.reach) : Part whole lo u r' a where
  token s known := Nat.le_trans (part.token s known) le
  item c known := by
    rw [same]
    have single := part.item c known
    exact { single with early := Nat.lt_of_lt_of_le single.early le }

theorem Part.stall {a : Option Attribute} (part : Part whole lo u r a) : Part whole lo u r.stall a :=
  part.mono rfl (Nat.le_refl r.reach)

theorem Part.mark {a : Option Attribute} (part : Part whole lo u r a) {s : Token}
    (mark : Attribute.token? a = some s) : s.stop ≤ r.reach := by
  cases a with
  | none => cases mark
  | some a => cases a with
    | token => cases mark; exact part.token s rfl
    | item => cases mark

theorem Part.single {a : Option Attribute} (part : Part whole lo u r a) {c : ItemId}
    (held : Attribute.item? a = some c) : Single whole lo u r.tree r.reach c := by
  cases a with
  | none => cases held
  | some a => cases a with
    | token => cases held
    | item => cases held; exact part.item c rfl

/-- What is read where a token was taken is read behind what was there before. -/
theorem Gives.behind {act : Reading ItemId} (gives : Gives whole n t act)
    (took : Picked whole n fills lo o r t r') :
    Lays whole n fills lo o r' act fun c r'' => Moved whole n none t.start r' r'' ∧
      Single whole lo o.tree r''.tree r''.reach c :=
  have given := gives r' took.spare
  ⟨took.moved.on took.gap given.moved, given.moved,
    given.answer.since took.low took.moved.went.grown.larger⟩

end Part

namespace Reading

section Arguments

theorem readArguments_lays (deep : Deep whole n deeper) (kind : ItemKind) (count : Nat)
    (spare : Spare whole n t r) :
    Lays whole n none t.start r r (readArguments deeper kind t count) (Begun whole n t r) := by
  refine .bind (add_lays spare kind fun _ same => (Option.mem_some_iff.mp same).symm)
    fun id o _ ⟨born, _⟩ => ?_
  refine .bind (readArgumentsInto_lays deep born.here count) fun _ _ moved _ => ?_
  exact .pure (born.step moved) ⟨kind, o, born, moved⟩

theorem readArguments_gives (deep : Deep whole n deeper) (kind : ItemKind) (t : Token) (count : Nat) :
    Gives whole n t (readArguments deeper kind t count) := by
  intro r spare
  refine (readArguments_lays deep kind count spare).mono fun id r' _ begun => ?_
  obtain ⟨_, o, born, moved⟩ := begun
  exact born.single moved (born.occupied moved)

theorem readNotesAndMusic_gives (deep : Deep whole n deeper) (kind : ItemKind) (t : Token) (notes : Nat) :
    Gives whole n t (readNotesAndMusic deeper kind t notes) := by
  refine .addFor fun id o here => .bind (.loop here (I := Anything) trivial fun k r1 moved _ => ?_)
    fun _ _ moved _ => .pure moved rfl
  refine .bind (readOne_lays deep moved.stable) fun child r2 step row => ?_
  cases child with
  | none => exact .pure (moved.on moved.gap step) trivial
  | some child =>
    refine .bind (append_lays moved moved.gap step row.found) fun _ _ moved _ => .tree ?_
    split <;> exact .pure moved trivial

theorem readParts_gives (deep : Deep whole n deeper) (t : Token) : Gives whole n t (readParts deeper t) := by
  refine .addFor fun id o here => free_readInto_lays deep here fun r1 first => ?_
  exact free_readInto_lays deep first fun _ moved => .pure moved rfl

theorem readAlternative_gives (deep : Deep whole n deeper) (t : Token) :
    Gives whole n t (readAlternative deeper t) :=
  .addFor fun _ _ here => readInto_lays deep here fun _ moved => .pure moved rfl

end Arguments

section Context

theorem readContextId_lays (moved : Moved whole n fills lo o r) (old : u.size ≤ o.tree.size)
    {found : Option Attribute} (part : Part whole lo u r found) :
    Lays whole n fills lo o r (readContextId found) fun a r' => Part whole lo u r' a := by
  refine .loop moved part (fun found r1 moved part => ?_) fun _ _ => Part.stall
  refine .bind (next_lays moved) fun s r2 moved2 taken => ?_
  cases s with
  | none =>
    obtain ⟨_, _, rfl⟩ := taken
    exact .pure moved2 (part.mono rfl (Nat.le_refl r1.reach))
  | some s =>
    have taken : Picked whole n _ _ _ _ s r2 := taken
    dsimp only
    split
    · refine .bind ((readString_gives s).behind taken) fun c r3 moved3 ⟨_, single⟩ => ?_
      exact .pure moved3 (single.since (Nat.le_refl lo) old).part
    · split
      · exact .pure moved2 taken.part
      · split
        · exact .pure moved2 (part.mono taken.tree taken.reach_le)
        · refine .bind (pushBack_lays taken) fun _ r3 moved3 same => .pure moved3 ?_
          subst same
          exact part.mono taken.tree taken.kept

theorem readContext_lays (moved : Moved whole n fills lo o r) :
    Lays whole n fills lo o r readContext fun out r' =>
      (∀ s ∈ out.1, s.stop ≤ r'.reach) ∧ Part whole lo o.tree r' out.2 := by
  refine .bind (nextItem_lays moved) fun found r1 moved1 taken => ?_
  cases found with
  | none => exact .pure moved1 ⟨fun _ => nofun, .none⟩
  | some context =>
    have taken : Picked whole n _ _ _ _ context r1 := taken
    dsimp only
    split
    · have here : ∀ {r2 : Reader}, r1.reach ≤ r2.reach → ∀ s ∈ some context, s.stop ≤ r2.reach := by
        rintro r2 le _ ⟨⟩
        exact Nat.le_trans taken.stop le
      refine .bind (.loop moved1 (I := fun a r' => r1.reach ≤ r'.reach ∧ Part whole lo o.tree r' a)
        ⟨Nat.le_refl _, .none⟩ (fun found r2 moved ⟨le, part⟩ => ?_) fun _ _ => And.imp_right Part.stall)
        fun found r2 moved2 ⟨le, part⟩ => .pure moved2 ⟨here le, part⟩
      refine .bind (next_lays moved) fun s r3 moved3 taken => ?_
      have behind : r1.reach ≤ r3.reach := Nat.le_trans le (Taken.reach_le taken)
      cases s with
      | none =>
        obtain ⟨_, _, rfl⟩ := taken
        exact .pure moved3 ⟨behind, part.mono rfl (Nat.le_refl r2.reach)⟩
      | some s =>
        have taken : Picked whole n _ _ _ _ s r3 := taken
        have now : Part whole lo o.tree r3 found := part.mono taken.tree taken.reach_le
        dsimp only
        split
        · refine .bind (.after moved3 (readContextId_lays moved3.again moved3.went.grown.larger now))
            fun a r4 moved4 ⟨step, part⟩ => .pure moved4 ?_
          exact ⟨Nat.le_trans behind step.went.reach_le, part⟩
        · split
          · exact .pure moved3 ⟨behind, now⟩
          · refine .bind (pushBack_lays taken) fun _ r4 moved4 same => .pure moved4 ?_
            subst same
            exact ⟨Nat.le_trans le taken.kept, part.mono taken.tree taken.kept⟩
    · exact .bind (pushBack_lays taken) fun _ _ moved _ => .pure moved ⟨fun _ => nofun, .none⟩

theorem readSettingsAndMusicInto_lays (deep : Deep whole n deeper)
    (moved : Moved whole n (some id) lo o r) :
    Lays whole n (some id) lo o r (readSettingsAndMusicInto deeper id) Anything := by
  refine .loop moved trivial fun _ r1 moved _ => ?_
  refine .bind (readOne_lays deep moved.stable) fun child r2 step row => ?_
  cases child with
  | none => exact .pure (moved.on moved.gap step) trivial
  | some child =>
    refine .bind (append_lays moved moved.gap step row.found) fun _ _ moved _ => .tree ?_
    split
    · exact .pure moved trivial
    · exact .pure moved trivial

theorem readTranslator_gives (deep : Deep whole n deeper) (t : Token) :
    Gives whole n t (readTranslator deeper t) := by
  refine .addFor fun id o here => ?_
  refine .bind (bounded_lays here (P := fun out r' => (∀ s ∈ out.1, s.stop ≤ r'.reach) ∧
    Part whole t.start o.tree r' out.2) fun r0 same here => ?_) fun out r1 moved1 ⟨_, stops, part⟩ => ?_
  · subst same
    exact readContext_lays here
  have stops : ∀ s ∈ out.1.1, s.stop ≤ r1.reach := stops
  have part : Part whole t.start o.tree r1 out.1.2 := ⟨part.token, part.item⟩
  refine .bind (setDetails_lays moved1 (fun s member => ?_) fun c member => ?_) fun _ r2 moved2 _ => ?_
  · obtain ⟨a, listed, mark⟩ := List.mem_filterMap.mp member
    simp only [List.mem_cons, List.not_mem_nil, or_false] at listed
    rcases listed with rfl | rfl
    · exact stops s mark
    · exact part.mark mark
  · exact part.single (Option.mem_toList.mp member)
  · dsimp only
    split
    · exact .bind (readSettingsAndMusicInto_lays deep moved2) fun _ _ moved _ => .pure moved rfl
    · exact .pure moved2 rfl

theorem readClef_gives (t : Token) : Gives whole n t (readClef t) := by
  refine .addFor fun id o here => ?_
  have finish : ∀ {r1 : Reader} {specifier : Option Attribute}, Moved whole n (some id) t.start o r1 →
      Part whole t.start o.tree r1 specifier →
      Lays whole n (some id) t.start o r1 (setDetails id (.clef specifier) >>= fun _ => pure id)
        fun a _ => a = id := by
    intro r1 specifier moved part
    refine .bind (setDetails_lays moved (fun s member => ?_) fun c member => ?_) fun _ _ moved _ =>
      .pure moved rfl
    · exact part.mark (Option.mem_toList.mp member)
    · exact part.single (Option.mem_toList.mp member)
  refine .bind (nextItem_lays here) fun found r1 moved1 taken => ?_
  cases found with
  | none => exact finish moved1 .none
  | some s =>
    have taken : Picked whole n _ _ _ _ s r1 := taken
    dsimp only
    split
    · exact finish moved1 taken.part
    · split
      · exact .bind ((readString_gives s).behind taken) fun _ _ moved ⟨_, single⟩ =>
          finish moved single.part
      · exact .bind (pushBack_lays taken) fun _ _ moved _ => finish moved .none

end Context

section Tempo

/-- The last token of a tempo can be given back if it was of no use. -/
def GivesBack (whole : Prop) (n : Nat) (id : ItemId) (lo : Nat) (o : Reader) (p : TempoParts)
    (r : Reader) : Prop :=
  p.unused.isSome → 0 < r.index ∧ Went whole n (some id) lo o r.giveBack

theorem readTempoPart_lays (deep : Deep whole n deeper) (p : TempoParts)
    (took : Picked whole n (some id) lo o r t r') :
    Lays whole n (some id) lo o r' (readTempoPart deeper id p t) (GivesBack whole n id lo o) := by
  have part : ∀ q : TempoParts, q.unused = none → Lays whole n (some id) lo o r' (do
      appendIf id (← free (deeper .item t))
      return q) (GivesBack whole n id lo o) := by
    intro q used
    refine .bind (free_deeper_lays deep .item took.spare took.room) fun child r2 step offered => ?_
    refine .bind (appendTaken_lays took step offered) fun _ _ moved _ => .pure moved fun unused => ?_
    rw [used] at unused
    cases unused
  have unused : Lays whole n (some id) lo o r' (pure { p with unused := some t })
      (GivesBack whole n id lo o) :=
    .pure took.moved fun _ => ⟨took.taken, took.back.went⟩
  unfold readTempoPart
  split
  · split
    · exact part _ rfl
    · split
      · exact .bind (readDuration_took_lays took) fun _ _ moved _ => .pure moved nofun
      · split
        · exact .bind (setToken_lays took) fun _ _ moved _ => .pure moved nofun
        · exact unused
  · split
    · exact part _ rfl
    · split
      · refine .bind (addToken_lays took.moved ?_) fun _ _ moved _ => .pure moved nofun
        rintro _ ⟨⟩
        exact took.within
      · exact unused

theorem readTempo_gives (deep : Deep whole n deeper) (t : Token) : Gives whole n t (readTempo deeper t) := by
  refine .addFor fun id o here => .bind (bounded_went here (P := Anything) fun r0 _ here => ⟨?_, trivial⟩)
    fun _ _ moved _ => .pure moved rfl
  refine Lays.went_bind (P := GivesBack whole n id t.start r0) (.loop here ?_ (fun p r1 moved back => ?_)
    fun _ _ back unused => And.imp_right Went.stall (back unused)) fun p r1 went back => ?_
  · rintro ⟨⟩
  · refine .bind (next_lays moved) fun found r2 moved2 taken => ?_
    cases found with
    | none =>
      obtain ⟨_, source, rfl⟩ := taken
      exact .pure moved2 fun unused => ⟨(back unused).1, (back unused).2.switch source⟩
    | some s =>
      have taken : Picked whole n _ _ _ _ s r2 := taken
      exact .bind (readTempoPart_lays deep p taken) fun _ _ moved back => .pure moved back
  · split
    · rename_i unused
      obtain ⟨taken, back⟩ := back (Option.isSome_of_any unused)
      exact (congrArg (Went whole n (some id) t.start r0) (pushBack_of_taken taken)).mpr back
    · exact went

end Tempo

section Repeat

theorem readRepeatedMusic_lays (deep : Deep whole n deeper) (moved : Moved whole n (some id) lo o r) :
    Lays whole n (some id) lo o r (readRepeatedMusic deeper id) Anything := by
  refine readInto_lays deep moved fun r2 moved2 => ?_
  refine .bind (nextItem_lays moved2) fun found r3 moved3 taken => ?_
  cases found with
  | none => exact .pure moved3 trivial
  | some s =>
    have taken : Picked whole n _ _ _ _ s r3 := taken
    dsimp only
    split
    · refine .bind (readAlternative_gives deep s r3 taken.spare) fun child r4 step single => ?_
      exact (append_lays taken.moved taken.gap step single.toFound).mono fun _ _ _ _ => trivial
    · exact (pushBack_lays taken).mono fun _ _ _ _ => trivial

/-- The parts of a repeat have been read. -/
def RepeatRead (whole : Prop) (lo : Nat) (t : Tree) (p : RepeatParts) (r : Reader) : Prop :=
  Part whole lo t r p.specifier ∧ Part whole lo t r p.count

theorem RepeatRead.keep {p : RepeatParts} (read : RepeatRead whole lo u p o)
    (moved : Moved whole n fills m o r) (old : ∀ id ∈ fills, id < u.size) : RepeatRead whole lo u p r :=
  ⟨read.1.keep moved old, read.2.keep moved old⟩

theorem readRepeatPart_lays (deep : Deep whole n deeper) (took : Picked whole n (some id) lo o r t r')
    {p : RepeatParts} (read : RepeatRead whole lo o.tree p r) :
    Lays whole n (some id) lo o r' (readRepeatPart deeper id p t) fun turn r'' =>
      RepeatRead whole lo o.tree turn.value r'' := by
  have old : ∀ c ∈ some id, c < o.tree.size := by
    rintro _ ⟨⟩
    exact (took.moved.went.filling id rfl).old
  have now : RepeatRead whole lo o.tree p r' :=
    ⟨read.1.mono took.tree took.reach_le, read.2.mono took.tree took.reach_le⟩
  unfold readRepeatPart
  split
  · exact .pure took.moved ⟨took.part, now.2⟩
  · split
    · refine .bind ((readString_gives t).behind took) fun c r1 moved1 ⟨step, single⟩ => .pure moved1 ?_
      exact ⟨single.part, now.2.keep step fun _ => nofun⟩
    · split
      · exact .pure took.moved ⟨now.1, took.part⟩
      · split
        · refine .bind (readScheme_gives deep t r' took.spare) fun c r1 step found => ?_
          have moved1 := took.moved.on took.gap step
          have read := now.keep step fun _ => nofun
          have single := found.since took.low took.moved.went.grown.larger
          split
          · exact .pure moved1 ⟨single.part, read.2⟩
          · split
            · exact .pure moved1 ⟨read.1, single.part⟩
            · have append := append_lays took.moved.again ⟨took.low, took.laid⟩ step found.toFound
              exact .bind (.after took.moved append) fun _ r2 moved2 ⟨fill, _⟩ =>
                .pure moved2 (now.keep fill old)
        · refine .bind (pushBack_lays took) fun _ r1 moved1 same => ?_
          have read : RepeatRead whole lo o.tree p r1 := by
            subst same
            exact ⟨read.1.mono took.tree took.kept, read.2.mono took.tree took.kept⟩
          exact .bind (.after moved1 (readRepeatedMusic_lays deep moved1.again))
            fun _ r2 moved2 ⟨fill, _⟩ => .pure moved2 (read.keep fill old)

theorem readRepeat_gives (deep : Deep whole n deeper) (t : Token) :
    Gives whole n t (readRepeat deeper t) := by
  refine .addFor fun id o here => .bind (.loop here (I := RepeatRead whole t.start o.tree)
    ⟨.none, .none⟩ (fun p r1 moved read => ?_) fun _ _ => And.imp Part.stall Part.stall)
    fun p r1 moved1 read => ?_
  · refine .bind (nextItem_lays moved) fun found r2 moved2 taken => ?_
    cases found with
    | none =>
      obtain ⟨_, tree, le⟩ := taken
      exact .pure moved2 ⟨read.1.mono tree le, read.2.mono tree le⟩
    | some s => exact readRepeatPart_lays deep taken read
  · refine .bind (setDetails_lays moved1 (fun s member => ?_) fun c member => ?_) fun _ _ moved _ =>
      .pure moved rfl
    · obtain ⟨a, listed, mark⟩ := List.mem_filterMap.mp member
      simp only [List.mem_cons, List.not_mem_nil, or_false] at listed
      rcases listed with rfl | rfl
      · exact read.1.mark mark
      · exact read.2.mark mark
    · obtain ⟨a, listed, held⟩ := List.mem_filterMap.mp member
      simp only [List.mem_cons, List.not_mem_nil, or_false] at listed
      rcases listed with rfl | rfl
      · exact read.1.single held
      · exact read.2.single held

end Repeat

section Ratio

theorem readRatio_lays (moved : Moved whole n (some id) lo o r) (isTuplet : Bool) :
    Lays whole n (some id) lo o r (readRatio id isTuplet) Anything := by
  refine .loop moved trivial fun ratio r1 moved _ => ?_
  refine .bind (next_lays moved) fun found r2 moved2 taken => ?_
  cases found with
  | none => exact .pure moved2 trivial
  | some s =>
    have taken : Picked whole n _ _ _ _ s r2 := taken
    dsimp only
    split
    · refine .bind (addFor_gives .number s r2 taken.spare) fun child r3 step single => ?_
      exact .bind (append_lays taken.moved taken.gap step single.toFound) fun _ _ moved _ =>
        .pure moved trivial
    · split
      · exact .bind (readDuration_took_lays taken) fun _ _ moved _ => .pure moved trivial
      · split
        · exact .pure moved2 trivial
        · exact .bind (pushBack_lays taken) fun _ _ moved _ => .pure moved trivial

theorem readFactor_lays (deep : Deep whole n deeper) (moved : Moved whole n (some id) lo o r) :
    Lays whole n (some id) lo o r (readFactor deeper id) Anything := by
  refine .bind (readOne_lays deep moved.stable) fun child r1 step row => ?_
  cases child with
  | none => exact .pure (moved.on moved.gap step) trivial
  | some child =>
    exact .bind (append_lays moved moved.gap step row.found) fun _ _ moved _ => .tree (.pure moved trivial)

theorem readScaler_gives (deep : Deep whole n deeper) (t : Token) :
    Gives whole n t (readScaler deeper t) := by
  refine .addFor fun id o here => ?_
  have finish : ∀ {r1 : Reader} (ratio : Ratio), Moved whole n (some id) t.start o r1 →
      Lays whole n (some id) t.start o r1 (do
        setDetails id (.scaler ratio.numerator ratio.denominator ratio.scaling)
        appendIf id (← readOne deeper)
        return id) fun a _ => a = id := by
    intro r1 ratio moved
    exact .bind (setDetails_bare_lays moved rfl rfl) fun _ r2 moved2 _ =>
      readInto_lays deep moved2 fun _ moved => .pure moved rfl
  dsimp only
  split
  · exact .bind (readFactor_lays deep here) fun ratio _ moved _ => finish ratio moved
  · exact .bind (readRatio_lays here _) fun ratio _ moved _ => finish ratio moved

theorem readTimeSignature_gives (deep : Deep whole n deeper) (t : Token) :
    Gives whole n t (readTimeSignature deeper t) := by
  refine .addFor fun id o here => .bind (.loop here (I := fun (p : MeterParts) r' =>
    Part whole t.start o.tree r' (p.beatStructure.map .item)) .none (fun p r1 moved part => ?_)
    fun _ _ => Part.stall) fun p r1 moved1 part => ?_
  · refine .bind (nextItem_lays moved) fun found r2 moved2 taken => ?_
    cases found with
    | none => exact .pure moved2 (part.mono taken.2.1 taken.2.2)
    | some s =>
      have taken : Picked whole n _ _ _ _ s r2 := taken
      have now : Part whole t.start o.tree r2 (p.beatStructure.map .item) :=
        part.mono taken.tree taken.reach_le
      dsimp only
      split
      · exact .bind ((readScheme_gives deep s).behind taken) fun _ _ moved ⟨_, single⟩ =>
          .pure moved single.part
      · split
        · refine .pure moved2 ?_
          dsimp only [Turn.value]
          split
          · exact now
          · split
            · exact now
            · exact now
        · refine .bind (pushBack_lays taken) fun _ r3 moved3 same => .pure moved3 ?_
          subst same
          exact part.mono taken.tree taken.kept
  · refine .bind (setDetails_lays moved1 (fun _ => nofun) fun c member => ?_) fun _ _ moved _ =>
      .pure moved rfl
    refine part.single ?_
    rw [Option.mem_toList.mp member]
    rfl

end Ratio

section Language

theorem setLanguage_lays (moved : Moved whole n fills lo o r) (language : String) :
    Lays whole n fills lo o r (setLanguage language) fun _ r' => r' = { r with language } :=
  modify_lays (moved.aside language r.inChord moved.went.sound.timely.1)

theorem readLanguage_gives (deep : Deep whole n deeper) (t : Token) :
    Gives whole n t (readLanguage deeper t) := by
  refine .addFor fun id o here => ?_
  have finish : ∀ {r1 : Reader} (language : Option String), Moved whole n (some id) t.start o r1 →
      Lays whole n (some id) t.start o r1 (setDetails id (.language language) >>= fun _ => pure id)
        fun a _ => a = id := fun _ moved =>
    .bind (setDetails_bare_lays moved rfl rfl) fun _ _ moved _ => .pure moved rfl
  refine .bind (readOne_lays deep here.stable) fun child r1 step row => ?_
  cases child with
  | none => exact finish _ (here.on here.gap step)
  | some child =>
    refine .bind (append_lays here here.gap step row.found) fun _ r2 moved2 _ => .tree ?_
    split
    · refine .tree ?_
      dsimp only
      split
      · exact .bind (setLanguage_lays moved2 _) fun _ _ moved _ => finish _ moved
      · exact finish _ moved2
    · exact finish _ moved2

end Language

section Regroup

theorem single_append {b : Nat} {v : Tree} {c : ItemId} (laid : v.Laid whole b) (opened : v.Open id)
    (ready : v.Ready whole b id c) (new : u.size ≤ id) (starts : lo ≤ (v.item id).position) :
    Single whole lo u (v.append id c) b id := by
  have now := Tree.open_append laid opened ready
  refine ⟨⟨new, now.inside, ?_, ?_, .inr (.inl ?_), fun q member => now.unheld q (.inr member),
    fun q holds => absurd holds (now.unheld q)⟩, now.unheld⟩
  · rw [Tree.item_moved]
    exact starts
  · rw [Tree.item_moved]
    exact Nat.lt_of_le_of_lt ready.below ready.early
  · rw [Tree.children_append _ opened.inside, if_pos rfl]
    exact List.append_ne_nil_of_right_ne_nil _ (List.cons_ne_nil _ _)

theorem appendRead_lays (moved : Moved whole n none lo o r) (opened : r.tree.Open id) {c : ItemId}
    (ready : r.tree.Ready whole r.reach id c) (mine : o.tree.size ≤ id) (new : o.tree.size ≤ c)
    (loose : ∀ q, r.tree.Holds q c → o.tree.size ≤ q) :
    Lays whole n none lo o r (append id c) fun _ r' => r' = { r with tree := r.tree.append id c } ∧
      (lo ≤ (r.tree.item id).position → Single whole lo o.tree r'.tree r'.reach id) := by
  have laid := moved.laid
  have grown := moved.went.grown.append laid opened.inside (.inr mine) new ready.child fun q holds =>
    .inl (loose q holds)
  exact ⟨edit_moved moved (laid.append opened ready) (moved.timely.append id c) (moved.successive.append id c) grown
      fun _ => nofun, rfl,
    single_append laid opened ready mine⟩

/-- An item that is added after what is put into it has been read. -/
theorem appendEarlier_lays (moved : Moved whole n none lo o r) (inhabited : 0 < o.tree.size)
    (single : Single whole lo o.tree r.tree r.reach id) (empty : r.tree.children id = [])
    {child : Option ItemId} (row : Tree.Row whole m o.tree r.tree r.reach child.toList)
    (early : (r.tree.item id).position ≤ m) (apart : ∀ c ∈ child, c ≠ id ∧ ¬ r.tree.Holds id c) :
    Lays whole n none lo o r (appendIf id child) fun _ r' =>
      Single whole lo o.tree r'.tree r'.reach id := by
  cases child with
  | none => exact .pure moved single
  | some c =>
    have found := row.found
    have ready := found.ready_first inhabited empty (apart c rfl).1 (apart c rfl).2
      (Nat.le_trans early found.starts)
    have opened : r.tree.Open id := ⟨single.inside, single.unheld⟩
    refine (appendRead_lays moved opened ready single.new found.new
      fun q holds => (found.loose q holds).1).mono fun _ _ _ now => ?_
    exact now.2 single.starts

theorem readInclusion_gives (deep : Deep whole n deeper) (t : Token) :
    Gives whole n t (readInclusion deeper t) := by
  refine fun r spare => .bind (readOne_lays deep spare.stable) fun name r1 step row => .tree ?_
  have moved1 : Moved whole n none t.start r r1 := spare.start.on spare.start.gap step
  -- the name that has been read starts behind the token of the command
  have unused : ∀ i, (r1.tree.item i).token ≠ some t := by
    intro i leads
    have position := (step.laid.placed i).leading t leads
    by_cases old : i < r.tree.size
    · rw [step.went.grown.item_eq old] at leads
      exact spare.laid.unused (Nat.le_refl _) i leads
    · by_cases there : i < r1.tree.size
      · have later := step.went.grown.later i (Nat.le_of_not_lt old) there
        have := spare.stop
        omega
      · rw [Tree.item_of_size_le (Nat.le_of_not_lt there)] at leads
        cases leads
  have add : ∀ {kind : ItemKind}, kind.isPrompt = false → Lays whole n none t.start r1 r1 (addFor kind t)
      (Born whole n t.start r1 kind (some t)) := fun late =>
    addUnused_lays moved1.stable spare.some_text (Nat.le_trans spare.stop step.went.reach_le) unused
      _ (fun prompt => by simp [late] at prompt) fun _ same => (Option.mem_some_iff.mp same).symm
  have finish : ∀ {kind id o r2}, Born whole n t.start r1 kind (some t) id o →
      Moved whole n (some id) t.start o r2 → r2.tree.children id = [] →
      Lays whole n none t.start r r2 (appendIf id name >>= fun _ => pure id) fun id r' =>
        Single whole t.start r.tree r'.tree r'.reach id := by
    intro kind id o r2 born moved empty
    have later := born.step moved
    have position : (r2.tree.item id).position = t.start := by
      rw [moved.went.grown.position (moved.went.filling id rfl).old, born.item]
      rfl
    have single := (born.single moved (born.occupied moved)).since (Nat.le_refl _) moved1.went.grown.larger
    have now : Moved whole n none t.start r r2 := moved1.trans later (Nat.le_refl _) fun _ => nofun
    refine .bind (appendEarlier_lays now spare.laid.inhabited single empty
      (row.keep moved1.laid later.went.grown later.went.reach_le) (position ▸ spare.low)
      fun c member => ?_) fun _ _ moved single => .pure moved single
    have there : c < id := born.new ▸ (row.each c (Option.mem_toList.mpr member)).inside
    refine ⟨Nat.ne_of_lt there, fun holds => ?_⟩
    have before := (later.went.grown.unheld id c (born.new ▸ there) holds).lt_size
    exact absurd before (Nat.not_lt_of_le (Nat.le_of_eq born.new.symm))
  dsimp only
  split
  · rename_i language _
    refine .bind (add rfl) fun id o _ born => ?_
    refine .bind (setLanguage_lays born.here language) fun _ r2 moved2 same => ?_
    refine .bind (setDetails_bare_lays moved2 rfl rfl) fun _ r3 moved3 same' => finish born moved3 ?_
    rw [same', Tree.children, Tree.item_update_self (moved2.went.filling id rfl).opened.inside _, same]
    show (o.tree.item id).children = []
    rw [born.item]
    rfl
  · refine .bind (add rfl) fun id o _ born => finish born born.here ?_
    rw [Tree.children, born.item]
    rfl

section Grace

variable {v : Tree} {b : Nat} {first second : ItemId}

theorem fresh_open (laid : v.Laid whole b) (kind : ItemKind) (position : Nat) (token : Option Token) :
    (v.push (.single kind position token)).Open v.size where
  inside := by
    rw [Tree.size_push]
    exact Nat.lt_succ_self _
  unheld q held := absurd (laid.inside q _ (Tree.holds_push.mp held)).2 (Nat.lt_irrefl _)

/-- The last child of an item may move into a new item. -/
theorem ready_within_new (laid : v.Laid whole b) (kind : ItemKind) (opened : v.Open id)
    (child : second ∈ v.children id) :
    (v.push (.single kind (v.item second).position none)).Ready whole b v.size second := by
  have holds : v.Holds id second := .inl child
  have above : v.parent second = some id := (laid.link id second).mp child
  obtain ⟨positive, inside⟩ := laid.inside id second holds
  have pushed := laid.push_bare kind (Nat.le_of_lt (laid.early id second holds))
  refine ⟨positive, ?_, Nat.ne_of_lt inside, pushed.early id second (Tree.holds_push.mpr holds),
    pushed.occupied id second (Tree.holds_push.mpr holds), fun q member => ?_, fun q held => ?_,
    fun d member => ?_, ?_⟩
  · rw [Tree.size_push]
    exact Nat.lt_succ_of_lt inside
  · rw [Tree.details_push] at member
    cases above.symm.trans (laid.attributes q second member)
  · have same : q = id := by
      rcases Tree.holds_push.mp held with member | member
      · exact Option.some.inj (((laid.link q second).mp member).symm.trans above)
      · cases above.symm.trans (laid.attributes q second member)
    subst same
    exact ⟨Nat.ne_of_lt opened.inside, fun i held => opened.unheld i (Tree.holds_push.mp held)⟩
  · rw [Tree.children_push, Tree.children_of_size_le (Nat.le_refl _)] at member
    cases member
  · rw [Tree.item_push, if_pos rfl, Tree.item_push_lt inside]
    exact Nat.le_refl _

/-- The new item takes the place of the child that moved into it. -/
theorem ready_in_place (laid : v.Laid whole b) (kind : ItemKind) (opened : v.Open id)
    (children : v.children id = [first, second]) :
    ((v.push (.single kind (v.item second).position none)).append v.size second).Ready whole b id v.size := by
  have one : first ∈ v.children id := children ▸ List.mem_cons_self
  have other : second ∈ v.children id := children ▸ List.mem_cons_of_mem _ (List.mem_singleton_self _)
  -- the first child keeps its place, so all that changes is what comes behind it
  have before : v.Before first second := by
    have sorted := laid.sorted id
    rw [children] at sorted
    exact (List.pairwise_cons.mp sorted).1 second (List.mem_singleton_self _)
  have ready := ready_within_new laid kind opened other
  have pushed := laid.push_bare kind (Nat.le_of_lt (laid.early id second (.inl other)))
  generalize same : v.push (.single kind (v.item second).position none) = u at ready pushed
  have new : u.Open v.size := same ▸ fresh_open laid kind _ none
  have item : ∀ {i}, i < v.size → u.item i = v.item i := fun there => by
    rw [← same]
    exact Tree.item_push_lt there
  have position : (u.item v.size).position = (v.item second).position := by
    rw [← same, Tree.item_push, if_pos rfl]
    rfl
  have lists : u.children id = [first, second] := by
    rw [← same, Tree.children_push, children]
  have inside : v.size < (u.append v.size second).size := by
    rw [Tree.size_append]
    exact new.inside
  have ne : id ≠ v.size := Nat.ne_of_lt opened.inside
  have unheld : ∀ q, ¬ (u.append v.size second).Holds q v.size :=
    (Tree.open_append pushed new ready).unheld
  refine ⟨laid.inhabited, inside, ne.symm, ?_, .inr (.inl ?_), fun q member => unheld q (.inr member),
    fun q held => absurd held (unheld q), fun d member => ?_, ?_⟩
  · rw [Tree.item_moved, position]
    exact laid.early id second (.inl other)
  · rw [Tree.children_append _ new.inside, if_pos rfl]
    exact List.append_ne_nil_of_right_ne_nil _ (List.cons_ne_nil _ _)
  · rw [Tree.children_append _ new.inside, if_neg ne, List.append_nil, pushed.mem_detach, lists] at member
    obtain ⟨member, moved⟩ := member
    have same : d = first := by
      simpa [moved] using member
    subst same
    have there := (laid.inside id d (.inl one)).2
    refine ⟨?_, ?_⟩
    · rw [Tree.item_moved, Tree.item_moved, position, item there]
      exact before.starts
    · rw [Tree.item_moved, position]
      refine pushed.ends_append new ready.child (Nat.ne_of_lt there) ?_
      rw [← ‹_ = u›]
      exact Tree.ends_push laid there before.ends
  · rw [Tree.item_moved, Tree.item_moved, position, item opened.inside]
    exact laid.below id second other

theorem open_without (laid : v.Laid whole b) (kind : ItemKind) (opened : v.Open id)
    (child : second ∈ v.children id) :
    ((v.push (.single kind (v.item second).position none)).append v.size second).Open id := by
  have ready := ready_within_new laid kind opened child
  have pushed := laid.push_bare kind (Nat.le_of_lt (laid.early id second (.inl child)))
  refine Tree.Open.append ⟨?_, fun q held => ?_⟩ pushed (fresh_open laid kind _ none).inside ready.child ?_
  · exact Nat.lt_trans opened.inside (fresh_open laid kind _ none).inside
  · exact opened.unheld q (Tree.holds_push.mp held)
  · rintro rfl
    exact opened.unheld _ (.inl child)

end Grace

/-- The second argument gets an item of its own, which takes its place. -/
theorem readAfterGrace_gives (deep : Deep whole n deeper) (t : Token) :
    Gives whole n t (readAfterGrace deeper t) := by
  refine fun r spare => .bind (readArguments_lays deep .afterGrace 2 spare) fun id r1 moved1 begun => ?_
  obtain ⟨kind, o, born, moved⟩ := begun
  have single := born.single moved (born.occupied moved)
  have starts := single.starts
  refine .tree ?_
  split
  · rename_i first second children
    have laid := moved1.laid
    have listed : second ∈ r1.tree.children id := by
      rw [children]
      exact List.mem_cons_of_mem _ (List.mem_singleton_self _)
    have found := found_child born moved listed
    have inside := found.inside
    have position : (r1.tree.item id).position ≤ (r1.tree.item second).position := laid.below id _ listed
    refine .tree ?_
    have push : Lays whole n none t.start r r1 (add .grace (r1.tree.item second).position none)
        fun grace r2 => grace = r1.tree.size ∧
          r2 = { r1 with tree := r1.tree.push (.single .grace (r1.tree.item second).position none) } :=
      ⟨push_moved moved1 (Nat.le_trans single.starts position) (Nat.le_of_lt found.early)
        (fun _ => nofun) (fun _ => nofun) nofun, rfl, rfl⟩
    refine .bind push fun grace r2 moved2 ⟨new, same⟩ => ?_
    subst new
    have opened : r1.tree.Open id := ⟨single.inside, single.unheld⟩
    have behind : r.tree.size ≤ r1.tree.size := moved1.went.grown.larger
    have fresh := fresh_open laid .grace (r1.tree.item second).position none
    have first := ready_within_new laid .grace opened listed
    have last := ready_in_place laid .grace opened children
    have still := open_without laid .grace opened listed
    subst same
    refine .bind (appendRead_lays moved2 fresh first behind found.new fun q held =>
      (found.loose q (Tree.holds_push.mp held)).1) fun _ r3 moved3 ⟨same, _⟩ => ?_
    subst same
    have free := (Tree.open_append moved2.laid fresh first).unheld
    refine .bind (appendRead_lays moved3 still last single.new behind fun q held =>
      absurd held (free q)) fun _ r4 moved4 ⟨_, single⟩ => .pure moved4 (single ?_)
    rw [Tree.item_moved, Tree.item_push_lt opened.inside]
    exact starts
  · exact .pure moved1 single

end Regroup

theorem readCommand_gives (deep : Deep whole n deeper) (k : Lily.Kind) (t : Token) :
    Gives whole n t (readCommand deeper k t) := by
  unfold readCommand
  split
  · exact readNotesAndMusic_gives deep .relative t 1
  · exact readArguments_gives deep .absolute t 1
  · exact readNotesAndMusic_gives deep .transpose t 2
  · exact readArguments_gives deep .keySignature t 2
  iterate 3
    · exact readScaler_gives deep t
  iterate 2
    · exact (readArguments_gives deep .tag t 3).free
  iterate 3
    · exact (readArguments_gives deep .tag t 2).free
  iterate 4
    · exact readArguments_gives deep .grace t 1
  · exact readAfterGrace_gives deep t
  · exact readAlternative_gives deep t
  · exact readTimeSignature_gives deep t
  · exact .addFor fun _ _ here => .bind (readDuration_none_lays here) fun _ _ moved _ => .pure moved rfl
  · exact readArguments_gives deep .stringTuning t 1
  iterate 2
    · exact readParts_gives deep t
  · exact readLanguage_gives deep t
  · exact readInclusion_gives deep t
  · exact readArguments_gives deep .version t 1
  · exact addFor_gives _ t

end Reading

end ScoreText
