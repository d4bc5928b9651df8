import ScoreText.Music.Reading.Command
import ScoreText.Proofs.GradingNotes

/-! Grades of settings and of commands. A Scheme expression that a setting or a repeat reads itself is of the
level of its holder, as an alternative is, and as are grace notes behind music. -/
namespace ScoreText

namespace Graded

variable {g h : Graded} {c id : ItemId} {n : Nat}

theorem mem_below (g : Graded) (m : Nat) (member : c ∈ g.tree.below m id) :
    c < g.tree.size ∧ (g.grade c).level ≤ (g.grade id).level ∧
      ((g.grade c).hold = .lyrics → g.tree.kind c = .musicList) := by
  induction m generalizing id with
  | zero => cases member
  | succ m ih =>
    obtain ⟨d, child, member⟩ := List.mem_flatMap.mp member
    have fits := g.fits id d child
    have lower : (g.grade d).level ≤ (g.grade id).level := fits.level.elim Nat.le_of_lt And.left
    rcases List.mem_cons.mp member with rfl | member
    · exact ⟨g.inside id c child, lower, fun lyrics => (fits.lyrics lyrics).1⟩
    · obtain ⟨inside, level, lyrics⟩ := ih member
      exact ⟨inside, Nat.le_trans level lower, lyrics⟩

theorem found_scheme (is : (g.grade id).level ≤ n) {s : ItemId} (found : g.tree.find? id .scheme = some s) :
    g.Low n s ∧ g.Above 0 s := by
  have kind : g.tree.kind s = .scheme := by simpa using List.find?_some found
  obtain ⟨inside, level, lyrics⟩ := g.mem_below g.tree.size (List.mem_of_find?_eq_some found)
  refine ⟨⟨inside, Nat.le_trans level is, fun list => ?_⟩, inside, g.scheme s inside kind⟩
  rw [lyrics list] at kind
  cases kind

end Graded

namespace Reading

open ScoreText.Graded Builds

variable {deeper : Deeper} {n : Nat} {g : Graded} {id : ItemId} {t : Token} {kind : ItemKind}

section Settings

theorem readWhile_builds (ks : List Lily.Kind) {act : Token → Reading Unit}
    (each : ∀ t h, g.Later h → Builds h (act t) Any) : Builds g (readWhile ks act) Any := by
  refine .loop_any fun _ h later => .bind nextItem_builds fun found k further _ => ?_
  cases found with
  | none => exact .pure trivial
  | some t =>
    dsimp only
    split
    · exact .bind (each t k (later.trans further)) fun _ _ _ _ => .pure trivial
    · exact .pure trivial

theorem readUnset_builds (t : Token) : Builds g (readUnset t) fun id h => h.Low (n + 1) id := by
  refine filled_low fun id h above => .bind (.bounded (P := Any) ?_) fun _ _ _ _ => .pure rfl
  refine .bind (readWhile_builds _ fun t k _ => addToken_builds) fun stop k _ _ => ?_
  split
  · exact pushBack_builds
  · exact .pure trivial

theorem addPathStep_builds (above : g.Above n id) (t : Token) : Builds g (addPathStep id t) Any :=
  appendLeaf_builds .pathItem t nofun above

variable (deep : Deepens n deeper)
include deep

/-- What a Scheme expression is read for is a setting or a repeat, which may hold it. -/
theorem appendScheme_builds {α : Type} {a : α} {holder : ItemKind} (is : g.Is holder ⟨n + 1, .plain⟩ id)
    (t : Token) (joins : ∀ s i : Item, s.kind = .scheme → i.kind = holder → s.joins i) :
    Builds g (do
      append id (← readScheme deeper t)
      return a) fun b _ => b = a := by
  refine .bind (readScheme_builds deep t) fun s h later scheme => ?_
  have is := is.later later
  exact .bind (append_joined is scheme (joins _ _ scheme.kind is.kind)) fun _ _ _ _ => .pure rfl

/-- In place of an assignment a Scheme expression may be given. -/
theorem readAssignment_builds (t : Token) :
    Builds g (readAssignment deeper t) fun found h => ∀ c ∈ found, h.Low (n + 1) c ∧ h.Above 0 c := by
  refine .bind (addFor_builds g .assignment t ⟨n + 1, .plain⟩ nofun) fun id h _ is => ?_
  refine .loop (by simp) fun _ k later _ => .bind (.free nextItem_builds) fun found l further _ => ?_
  have is := is.later (later.trans further)
  have none_given : ∀ o : Graded, ∀ c ∈ (none : Option ItemId), o.Low (n + 1) c ∧ o.Above 0 c := by simp
  cases found with
  | none => exact .pure (none_given l)
  | some s =>
    dsimp only
    split
    · refine .bind setTokens_builds fun _ m behind _ => ?_
      refine readInto_low (is.later behind).above (.free (readOne_builds deep)) fun q last => .pure fun c member => ?_
      cases member
      have is := is.later (behind.trans last)
      exact ⟨is.low (Nat.le_refl _), is.inside, by simp [is.grade]⟩
    · split
      · refine .tree ?_
        split
        · rename_i scheme found
          obtain ⟨low, above⟩ := found_scheme (by simp [is.grade] : (l.grade id).level ≤ n + 1) found
          refine .bind pushBack_builds fun _ m behind _ => .pure fun c member => ?_
          cases member
          exact ⟨low.later behind, above.later behind⟩
        · refine (appendScheme_builds deep is s ?_).mono fun turn m _ same => ?_
          · intro s i scheme holder
            simp [Item.joins, scheme, holder]
          · subst same
            exact none_given m
      · exact .bind pushBack_builds fun _ m _ _ => .pure (none_given m)

theorem readVariable_builds (t : Token) :
    Builds g (readVariable deeper t) fun found h => ∀ c ∈ found, h.Low (n + 1) c := by
  refine .bind (readAssignment_builds deep t) fun found h _ given => ?_
  cases found with
  | none => exact .pure none_low
  | some id =>
    obtain ⟨low, above⟩ := given id rfl
    refine .bind (.free nextItem_builds) fun unit k later _ => ?_
    have same : ∀ m, k.Later m → ∀ c ∈ some id, m.Low (n + 1) c := by
      intro m further c member
      cases member
      exact low.later (later.trans further)
    cases unit with
    | none => exact .pure (same k (.refl k))
    | some s =>
      dsimp only
      split
      · refine .bind (leaf_low 0 .command s nofun) fun child l further leaf => ?_
        refine .bind (append_low (above.later (later.trans further)) leaf) fun _ m behind _ => ?_
        exact .pure (same m (further.trans behind))
      · exact .bind pushBack_builds fun _ m further _ => .pure (same m further)

theorem readBlockInto_builds (above : g.Above n id) : Builds g (readBlockInto deeper id) Any := by
  refine .loop_any fun _ h later => .bind next_builds fun found k further _ => ?_
  cases found with
  | none => exact .pure trivial
  | some t =>
    dsimp only
    split
    · refine .bind setTokens_builds fun _ l behind _ => ?_
      have above := above.later (later.trans (further.trans behind))
      exact .bind (readRegionInto_builds deep above) fun _ _ _ _ => .pure trivial
    · split
      · exact .pure trivial
      · exact .bind pushBack_builds fun _ _ _ _ => .pure trivial

theorem readBlock_builds (kind : ItemKind) (t : Token) :
    Builds g (readBlock deeper kind t) fun id h => h.Low (n + 1) id := by
  refine filled_low fun id h above => .bind (readBlockInto_builds deep above) fun block k later _ => ?_
  dsimp only
  split
  · exact readInto_low (above.later later) (readOne_builds deep) fun _ _ => .pure rfl
  · exact .pure rfl

theorem readSet_builds (t : Token) : Builds g (readSet deeper t) fun id h => h.Low (n + 1) id := by
  refine filled_low fun id h above => .bind (P := Any) ?_ fun _ _ _ _ => .pure rfl
  refine .loop_any fun ts k later => .bind nextItem_builds fun found l further _ => ?_
  cases found with
  | none => exact .pure trivial
  | some s =>
    dsimp only
    split
    · refine .bind setTokens_builds fun _ m behind _ => ?_
      have above := above.later (later.trans (further.trans behind))
      exact readInto_low above (readOne_builds deep) fun _ _ => .pure trivial
    · exact .pure trivial

theorem readOverride_builds (t : Token) : Builds g (readOverride deeper t) fun id h => h.Low (n + 1) id := by
  refine filled_low fun id h above => .bind (.bounded (.loop_any fun _ k later => ?_)) fun _ _ _ _ => .pure rfl
  refine .bind nextItem_builds fun found l further _ => ?_
  have above := above.later (later.trans further)
  cases found with
  | none => exact .pure trivial
  | some s =>
    dsimp only
    split
    · exact readInto_low above (.free (deep .item s l)) fun _ _ => .pure trivial
    · split
      · refine .bind setTokens_builds fun _ m behind _ => ?_
        exact readInto_low (above.later behind) (.free (readOne_builds deep)) fun _ _ => .pure trivial
      · exact .bind (addPathStep_builds above s) fun _ _ _ _ => .pure trivial

theorem readPath_builds {holder : ItemKind} (is : g.Is holder ⟨n + 1, .plain⟩ id) (ks : List Lily.Kind)
    (joins : ∀ s i : Item, s.kind = .scheme → i.kind = holder → s.joins i) (wanted : Tree → Bool) :
    Builds g (do
      match ← readWhile ks (addPathStep id) with
      | none => pure ()
      | some t =>
        if t.kind == .lily .schemeStart && wanted (← tree) then append id (← readScheme deeper t)
        else pushBack) Any := by
  refine .bind (readWhile_builds ks fun t k later => addPathStep_builds (is.above.later later) t)
    fun stop h later _ => ?_
  cases stop with
  | none => exact .pure trivial
  | some s =>
    refine .tree ?_
    split
    · exact (appendScheme_builds deep (is.later later) s joins).any
    · exact pushBack_builds

theorem readRevert_builds (t : Token) : Builds g (readRevert deeper t) fun id h => h.Low (n + 1) id := by
  refine (Builds.addFor fun id h is => ?_).mono fun id h _ is => Is.low is (Nat.le_refl _)
  refine .bind (.bounded (readPath_builds deep is _ ?_ fun u => !namesProperty u id)) fun _ _ _ _ => .pure rfl
  intro s i scheme holder
  simp [Item.joins, scheme, holder]

theorem readTweak_builds (t : Token) : Builds g (readTweak deeper t) fun id h => h.Low (n + 1) id := by
  refine (Builds.addFor fun id h is => ?_).mono fun id h _ is => Is.low is (Nat.le_refl _)
  refine .bind (.bounded (readPath_builds deep is _ ?_ fun u => (u.children id).isEmpty)) fun _ k later _ => ?_
  · intro s i scheme holder
    simp [Item.joins, scheme, holder]
  · exact readInto_low (is.above.later later) (.free (readOne_builds deep)) fun _ _ => .pure rfl

end Settings

section Commands

theorem readContextId_builds (found : Option Attribute) : Builds g (readContextId found) Any := by
  refine .loop_any fun found h _ => .bind next_builds fun taken k _ _ => ?_
  cases taken with
  | none => exact .pure trivial
  | some t =>
    dsimp only
    split
    · exact .bind (readString_builds (n := 0) t) fun _ _ _ _ => .pure trivial
    · split
      · exact .pure trivial
      · split
        · exact .pure trivial
        · exact .bind pushBack_builds fun _ _ _ _ => .pure trivial

theorem readContext_builds : Builds g readContext Any := by
  refine .bind nextItem_builds fun found h _ _ => ?_
  cases found with
  | none => exact .pure trivial
  | some t =>
    dsimp only
    split
    · refine .bind (.loop_any fun found k _ => .bind next_builds fun taken l _ _ => ?_) fun _ _ _ _ => .pure trivial
      cases taken with
      | none => exact .pure trivial
      | some s =>
        dsimp only
        split
        · exact .bind (readContextId_builds found) fun _ _ _ _ => .pure trivial
        · split
          · exact .pure trivial
          · exact .bind pushBack_builds fun _ _ _ _ => .pure trivial
    · exact .bind pushBack_builds fun _ _ _ _ => .pure trivial

theorem readClef_builds (t : Token) : Builds g (readClef t) fun id h => h.Low (n + 1) id := by
  have last : ∀ id h, Graded.Low h (n + 1) id → ∀ specifier : Option Attribute, Builds h (do
      setDetails id (.clef specifier)
      return id) fun id h => h.Low (n + 1) id :=
    fun id h low specifier => .bind setDetails_builds fun _ k later _ => .pure (low.later later)
  refine .bind (leaf_low (n + 1) .clef t nofun) fun id h _ low => .bind nextItem_builds fun found k later _ => ?_
  have low := low.later later
  cases found with
  | none => exact last id k low none
  | some s =>
    dsimp only
    split
    · exact last id k low _
    · split
      · exact .bind (readString_builds (n := 0) s) fun _ l further _ => last id l (low.later further) _
      · exact .bind pushBack_builds fun _ l further _ => last id l (low.later further) _

theorem readRatio_builds (above : g.Above n id) (isTuplet : Bool) : Builds g (readRatio id isTuplet) Any := by
  refine .loop_any fun ratio h later => .bind next_builds fun found k further _ => ?_
  have above := above.later (later.trans further)
  cases found with
  | none => exact .pure trivial
  | some t =>
    dsimp only
    split
    · refine .bind (leaf_low n .number t nofun) fun child l behind low => ?_
      refine .bind (append_low (above.later behind) low) fun _ _ _ _ => ?_
      exact .pure trivial
    · split
      · exact .bind (readDuration_builds above (some t)) fun _ _ _ _ => .pure trivial
      · split
        · exact .pure trivial
        · exact .bind pushBack_builds fun _ _ _ _ => .pure trivial

variable (deep : Deepens n deeper)
include deep

/-- The arguments of a command are below its own level, however it holds others. -/
theorem readArguments_builds (kind : ItemKind) (t : Token) (count : Nat) (hold : Hold) :
    Builds g (readArguments deeper kind t count) fun id h =>
      h.Is kind ⟨n + 1, hold⟩ id ∧ g.tree.size ≤ id := by
  refine .bind (add_builds g kind t.start (some t) ⟨n + 1, hold⟩ fun _ => Nat.succ_pos n) fun id h _ added => ?_
  obtain ⟨is, _, new⟩ := added
  exact .bind (readArgumentsInto_builds deep count is.above) fun _ _ later _ => .pure ⟨is.later later, new⟩

theorem readArguments_low (kind : ItemKind) (t : Token) (count : Nat) :
    Builds g (readArguments deeper kind t count) fun id h => h.Low (n + 1) id :=
  (readArguments_builds deep kind t count .plain).mono fun _ _ _ answer => answer.1.low (Nat.le_refl _)

theorem readNotesAndMusic_builds (kind : ItemKind) (t : Token) (notes : Nat) :
    Builds g (readNotesAndMusic deeper kind t notes) fun id h => h.Low (n + 1) id := by
  refine filled_low fun id h above => .bind (P := Any) ?_ fun _ _ _ _ => .pure rfl
  refine .loop_any fun m k later => .bind (readOne_builds deep) fun child l further low => ?_
  cases child with
  | none => exact .pure trivial
  | some c =>
    refine .bind (append_low (above.later (later.trans further)) (low c rfl)) fun _ o _ _ => .tree ?_
    split <;> exact .pure trivial

omit deep in
theorem strict_child (is : g.Is .afterGrace ⟨n + 1, .strict⟩ id) {c : ItemId} (child : c ∈ g.tree.children id) :
    g.Low n c := by
  have apart : ¬ HostsLyrics g.tree g.grade id := by
    simp [HostsLyrics, is.kind, is.grade, ItemKind.isLyricMode]
  have fits := g.fits id c child
  have below : (g.grade c).level < (g.grade id).level := by
    simpa [is.grade, apart] using fits.level
  rw [is.grade] at below
  exact ⟨g.inside id c child, Nat.le_of_lt_succ below, fun lyrics => apart (fits.lyrics lyrics).2⟩

/-- The item that is added for the grace notes is of the level of its holder. Nothing else is, so the holder
is strict until then. -/
theorem readAfterGrace_builds (t : Token) :
    Builds g (readAfterGrace deeper t) fun id h => h.Low (n + 1) id := by
  refine .regrade (readArguments_builds deep .afterGrace t 2 .strict) fun id h later answer => ?_
  obtain ⟨is, new⟩ := answer
  have strict : (h.grade id).hold = .strict := by rw [is.grade]
  refine ⟨h.relax id strict, rfl, later.relax new strict, .tree ?_⟩
  have plain := is.relax strict
  split
  · rename_i first second children
    have children : h.tree.children id = [first, second] := children
    have low := (strict_child is (c := second) (by simp [children])).relax strict
    refine .tree (.bind (add_builds _ .grace _ none ⟨n + 1, .plain⟩ nofun) fun grace k further added => ?_)
    obtain ⟨inner, token, _⟩ := added
    refine .bind (append_low inner.above (low.later further)) fun _ l behind _ => ?_
    have outer := plain.later (further.trans behind)
    have kept := behind.start grace inner.inside
    refine .bind (append_joined outer (inner.later behind) ?_) fun _ m past _ =>
      .pure ((outer.later past).low (Nat.le_refl _))
    have holder : (l.tree.item id).kind = .afterGrace := outer.kind
    have child : (l.tree.item grace).kind = .grace := kept.kind.trans inner.kind
    simp [Item.joins, holder, child, kept.token, token]
  · exact .pure (plain.low (Nat.le_refl _))

theorem readParts_builds (t : Token) : Builds g (readParts deeper t) fun id h => h.Low (n + 1) id := by
  refine filled_low fun id h above => readInto_low above (.free (readOne_builds deep)) fun k later => ?_
  exact readInto_low (above.later later) (.free (readOne_builds deep)) fun _ _ => .pure rfl

theorem readAlternative_builds (t : Token) :
    Builds g (readAlternative deeper t) fun id h => h.Is .alternative ⟨n + 1, .plain⟩ id :=
  .addFor fun _ _ is => readInto_low is.above (readOne_builds deep) fun _ _ => .pure rfl

theorem readSettingsAndMusicInto_builds (above : g.Above n id) :
    Builds g (readSettingsAndMusicInto deeper id) Any := by
  refine .loop_any fun _ h later => .bind (readOne_builds deep) fun child k further low => ?_
  cases child with
  | none => exact .pure trivial
  | some c =>
    refine .bind (append_low (above.later (later.trans further)) (low c rfl)) fun _ l _ _ => .tree ?_
    split <;> exact .pure trivial

theorem readTranslator_builds (t : Token) :
    Builds g (readTranslator deeper t) fun id h => h.Low (n + 1) id := by
  refine filled_low fun id h above => .bind (.bounded readContext_builds) fun out k later _ => ?_
  refine .bind setDetails_builds fun _ l further _ => ?_
  dsimp only
  split
  · have above := above.later (later.trans further)
    exact .bind (readSettingsAndMusicInto_builds deep above) fun _ _ _ _ => .pure rfl
  · exact .pure rfl

theorem readTempoPart_builds (above : g.Above n id) (p : TempoParts) (t : Token) :
    Builds g (readTempoPart deeper id p t) Any := by
  have item : ∀ q : TempoParts, Builds g (do
      appendIf id (← free (deeper .item t))
      return q) Any :=
    fun q => readInto_low above (.free (deep .item t g)) fun _ _ => .pure trivial
  unfold readTempoPart
  split
  · split
    · exact item _
    · split
      · exact .bind (readDuration_builds above (some t)) fun _ _ _ _ => .pure trivial
      · split
        · exact .bind setTokens_builds fun _ _ _ _ => .pure trivial
        · exact .pure trivial
  · split
    · exact item _
    · split
      · exact .bind addToken_builds fun _ _ _ _ => .pure trivial
      · exact .pure trivial

theorem readTempo_builds (t : Token) : Builds g (readTempo deeper t) fun id h => h.Low (n + 1) id := by
  refine filled_low fun id h above => .bind (.bounded (P := Any) ?_) fun _ _ _ _ => .pure rfl
  refine .bind (.loop_any fun p k later => .bind next_builds fun found l further _ => ?_) fun p k _ _ => ?_
  · have above := above.later (later.trans further)
    cases found with
    | none => exact .pure trivial
    | some s => exact .bind (readTempoPart_builds deep above p s) fun _ _ _ _ => .pure trivial
  · split
    · exact pushBack_builds
    · exact .pure trivial

theorem readRepeatedMusic_builds (is : g.Is .repetition ⟨n + 1, .plain⟩ id) :
    Builds g (readRepeatedMusic deeper id) Any := by
  refine readInto_low is.above (readOne_builds deep) fun k later => ?_
  refine .bind nextItem_builds fun found l behind _ => ?_
  have is := is.later (later.trans behind)
  cases found with
  | none => exact .pure trivial
  | some s =>
    dsimp only
    split
    · refine .bind (readAlternative_builds deep s) fun alternative m past below => ?_
      have is := is.later past
      have holder : (m.tree.item id).kind = .repetition := is.kind
      have child : (m.tree.item alternative).kind = .alternative := below.kind
      exact append_joined is below (by simp [Item.joins, holder, child])
    · exact pushBack_builds

theorem readRepeatPart_builds (is : g.Is .repetition ⟨n + 1, .plain⟩ id) (p : RepeatParts) (t : Token) :
    Builds g (readRepeatPart deeper id p t) Any := by
  unfold readRepeatPart
  split
  · exact .pure trivial
  split
  · exact .bind (readString_builds (n := 0) t) fun _ _ _ _ => .pure trivial
  split
  · exact .pure trivial
  split
  · refine .bind (readScheme_builds deep t) fun scheme h later below => ?_
    split
    · exact .pure trivial
    split
    · exact .pure trivial
    · have is := is.later later
      have holder : (h.tree.item id).kind = .repetition := is.kind
      have child : (h.tree.item scheme).kind = .scheme := below.kind
      exact .bind (append_joined is below (by simp [Item.joins, holder, child])) fun _ _ _ _ => .pure trivial
  · refine .bind pushBack_builds fun _ h later _ => ?_
    exact .bind (readRepeatedMusic_builds deep (is.later later)) fun _ _ _ _ => .pure trivial

theorem readRepeat_builds (t : Token) : Builds g (readRepeat deeper t) fun id h => h.Low (n + 1) id := by
  refine (Builds.addFor fun id h is => ?_).mono fun id h _ is => Is.low is (Nat.le_refl _)
  refine .bind (.loop_any fun p k later => .bind nextItem_builds fun found l further _ => ?_)
    fun p k _ _ => .bind setDetails_builds fun _ _ _ _ => .pure rfl
  cases found with
  | none => exact .pure trivial
  | some s => exact readRepeatPart_builds deep (is.later (later.trans further)) p s

theorem readFactor_builds (above : g.Above n id) : Builds g (readFactor deeper id) Any := by
  refine .bind (readOne_builds deep) fun child h later low => ?_
  cases child with
  | none => exact .pure trivial
  | some c => exact .bind (append_low (above.later later) (low c rfl)) fun _ _ _ _ => .tree (.pure trivial)

theorem readScaler_builds (t : Token) : Builds g (readScaler deeper t) fun id h => h.Low (n + 1) id := by
  refine filled_low fun id h above => ?_
  have last : ∀ k, h.Later k → ∀ ratio : Ratio, Builds k (do
      setDetails id (.scaler ratio.numerator ratio.denominator ratio.scaling)
      appendIf id (← readOne deeper)
      return id) fun a _ => a = id := by
    intro k later ratio
    refine .bind setDetails_builds fun _ l further _ => ?_
    exact readInto_low (above.later (later.trans further)) (readOne_builds deep) fun _ _ => .pure rfl
  dsimp only
  split
  · exact .bind (readFactor_builds deep above) fun ratio k later _ => last k later ratio
  · exact .bind (readRatio_builds above _) fun ratio k later _ => last k later ratio

theorem readTimeSignature_builds (t : Token) :
    Builds g (readTimeSignature deeper t) fun id h => h.Low (n + 1) id := by
  refine filled_low fun id h above => .bind (.loop_any fun p k _ => .bind nextItem_builds fun found l _ _ => ?_)
    fun p k _ _ => .bind setDetails_builds fun _ _ _ _ => .pure rfl
  cases found with
  | none => exact .pure trivial
  | some s =>
    dsimp only
    split
    · exact .bind (readScheme_builds deep s) fun _ _ _ _ => .pure trivial
    · split
      · exact .pure trivial
      · exact .bind pushBack_builds fun _ _ _ _ => .pure trivial

theorem readLanguage_builds (t : Token) : Builds g (readLanguage deeper t) fun id h => h.Low (n + 1) id := by
  have last : ∀ id h, ∀ language : Option String, Builds h (do
      setDetails id (.language language)
      return id) fun a _ => a = id :=
    fun id h language => .bind setDetails_builds fun _ _ _ _ => .pure rfl
  refine filled_low fun id h above => .bind (readOne_builds deep) fun child k later low => ?_
  cases child with
  | none => exact last id k none
  | some name =>
    refine .bind (append_low (above.later later) (low name rfl)) fun _ l _ _ => .tree ?_
    split
    · refine .tree ?_
      dsimp only
      split
      · exact .bind (modify_builds fun _ => rfl) fun _ m _ _ => last id m _
      · exact last id l _
    · exact last id l none

theorem readInclusion_builds (t : Token) : Builds g (readInclusion deeper t) fun id h => h.Low (n + 1) id := by
  refine .bind (readOne_builds deep) fun name h _ low => .tree ?_
  dsimp only
  split
  · refine .bind (addFor_builds h .language t ⟨n + 1, .plain⟩ nofun) fun id k later is => ?_
    refine .bind (modify_builds fun _ => rfl) fun _ l further _ => .bind setDetails_builds fun _ m behind _ => ?_
    have is := is.later (further.trans behind)
    have low : ∀ c ∈ name, m.Low n c := fun c member =>
      (low c member).later (later.trans (further.trans behind))
    exact .bind (appendIf_low is.above low) fun _ _ past _ => .pure ((is.later past).low (Nat.le_refl _))
  · refine .bind (addFor_builds h .inclusion t ⟨n + 1, .plain⟩ nofun) fun id k later is => ?_
    have low : ∀ c ∈ name, k.Low n c := fun c member => (low c member).later later
    exact .bind (appendIf_low is.above low) fun _ _ past _ => .pure ((is.later past).low (Nat.le_refl _))

theorem readCommand_builds (k : Lily.Kind) (t : Token) :
    Builds g (readCommand deeper k t) fun id h => h.Low (n + 1) id := by
  unfold readCommand
  split
  · exact readNotesAndMusic_builds deep .relative t 1
  · exact readArguments_low deep .absolute t 1
  · exact readNotesAndMusic_builds deep .transpose t 2
  · exact readArguments_low deep .keySignature t 2
  iterate 3 exact readScaler_builds deep t
  iterate 2 exact (readArguments_low deep .tag t 3).free
  iterate 3 exact (readArguments_low deep .tag t 2).free
  iterate 4 exact readArguments_low deep .grace t 1
  · exact readAfterGrace_builds deep t
  · exact (readAlternative_builds deep t).mono fun _ _ _ is => is.low (Nat.le_refl _)
  · exact readTimeSignature_builds deep t
  · exact filled_low fun id h above => .bind (readDuration_builds above none) fun _ _ _ _ => .pure rfl
  · exact readArguments_low deep .stringTuning t 1
  iterate 2 exact readParts_builds deep t
  · exact readLanguage_builds deep t
  · exact readInclusion_builds deep t
  · exact readArguments_low deep .version t 1
  · exact leaf_low (n + 1) _ t (by split <;> nofun)

end Commands
end Reading
end ScoreText
