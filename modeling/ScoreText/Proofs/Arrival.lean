import ScoreText.Proofs.Descent
import ScoreText.Proofs.StrictWalk
import ScoreText.Proofs.TimeApart

/-! The time at an item of music is the time at which the walk along the outermost music comes to it.
On the way down to the item the walk goes along what is played in front of it. The levels at the
position of the item name the same items, and what they are scaled by down there is the product of the
scalings on the way. -/
namespace ScoreText

/-- Levels enough for every token would not have made a difference: no item was nested too deep. -/
def Document.ReadWhole (doc : Document) (o : Options) : Prop :=
  doc.tree = .ofTokens doc.tokens o.language (max o.maxNestingDepth doc.tokens.length)

/-- A walk that leaves no mark comes to something and leaves a family. -/
abbrev Family.Walked {α : Type} (f : Family) (walk : Timing α) (a : α) (g : Family) : Prop :=
  (walk.run false).run f = ((a, false), g)

theorem Family.Walked.grows {α : Type} {walk : Timing α} {a : α} {f g : Family} (ran : f.Walked walk a g)
    (lasts : f.Lasts walk) (sound : f.Sound) : f.Grows g := by
  have kept := ((lasts false).kept sound).1
  rwa [ran] at kept

namespace Timing

variable {f g : Family} {d : DocumentId} {t : Tree} {id child target : ItemId}
  {front back : List ItemId} {time scaling own : Fraction}

/-- The walk along an item comes to a child of it: the time then, the scaling in effect and the family
that has been read by then. -/
inductive Meets (step : Step) (t : Tree) (id : ItemId) (time scaling : Fraction) (f : Family) :
    ItemId → Fraction → Fraction → Family → Prop
  | inTurn {child : ItemId} {front back : List ItemId} {before : Fraction} {g : Family} :
      t.startsTogether id = false → t.played id = front ++ child :: back →
      f.Walked (inTurn step front time (scaling * t.ownScaling id)) before g →
      Meets step t id time scaling f child before (scaling * t.ownScaling id) g
  | together {child : ItemId} {front back : List ItemId} {ends : List Fraction} {g : Family} :
      t.startsTogether id = true → t.children id = front ++ child :: back →
      f.Walked (front.mapM fun item => step item time scaling) ends g →
      Meets step t id time scaling f child time scaling g

/-- The walk along an item comes to an item in it at a time. Repeats on the way there are played as
written. -/
inductive Reaches (references : Nat) (d : DocumentId) (doc : Document) (target : ItemId) :
    Nat → Family → ItemId → Fraction → Fraction → Fraction → Prop
  | here {n : Nat} {f : Family} {time scaling : Fraction} :
      Reaches references d doc target n f target time scaling time
  | within {n : Nat} {f g : Family} {id child : ItemId} {time scaling before inner arrival : Fraction} :
      (doc.tree.kind id).isMusic = true → doc.tree.kind id ≠ .userCommand →
      (doc.tree.kind id = .repetition → doc.repeatStyle? id = some "volta") →
      Meets (walk false n references d) doc.tree id time scaling f child before inner g →
      Reaches references d doc target n g child before inner arrival →
      Reaches references d doc target (n + 1) f id time scaling arrival

theorem Meets.of_run {step : Step} {before inner : Fraction} (apart : t.startsTogether id = false)
    (split : t.played id = front ++ child :: back) (scaled : scaling * t.ownScaling id = inner)
    (value : (((Timing.inTurn step front time inner).run false).run f).1 = (before, false)) :
    Meets step t id time scaling f child before inner
      (((Timing.inTurn step front time inner).run false).run f).2 := by
  subst scaled
  exact .inTurn apart split (Prod.ext value rfl)

section Scaling

theorem multiply_fits (ran : f.Walked (multiply scaling own) time g) :
    (scaling * own).fits = true ∧ time = scaling * own ∧ g = f := by
  by_cases fits : (scaling * own).fits = true
  · rw [Family.Walked, multiply_of_fits fits] at ran
    cases ran
    exact ⟨fits, rfl, rfl⟩
  · rw [Family.Walked, multiply, Fraction.mul?, if_neg fits] at ran
    cases ran

end Scaling

section Expression

variable {step : Step} {doc : Document}

theorem expression_together (together : doc.tree.startsTogether id = true) :
    expression false step doc id time scaling =
      Timing.together step (doc.tree.children id) time scaling := by
  unfold Tree.startsTogether Tree.kind at together
  unfold expression
  dsimp only
  split
  · rfl
  · rfl
  all_goals simp_all

theorem repetition_written (written : doc.repeatStyle? id = some "volta") :
    repetition false step doc id time scaling =
      Timing.inTurn step (doc.tree.children id) time scaling := by
  unfold repetition
  dsimp only
  rw [if_pos (by simp [written]), Unrolled.Exact.split_repeat]

/-- All other music goes along what is played of it, one item after the other. -/
theorem expression_inTurn (inTurn : doc.tree.startsTogether id = false)
    (written : doc.tree.kind id = .repetition → doc.repeatStyle? id = some "volta")
    (fits : scaling.fits = true) :
    expression false step doc id time scaling = multiply scaling (doc.tree.ownScaling id) >>=
      fun own => Timing.inTurn step (doc.tree.played id) time own := by
  have one := multiply_one fits
  have zero : multiply scaling 0 = pure 0 := by
    rw [multiply_of_fits (by rw [mul_zero]; rfl), mul_zero]
  unfold Tree.startsTogether Tree.kind at inTurn
  unfold expression Tree.ownScaling Tree.played Tree.kind Tree.children
  unfold Tree.kind at written
  dsimp only
  split
  iterate 5
    · simp_all
  · rename_i kind
    rw [repetition_written (written kind)]
    simp [kind, one, Tree.children]
  · simp_all

theorem strictWalk_music {unfoldRepeats : Bool} {n references : Nat}
    (music : ((f.document d).tree.kind id).isMusic = true)
    (other : (f.document d).tree.kind id ≠ .userCommand) (mark : Bool) :
    ((strictWalk unfoldRepeats (n + 1) references d id time scaling).run mark).run f =
      ((expression unfoldRepeats (strictWalk unfoldRepeats n references d) (f.document d) id time
        scaling).run mark).run f := by
  have silent := ItemKind.isDurable_of_isMusic music
  show ((ite .. : Timing Fraction).run mark).run f = _
  unfold Tree.kind at music other silent
  rw [if_neg (by simp [silent]), if_neg (by simpa using other), if_pos music]

end Expression

section Meets

open ScoreText.Unrolled

variable {step : Step} {n references : Nat} {stop before inner arrival : Fraction}

theorem walked_inTurn (sound : f.Sound)
    (lasts : ∀ g, f.Grows g → g.Sound → ∀ id time scaling, g.Lasts (step id time scaling))
    (ran : f.Walked (inTurn step (front ++ child :: back) time scaling) stop g) :
    ∃ before after h i, f.Walked (inTurn step front time scaling) before h ∧ f.Grows h ∧ h.Sound ∧
      h.Walked (step child before scaling) after i ∧ i.Grows g := by
  have turns : ∀ items g time, f.Grows g → g.Sound → g.Lasts (inTurn step items time scaling) :=
    fun items g time grown after => .inTurn after items time scaling fun h later =>
      lasts h (grown.trans later)
  rw [inTurn, List.foldlM_append] at ran
  obtain ⟨before, h, first, grown, after, ran⟩ := Exact.run_bind_unmarked sound
    (turns front f time (.refl f) sound)
    (fun time g grown after => turns (child :: back) g time grown after) ran
  rw [inTurn, List.foldlM_cons] at ran
  obtain ⟨time, i, here, later, last, ran⟩ := Exact.run_bind_unmarked after
    (lasts h grown after child before scaling)
    (fun time g later after => turns back g time (grown.trans later) after) ran
  have rest := turns back i time (grown.trans later) last
  exact ⟨before, time, h, i, first, grown, after, here, Family.Walked.grows ran rest last⟩

theorem walked_mapM {act : ItemId → Timing Fraction} (sound : f.Sound)
    (lasts : ∀ g, f.Grows g → g.Sound → ∀ item, g.Lasts (act item)) {ends : List Fraction}
    (ran : f.Walked ((front ++ child :: back).mapM act) ends g) :
    ∃ ends after h i, f.Walked (front.mapM act) ends h ∧ f.Grows h ∧ h.Sound ∧
      h.Walked (act child) after i ∧ i.Grows g := by
  have each : ∀ (items : List ItemId) g, f.Grows g → g.Sound → g.Lasts (items.mapM act) :=
    fun items g grown after => .mapM items after fun h later sound item _ =>
      lasts h (grown.trans later) sound item
  rw [List.mapM_append] at ran
  obtain ⟨starts, h, first, grown, after, ran⟩ := Exact.run_bind_unmarked sound (each front f (.refl f) sound)
    (fun starts g grown after => .bind after (each (child :: back) g grown after)
      fun _ i _ _ => .pure i _) ran
  rw [List.mapM_cons, bind_assoc] at ran
  have others : ∀ time i, h.Grows i → i.Sound → i.Lasts (do
      let all ← (do
        let others ← back.mapM act
        return time :: others)
      return starts ++ all) := fun time i later sound =>
    .bind sound (.bind sound (each back i (grown.trans later) sound) fun _ j _ _ => .pure j _)
      fun _ j _ _ => .pure j _
  obtain ⟨time, i, here, later, last, ran⟩ := Exact.run_bind_unmarked after
    (lasts h grown after child) others ran
  have rest := others time i later last
  exact ⟨starts, time, h, i, first, grown, after, here, Family.Walked.grows ran rest last⟩

theorem walked_together (sound : f.Sound)
    (lasts : ∀ g, f.Grows g → g.Sound → ∀ id time scaling, g.Lasts (step id time scaling))
    (ran : f.Walked (together step (front ++ child :: back) time scaling) stop g) :
    ∃ ends after h i, f.Walked (front.mapM fun item => step item time scaling) ends h ∧ f.Grows h ∧
      h.Sound ∧ h.Walked (step child time scaling) after i ∧ i.Grows g := by
  have steps := fun g grown after item => lasts g grown after item time scaling
  obtain ⟨ends, h, all, _, _, ran⟩ := Exact.run_bind_unmarked sound
    (.mapM _ sound fun g grown after item _ => steps g grown after item)
    (fun ends g _ _ => by cases ends <;> exact .pure g _) ran
  have same : h = g := by
    cases ends <;> cases ran <;> rfl
  exact same ▸ walked_mapM sound steps all

theorem along_items (step : Step) (items : List ItemId) (time scaling : Fraction) :
    along step (items.map fun item => (item, scaling)) time = inTurn step items time scaling := by
  rw [along, List.foldlM_map]
  rfl

theorem Meets.mem_children {h : Family} (meets : Meets step t id time scaling f child before inner h) :
    child ∈ t.children id := by
  cases meets with
  | inTurn _ split _ =>
    have member : child ∈ t.played id := split ▸ List.mem_append_right _ List.mem_cons_self
    unfold Tree.played at member
    split at member
    · exact List.mem_of_getLast? (Option.mem_toList.mp member)
    · exact member
  | together _ split _ => exact split ▸ List.mem_append_right _ List.mem_cons_self

/-- What the walk along an item does up to a child of it is what the level there tells. -/
theorem Meets.walked {whole : Prop} {b levels nested : Nat} {doc : Document} {h : Family}
    (meets : Meets (walk false n references d) doc.tree id time scaling f child before inner h)
    (laid : doc.tree.Laid whole b) (sound : f.Sound) (there : d < f.documents.size)
    (written : doc.tree.kind id = .repetition → doc.repeatStyle? id = some "volta")
    (fits : scaling.fits = true) (shallow : n ≤ levels) (few : references ≤ nested)
    (ran : f.Walked (expression false (strictWalk false n references d) doc id time scaling) stop g) :
    inner = scaling * (doc.tree.level id (some child)).scaling ∧ inner.fits = true ∧ f.Grows h ∧ h.Sound ∧
      h.Steady (along (walk false levels nested d)
        ((doc.tree.level id (some child)).items.map fun item => (item, inner)) time) before ∧
      ∃ after i, h.Walked (strictWalk false n references d child before inner) after i ∧ i.Grows g := by
  have steps : ∀ m k, n ≤ m → references ≤ k → ∀ g, f.Grows g → g.Sound → ∀ id time scaling,
      Refines g (strictWalk false n references d id time scaling) (walk false m k d id time scaling) :=
    fun m k more other g grown after id time scaling =>
      .walk false more other after (Nat.lt_of_lt_of_le there grown.size) id time scaling
  have lasts : ∀ g, f.Grows g → g.Sound → ∀ id time scaling,
      g.Lasts (strictWalk false n references d id time scaling) := fun g grown after =>
    strictWalk_lasts false n references after (Nat.lt_of_lt_of_le there grown.size)
  rw [Tree.level_scaling]
  cases meets with
  | inTurn apart split walked =>
    rename_i front back
    rw [expression_inTurn apart written fits] at ran
    obtain ⟨own, f', first, _, _, turns⟩ := Exact.run_bind_unmarked sound (.multiply f scaling _)
      (fun own g grown after => .inTurn after _ time own fun h later => lasts h (grown.trans later)) ran
    obtain ⟨small, rfl, rfl⟩ := multiply_fits first
    rw [split] at turns
    obtain ⟨start, after, h', i, front_ran, grown, sound', here, rest⟩ := walked_inTurn sound lasts turns
    -- the strict walk met no bound, so the walk with any higher bounds does the same
    have again : ∀ m k, n ≤ m → references ≤ k →
        f'.Walked (Timing.inTurn (walk false m k d) front time (scaling * doc.tree.ownScaling id)) start h' :=
      fun m k more other => (Refines.inTurn sound front time _ (steps m k more other)).same _ _ front_ran
    cases walked.symm.trans (again n references (Nat.le_refl _) (Nat.le_refl _))
    refine ⟨rfl, small, grown, sound', ?_, after, i, here, rest⟩
    rw [laid.level_items apart split, along_items]
    exact Family.Lasts.steady (.inTurn sound front time _ fun g grown after id time scaling =>
      Family.walk_lasts false levels nested after (Nat.lt_of_lt_of_le there grown.size) id time scaling)
      (again levels nested shallow few)
  | together together split walked =>
    rename_i front back ends
    rw [expression_together together, split] at ran
    obtain ⟨ends', after, h', i, front_ran, grown, sound', here, rest⟩ := walked_together sound lasts ran
    have again := (Refines.mapM front sound fun g grown after item =>
      steps n references (Nat.le_refl _) (Nat.le_refl _) g grown after item time scaling).same _ _ front_ran
    cases walked.symm.trans again
    refine ⟨?_, fits, grown, sound', ?_, after, i, here, rest⟩
    · rw [Tree.ownScaling_together together, mul_one]
    · rw [Tree.level_items_together together]
      exact fun _ _ => rfl

end Meets

section Reaches

variable {n references levels nested : Nat} {doc : Document} {stop arrival : Fraction} {whole : Prop}
  {b : Nat}

theorem entries_steady {l : Level} {below : List Level} {items : List (ItemId × Fraction)} (h : Family)
    (fits : (scaling * l.scaling).fits = true)
    (rest : h.Steady (entries (scaling * l.scaling) below) items) :
    h.Steady (entries scaling (l :: below))
      (l.items.map (fun item => (item, scaling * l.scaling)) ++ items) := by
  rw [entries, multiply_of_fits fits, pure_bind]
  exact rest.bind fun _ _ => rfl

/-- Where the walk comes to an item, the levels down to the item tell how. -/
theorem Reaches.steady (reaches : Reaches references d doc target n f id time scaling arrival)
    (laid : doc.tree.Laid whole b) (sound : f.Sound) (there : d < f.documents.size)
    (same : f.document d = doc) (fits : scaling.fits = true) (shallow : n ≤ levels)
    (few : references ≤ nested)
    (ran : f.Walked (strictWalk false n references d id time scaling) stop g) :
    ∃ down items, doc.tree.Descent target id down ∧ g.Steady (entries scaling down) items ∧
      g.Steady (along (walk false levels nested d) items time) arrival := by
  induction reaches generalizing g stop with
  | @here n f time scaling =>
    have none : g.Steady (entries (scaling * 1) []) [] := fun _ _ => rfl
    exact ⟨_, _, .here, entries_steady (l := ⟨target, [], 1⟩) g (by rwa [mul_one]) none, fun _ _ => rfl⟩
  | @within n f h id child time scaling before inner arrival music other written meets _ ih =>
    rw [Family.Walked, strictWalk_music (same ▸ music) (same ▸ other), same] at ran
    obtain ⟨product, small, grown, after, front, stop, i, rest, later⟩ :=
      meets.walked laid sound there written fits (Nat.le_of_succ_le shallow) few ran
    have inside := Nat.lt_of_lt_of_le there grown.size
    obtain ⟨down, items, descent, entries, along⟩ := ih after inside
      ((grown.documents d there).trans same) small (Nat.le_of_succ_le shallow) rest
    have above : doc.tree.parent child = some id := (laid.link id child).mp meets.mem_children
    have onward : h.Grows g :=
      (rest.grows (strictWalk_lasts false n references after inside child before _) after).trans later
    subst product
    refine ⟨_, _, .within music above descent, entries_steady g small (entries.mono later), ?_⟩
    rw [Timing.along, List.foldlM_append]
    exact (front.mono onward).bind (along.mono later)

end Reaches

end Timing

namespace Family

/-- The walk along the outermost music around an item comes to the item at a time. It meets no bound,
nothing is given up, and repeats that are played as written count once. -/
structure Arrives (f : Family) (d : DocumentId) (top target : ItemId) (time : Fraction) (g : Family) :
    Prop where
  opened : f.Opened
  inside : d < f.documents.size
  readWhole : (f.document d).ReadWhole f.options
  asWritten : f.options.unfoldRepeats = false
  outermost : ∀ q, (f.document d).tree.parent top = some q → ((f.document d).tree.kind q).isMusic = false
  walked : ∃ stop, f.Walked (Timing.strictWalk false f.options.maxNestingDepth f.options.maxReferenceDepth
    d top 0 1) stop g
  reached : Timing.Reaches f.options.maxReferenceDepth d (f.document d) target f.options.maxNestingDepth
    f top 0 1 time

end Family

/-- The time at the position of an item is the time at which the walk along the outermost music comes
to it, whenever it is asked for. A note of a chord has the time of the chord. -/
theorem timeAt_eq_arrival {f g h : Family} {d : DocumentId} {id top : ItemId} {time : Fraction}
    (timed : ((f.document d).tree.kind id).isTimed = true)
    (found : (f.document d).tree.innermost ((f.document d).tree.item id).position none = id)
    (arrives : f.Arrives d top ((f.document d).tree.asPlayed id) time g) (later : g.Later h) :
    h.Settled d (Family.timeAt? d ((f.document d).tree.item id).position) (some time) := by
  obtain ⟨opened, inside, readWhole, asWritten, outermost, ⟨stop, walked⟩, reached⟩ := arrives
  have sound := opened.sound
  obtain ⟨text, filename, place, read⟩ := opened.read d inside
  obtain ⟨b, laid⟩ : ∃ b, (f.document d).tree.Laid True b := by
    have order := scanMusic_inOrder text
    rw [readWhole, read]
    exact Tree.ofTokens_laid order f.options.language fun _ => Nat.le_max_right _ _
  have document : (f.document d).tree.kind Tree.root = .document := by
    rw [read]
    exact Tree.ofTokens_root (scanMusic_inOrder text) f.options.language _
  obtain ⟨down, items, descent, entries, along⟩ := reached.steady laid sound inside rfl (by decide)
    (Nat.le_refl _) (Nat.le_refl _) walked
  have within : f.walkWithin d =
      Timing.walk false f.options.maxNestingDepth f.options.maxReferenceDepth d := by
    rw [← asWritten]
    rfl
  rw [← within] at along
  obtain ⟨walk, music⟩ : g.Steady (Family.walkTo f d ((f.document d).tree.levels
      ((f.document d).tree.item id).position)) time ∧
      (f.document d).tree.levels ((f.document d).tree.item id).position ≠ [] := by
    rcases laid.levels_eq document found timed descent outermost with same | ⟨q, same⟩
    · rw [same]
      exact ⟨entries.bind along, descent.ne_nil⟩
    · -- the item around the outermost music adds nothing
      have outer : g.Steady (Timing.entries 1 (⟨q, [], 1⟩ :: down)) items :=
        Timing.entries_steady g (by rw [mul_one]; decide) (by rwa [mul_one])
      rw [same]
      exact ⟨outer.bind along, List.cons_ne_nil _ _⟩
  obtain ⟨grown, after⟩ := (strictWalk_lasts false _ _ sound inside top 0 1 false).kept sound
  rw [walked] at grown after
  obtain ⟨onward, _⟩ := later.kept after
  exact Family.settled_of_now (fun _ sound there => Family.timeAt_lasting sound there _)
    (Family.timeAt_of_steady inside (grown.trans onward) music (walk.mono onward))

/-- The second note of a triplet. -/
theorem timeAt_eq_arrival_triplet :
    let f := Family.ofText .standard (.table []) "\\tuplet 3/2 \x7b c4 d \x7d" none
    let t := (f.document 0).tree
    (t.item 6).position = 17 ∧ (t.kind 6).isTimed = true ∧ t.innermost 17 none = 6 ∧
      ∃ g, f.Arrives 0 1 (t.asPlayed 6) (1 / 6) g ∧ g.Settled 0 (Family.timeAt? 0 17) (some (1 / 6)) := by
  intro f t
  let ratio := ((Timing.inTurn (Timing.walk false 255 256 0) [2] 0 (2 / 3)).run false).run f
  let first := ((Timing.inTurn (Timing.walk false 254 256 0) [4] 0 (2 / 3)).run false).run ratio.2
  let all := ((Timing.strictWalk false 256 256 0 1 0 1).run false).run f
  obtain ⟨⟨position, timed, found, itself⟩, ⟨above, outside, readWhole⟩, ⟨kind, split, scaling, ran⟩,
      ⟨kind', apart', split', scaling', ran'⟩, walked⟩ :
      ((t.item 6).position = 17 ∧ (t.kind 6).isTimed = true ∧ t.innermost 17 none = 6 ∧
        t.asPlayed 6 = 6) ∧
      (t.parent 1 = some 0 ∧ (t.kind 0).isMusic = false ∧
        t = .ofTokens (f.document 0).tokens "nederlands" (max 256 (f.document 0).tokens.length)) ∧
      (t.kind 1 = .scaler ∧ t.played 1 = [2] ++ 3 :: [] ∧ 1 * t.ownScaling 1 = 2 / 3 ∧
        ratio.1 = (0, false)) ∧
      (t.kind 3 = .musicList ∧ t.startsTogether 3 = false ∧ t.played 3 = [4] ++ 6 :: [] ∧
        2 / 3 * t.ownScaling 3 = 2 / 3 ∧ first.1 = (1 / 6, false)) ∧
      all.1 = (1 / 3, false) := by
    decide +kernel
  have apart : t.startsTogether 1 = false := by
    rw [Tree.startsTogether, kind]
  have inner : Timing.Reaches 256 0 (f.document 0) 6 255 ratio.2 3 0 (2 / 3) (1 / 6) :=
    .within (kind' ▸ rfl) (kind' ▸ nofun) (kind' ▸ nofun) (.of_run apart' split' scaling' ran') .here
  have reached : Timing.Reaches 256 0 (f.document 0) 6 256 f 1 0 1 (1 / 6) :=
    .within (kind ▸ rfl) (kind ▸ nofun) (kind ▸ nofun) (.of_run apart split scaling ran) inner
  have arrives : f.Arrives 0 1 (t.asPlayed 6) (1 / 6) all.2 := by
    rw [itself]
    refine ⟨⟨_, _, _, _, .refl⟩, Nat.zero_lt_one, readWhole, rfl, fun q under => ?_,
      ⟨_, Prod.ext walked rfl⟩, reached⟩
    cases above.symm.trans under
    exact outside
  refine ⟨position, timed, found, _, arrives, ?_⟩
  rw [← position] at found ⊢
  exact timeAt_eq_arrival timed found arrives .refl

/-- The walk along a note of a chord comes to it at once, but the time there is that of the chord. -/
theorem arrival_in_chord :
    let f := Family.ofText .standard (.table []) "\x7b c4 <d e> \x7d" none
    let t := (f.document 0).tree
    (t.item 5).position = 6 ∧ (t.kind 5).isTimed = true ∧ t.innermost 6 none = 5 ∧
      ∃ g, f.Arrives 0 5 5 0 g ∧ ((Family.timeAt? 0 6).run g).1 = some (1 / 4) ∧
        ¬ g.Settled 0 (Family.timeAt? 0 6) (some 0) := by
  intro f t
  let all := ((Timing.strictWalk false 256 256 0 5 0 1).run false).run f
  obtain ⟨position, timed, found, above, outside, readWhole, unmarked, asked⟩ :
      (t.item 5).position = 6 ∧ (t.kind 5).isTimed = true ∧ t.innermost 6 none = 5 ∧
        t.parent 5 = some 4 ∧ (t.kind 4).isMusic = false ∧
        t = .ofTokens (f.document 0).tokens "nederlands" (max 256 (f.document 0).tokens.length) ∧
        all.1.2 = false ∧ ((Family.timeAt? 0 6).run all.2).1 = some (1 / 4) := by
    decide +kernel
  have arrives : f.Arrives 0 5 5 0 all.2 := by
    refine ⟨⟨_, _, _, _, .refl⟩, Nat.zero_lt_one, readWhole, rfl, fun q under => ?_,
      ⟨all.1.1, Prod.ext (Prod.ext rfl unmarked) rfl⟩, .here⟩
    cases above.symm.trans under
    exact outside
  refine ⟨position, timed, found, _, arrives, asked, fun settled => ?_⟩
  rw [settled.now] at asked
  exact absurd (show some (0 : Fraction) = some (1 / 4) from asked) (by decide +kernel)

end ScoreText
