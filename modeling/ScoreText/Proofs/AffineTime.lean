import ScoreText.Proofs.TimeApart
import ScoreText.Proofs.Walker

/-! Time from any start on and in any scaling. A walk that starts later ends later by as much. If times
and scaling are stretched by a factor that is not negative, the latest of several times stays the latest,
so the walk ends at the stretched time. -/
namespace ScoreText

namespace Unrolled

/-- What starts at a stretched time in a stretched scaling ends at the stretched time. -/
structure Stretches (act : Fraction → Fraction → Resolving Fraction) : Prop where
  run : ∀ factor, 0 ≤ factor → ∀ t scaling f, (act (factor * t) (factor * scaling)).run f =
    (factor * ((act t scaling).run f).1, ((act t scaling).run f).2)

section Stretch

variable {step : Step} {act next : Fraction → Fraction → Resolving Fraction}

theorem Stretches.bind (one : Stretches act) (other : Stretches next) :
    Stretches fun t scaling => act t scaling >>= (next · scaling) where
  run factor positive t scaling f := by
    rw [Family.run_bind, one.run factor positive]
    exact other.run factor positive ..

/-- The scaling in effect may change by a factor of its own. -/
theorem Stretches.scaled (stretches : Stretches act) (own : Fraction) :
    Stretches fun t scaling => act t (scaling * own) where
  run factor positive t scaling f := by
    rw [mul_assoc]
    exact stretches.run factor positive ..

variable (stretches : ∀ id, Stretches (step id))

include stretches

theorem inTurn_stretches (items : List ItemId) : Stretches (inTurn step items) := by
  induction items with
  | nil => exact ⟨fun _ _ _ _ _ => rfl⟩
  | cons id items ih => exact .bind (stretches id) ih

theorem together_stretches (items : List ItemId) : Stretches (together step items) where
  run factor positive t scaling f := together_maps (fun _ _ le => mul_le_mul_of_nonneg_left le positive)
    (fun id => (stretches id).run factor positive t scaling) items f

theorem expression_stretches (unfoldRepeats : Bool) (doc : Document) (id : ItemId) :
    Stretches (expression unfoldRepeats step doc id) := by
  unfold expression
  dsimp only
  split
  · exact together_stretches stretches _
  · exact together_stretches stretches _
  · exact inTurn_stretches stretches _
  · exact (inTurn_stretches stretches _).scaled _
  · -- nothing takes time, whatever the scaling was
    refine ⟨fun factor positive t scaling f => ?_⟩
    have run := (inTurn_stretches stretches (doc.tree.item id).children).run factor positive t 0 f
    rwa [mul_zero] at run
  · split
    · exact inTurn_stretches stretches _
    · exact inTurn_stretches stretches _
  · exact inTurn_stretches stretches _

end Stretch

theorem walk_stretches (unfoldRepeats : Bool) (n references : Nat) (d : DocumentId) (id : ItemId) :
    Stretches (walk unfoldRepeats n references d id) := by
  induction n generalizing references d id with
  | zero => exact ⟨fun _ _ _ _ _ => rfl⟩
  | succ n ih =>
    refine ⟨fun factor positive t scaling f => ?_⟩
    simp only [walk, Family.run_get_bind]
    split
    · have sum : factor * t + ((f.document d).tree.item id).durationOrZero.length * (factor * scaling) =
          factor * (t + ((f.document d).tree.item id).durationOrZero.length * scaling) := by ring
      exact congrArg (·, f) sum
    · split
      · cases references with
        | zero => rfl
        | succ references =>
          simp only [Family.run_bind]
          cases ((Family.variableValue? d id).run f).1 with
          | none => rfl
          | some value => exact (ih references value.1 value.2).run factor positive ..
      · split
        · exact (expression_stretches (ih references d) ..).run factor positive ..
        · rfl

/-- A walk from any time on in a scaling takes as long as from the start on. -/
theorem walk_moved (unfoldRepeats : Bool) (n references : Nat) (d : DocumentId) (id : ItemId) (time scaling : Fraction)
    (f : Family) :
    ((walk unfoldRepeats n references d id time scaling).run f).1 =
      time + ((walk unfoldRepeats n references d id 0 scaling).run f).1 := by
  have shifted := (walk_shifts unfoldRepeats n references d id scaling).run time 0 f
  rw [add_zero] at shifted
  rw [shifted]

/-- In a scaling that is not negative a walk takes that many times as long. -/
theorem walk_affine (unfoldRepeats : Bool) (n references : Nat) (d : DocumentId) (id : ItemId) (time : Fraction)
    {scaling : Fraction} (positive : 0 ≤ scaling) (f : Family) :
    ((walk unfoldRepeats n references d id time scaling).run f).1 =
      time + scaling * ((walk unfoldRepeats n references d id 0 1).run f).1 := by
  have stretched := (walk_stretches unfoldRepeats n references d id).run scaling positive 0 1 f
  rw [mul_zero, mul_one] at stretched
  rw [walk_moved, stretched]

end Unrolled

namespace Family

/-- A walk that left no mark ended where the literal walk ends. -/
theorem Answered.literal {g : Family} {c : Counting} {d : DocumentId} {id : ItemId} {time scaling later : Fraction}
    (walked : g.Answered d (timed (timeAfter c d id time scaling)) (later, false)) :
    ((Unrolled.walk c.unfoldRepeats c.maxNestingDepth c.maxReferenceDepth d id time scaling).run g).1 = later := by
  have lasting : ∀ f : Family, f.Sound → d < f.documents.size →
      Lasting (fun _ _ => True) f (timed (timeAfter c d id time scaling)) := fun f sound there =>
    (walk_lasts c.unfoldRepeats c.maxNestingDepth c.maxReferenceDepth sound there id time scaling false).mono
      fun _ _ _ => trivial
  have now := walked.now lasting
  obtain ⟨f, opened, there, _, grown⟩ := walked
  have opened := (opened.later (lasting f opened.sound there).later).later grown
  rw [walk_unrolled opened c d id time scaling (by rw [now]), now]

end Family

/-- Musical time is affine. If no walk leaves a mark, one from any time on in a scaling that is not negative
ends at that time and the scaling times the length of the item, and in whatever scaling as much later as it
starts later. A walker takes all counts back, so it can be used again like a fresh one. -/
theorem time_affine (c : Counting) :
    (∀ (g : Family) (d : DocumentId) (id : ItemId) (time scaling later length : Fraction), 0 ≤ scaling →
      g.Answered d (Family.timed (Family.timeAfter c d id time scaling)) (later, false) →
      g.Answered d (Family.timed (Family.timeAfter c d id 0 1)) (length, false) →
      later = time + scaling * length) ∧
    (∀ (g : Family) (d : DocumentId) (id : ItemId) (time scaling later length : Fraction),
      g.Answered d (Family.timed (Family.timeAfter c d id time scaling)) (later, false) →
      g.Answered d (Family.timed (Family.timeAfter c d id 0 scaling)) (length, false) → later = time + length) ∧
    (∀ (walk : Walk) (w : Walker) (f : Family),
      let left := (((walk.counted c).run w).run f).1.2
      left.references = w.references ∧ left.nesting = w.nesting) ∧
    ∀ (walks : List Walk) (walk : Walk) (f : Family),
      let before := ((walks.mapM (Walk.counted c)).run .fresh).run f
      let again := (((walk.counted c).run before.1.2).run before.2).1.1
      again = (((walk.counted c).run .fresh).run before.2).1.1 ∧
        again = ((Family.timed (Family.timeAfter c walk.document walk.item walk.time walk.scaling)).run before.2).1.1 := by
  refine ⟨?_, ?_, fun walk w f => walk.counted_keeps c w f, fun walks walk f => ?_⟩
  · intro g d id time scaling later length positive walked unit
    rw [← walked.literal, ← unit.literal]
    exact Unrolled.walk_affine _ _ _ _ _ time positive g
  · intro g d id time scaling later length walked start
    rw [← walked.literal, ← start.literal]
    exact Unrolled.walk_moved ..
  · have same := walk.counted_again c walks f
    exact ⟨same, same.trans (walk.counted_fresh c _ false)⟩

/-- A note and a triplet note from the same time on: the one that ends last in a negative scaling is not the
one that ends last in a positive one. -/
theorem time_affine_together :
    let f := Family.ofText .standard (.table []) "<< c8 \\tuplet 3/2 e4 >>" none
    let after (time scaling : Fraction) :=
      Family.timed (Family.timeAfter Options.standard.counting 0 1 time scaling)
    ∃ g : Family, f.Later g ∧ g.Answered 0 (after 0 1) (1 / 6, false) ∧
      g.Answered 0 (after (1 / 2) (2 / 3)) (11 / 18, false) ∧ g.Answered 0 (after 0 (-1)) (-1 / 8, false) ∧
      g.Answered 0 (after 3 (-1)) (23 / 8, false) ∧ (0 : Fraction) ≤ 2 / 3 ∧
      (11 / 18 : Fraction) = 1 / 2 + 2 / 3 * (1 / 6) ∧ (23 / 8 : Fraction) = 3 + -1 / 8 := by
  intro f after
  have asked : ∀ {h : Family} (time scaling : Fraction), h.Opened ∧ 0 < h.documents.size →
      h.Later ((after time scaling).run h).2 ∧
        ((after time scaling).run h).2.Opened ∧ 0 < ((after time scaling).run h).2.documents.size := by
    rintro h time scaling ⟨opened, there⟩
    have later : h.Later ((after time scaling).run h).2 :=
      (Family.walk_lasts _ _ _ opened.sound there 1 time scaling false).later
    exact ⟨later, opened.later later, Nat.lt_of_lt_of_le there (later.kept opened.sound).1.size⟩
  have start : f.Opened ∧ 0 < f.documents.size := ⟨⟨_, _, _, _, .refl⟩, Nat.zero_lt_one⟩
  obtain ⟨later1, opened1⟩ := asked 0 1 start
  obtain ⟨later2, opened2⟩ := asked (1 / 2) (2 / 3) opened1
  obtain ⟨later3, opened3⟩ := asked 0 (-1) opened2
  obtain ⟨later4, _⟩ := asked 3 (-1) opened3
  obtain ⟨run1, run2, run3, run4⟩ :
      let one := (after 0 1).run f
      let two := (after (1 / 2) (2 / 3)).run one.2
      let three := (after 0 (-1)).run two.2
      let four := (after 3 (-1)).run three.2
      one.1 = (1 / 6, false) ∧ two.1 = (11 / 18, false) ∧ three.1 = (-1 / 8, false) ∧ four.1 = (23 / 8, false) := by
    decide +kernel
  have whole : Family.Answered _ 0 (after 0 1) _ :=
    ⟨f, start.1, start.2, run1, (later2.trans later3).trans later4⟩
  have stretched : Family.Answered _ 0 (after (1 / 2) (2 / 3)) _ :=
    ⟨_, opened1.1, opened1.2, run2, later3.trans later4⟩
  have backwards : Family.Answered _ 0 (after 0 (-1)) _ := ⟨_, opened2.1, opened2.2, run3, later4⟩
  have moved : Family.Answered _ 0 (after 3 (-1)) _ := ⟨_, opened3.1, opened3.2, run4, .refl⟩
  obtain ⟨affine, shifted, _⟩ := time_affine Options.standard.counting
  have positive : (0 : Fraction) ≤ 2 / 3 := by decide +kernel
  exact ⟨_, ((later1.trans later2).trans later3).trans later4, whole, stretched, backwards, moved, positive,
    affine _ 0 1 _ _ _ _ positive stretched whole, shifted _ 0 1 _ _ _ _ moved backwards⟩

end ScoreText
