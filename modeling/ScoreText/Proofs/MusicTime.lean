import Mathlib.Data.Nat.Cast.Order.Ring
import ScoreText.Proofs.Expression
import ScoreText.Proofs.Unrolled

/-! The time that music takes. Along the mirror of an expression the walk adds up what the expression is
worth, each part of it times the scaling in effect. -/
namespace ScoreText

open ScoreText.Tree

variable {names : Naming} {last : Length} {f : Family} {d : DocumentId} {unfoldRepeats : Bool}
  {references : Nat}

theorem Proportion.scaling_nonneg (p : Proportion) : 0 ≤ p.scaling := by
  rw [scaling, Fraction.ofInts, Rat.divInt_eq_div, Int.cast_natCast, Int.cast_natCast]
  exact div_nonneg (Nat.cast_nonneg _) (Nat.cast_nonneg _)

/-- A step takes as much time along each item as its value says. -/
def Takes (f : Family) (step : Unrolled.Step) (ids : List ItemId) (values : List Fraction) : Prop :=
  List.Forall₂ (fun id value => ∀ time scaling, 0 ≤ scaling →
    (step id time scaling).run f = (time + scaling * value, f)) ids values

theorem Takes.inTurn {step : Unrolled.Step} {ids : List ItemId} {values : List Fraction}
    (takes : Takes f step ids values) {time scaling : Fraction} (up : 0 ≤ scaling) :
    (Unrolled.inTurn step ids time scaling).run f = (time + scaling * values.sum, f) := by
  induction takes generalizing time with
  | nil => simp [Unrolled.inTurn]; rfl
  | cons one _ ih =>
    rw [Unrolled.inTurn, List.foldlM_cons, Family.run_bind, one time scaling up, ← Unrolled.inTurn, ih,
      List.sum_cons]
    ring_nf

theorem Takes.together {step : Unrolled.Step} {ids : List ItemId} {values : List Fraction}
    (takes : Takes f step ids values) {time scaling : Fraction} (up : 0 ≤ scaling) :
    (Unrolled.together step ids time scaling).run f = (time + scaling * values.max?.getD 0, f) := by
  have ends : (ids.mapM fun id => step id time scaling).run f =
      (values.map fun v => time + scaling * v, f) := by
    induction takes with
    | nil => rfl
    | cons one _ ih =>
      rw [List.mapM_cons, Family.run_bind, one time scaling up, Family.run_bind, ih]
      rfl
  rw [Unrolled.together, Family.run_bind, ends]
  show ((values.map fun v => time + scaling * v).max?.getD time, f) = _
  have monotone : Monotone fun v => time + scaling * v :=
    fun _ _ le => add_le_add_right (mul_le_mul_of_nonneg_left le up) time
  rw [Unrolled.max?_map_of_monotone monotone]
  cases values.max? <;> simp

theorem walk_leaf {l : Leaf} {written : Option Length} {id : ItemId}
    (mirrored : (Music.leaf l written).MirroredBy (f.document d).tree names last id) (n : Nat)
    (time scaling : Fraction) :
    (Unrolled.walk unfoldRepeats (n + 1) references d id time scaling).run f =
      (time + scaling * (Music.leaf l written).value last, f) := by
  obtain ⟨leaf, duration⟩ := mirrored
  have durable : ((f.document d).tree.item id).kind.isDurable = true := by
    cases l with
    | note tone => rw [← Tree.kind, leaf.1.1]; rfl
    | rest => rw [← Tree.kind, leaf.1]; rfl
    | chord first others => rw [← Tree.kind, leaf.1]; rfl
  show StateT.run (if ((f.document d).tree.item id).kind.isDurable then _ else _) f = _
  rw [if_pos durable]
  show (time + ((f.document d).tree.item id).durationOrZero.length * scaling, f) = _
  rw [Item.durationOrZero, duration, Option.getD_some, Music.value, mul_comm]

theorem walk_expression {id : ItemId} (n : Nat)
    (kind : (f.document d).tree.kind id = .musicList ∨ (f.document d).tree.kind id = .scaler)
    (time scaling : Fraction) :
    (Unrolled.walk unfoldRepeats (n + 1) references d id time scaling).run f =
      (Unrolled.expression unfoldRepeats (Unrolled.walk unfoldRepeats n references d) (f.document d) id time
        scaling).run f := by
  show StateT.run (if ((f.document d).tree.item id).kind.isDurable then _ else _) f = _
  rw [Tree.kind] at kind
  rcases kind with kind | kind <;> rw [kind] <;> rfl

theorem walk_list {b : Bool} {items : List Music} {id : ItemId} {n : Nat}
    (kind : (f.document d).tree.kind id = .musicList)
    (details : ((f.document d).tree.item id).details = .list b)
    (all : Takes f (Unrolled.walk unfoldRepeats n references d) ((f.document d).tree.children id)
      (Music.valuesOfAll last items)) {time scaling : Fraction} (up : 0 ≤ scaling) :
    (Unrolled.walk unfoldRepeats (n + 1) references d id time scaling).run f =
      (time + scaling * (Music.list b items).value last, f) := by
  rw [walk_expression n (.inl kind), Unrolled.expression, ← Tree.kind, kind, details, Music.value,
    Music.combine]
  cases b with
  | true => exact all.together up
  | false => exact all.inTurn up

theorem walk_timeless {id : ItemId} (n : Nat)
    (kind : (f.document d).tree.kind id = .number ∨ (f.document d).tree.kind id = .tempo)
    (time scaling : Fraction) :
    (Unrolled.walk unfoldRepeats (n + 1) references d id time scaling).run f = (time, f) := by
  show StateT.run (if ((f.document d).tree.item id).kind.isDurable then _ else _) f = _
  rw [← Tree.kind]
  rcases kind with kind | kind <;> rw [kind] <;> rfl

theorem walk_tuplet {p : Proportion} {b : Bool} {items : List Music} {id number list : ItemId} {n : Nat}
    (kind : (f.document d).tree.kind id = .scaler)
    (details : ((f.document d).tree.item id).details = .scaler p.played p.counted p.scaling)
    (children : (f.document d).tree.children id = [number, list])
    (number_kind : (f.document d).tree.kind number = .number)
    (along : ∀ time scaling, 0 ≤ scaling →
      (Unrolled.walk unfoldRepeats (n + 1) references d list time scaling).run f =
        (time + scaling * (Music.list b items).value last, f))
    {time scaling : Fraction} (up : 0 ≤ scaling) :
    (Unrolled.walk unfoldRepeats (n + 2) references d id time scaling).run f =
      (time + scaling * (Music.tuplet p b items).value last, f) := by
  rw [walk_expression (n + 1) (.inr kind), Unrolled.expression, ← Tree.kind, kind, details,
    ← Tree.children, children]
  show (Unrolled.inTurn _ [number, list] time (scaling * p.scaling)).run f = _
  rw [Unrolled.inTurn, List.foldlM_cons, Family.run_bind, walk_timeless n (.inl number_kind), ← Unrolled.inTurn,
    Unrolled.inTurn_single, along _ _ (mul_nonneg up p.scaling_nonneg), Music.value, Music.value, mul_assoc]

mutual

/-- The literal walk along a mirror of an expression takes as long as the expression says. -/
theorem walk_music {last : Length} {m : Music} {id : ItemId} {n : Nat} (deep : m.depth ≤ n)
    (mirrored : m.MirroredBy (f.document d).tree names last id) {time scaling : Fraction}
    (up : 0 ≤ scaling) :
    (Unrolled.walk unfoldRepeats n references d id time scaling).run f =
      (time + scaling * m.value last, f) := by
  cases m with
  | leaf l written =>
    have some_levels : 1 ≤ l.depth := by cases l <;> simp [Leaf.depth]
    obtain ⟨k, rfl⟩ : ∃ k, n = k + 1 := Nat.exists_eq_add_of_le' (some_levels.trans deep)
    exact walk_leaf mirrored k time scaling
  | list b items =>
    obtain ⟨k, rfl, inner⟩ := Music.levels_list deep
    simp only [Music.MirroredBy] at mirrored
    obtain ⟨kind, details, all⟩ := mirrored
    exact walk_list kind details (walk_all inner all) up
  | tuplet p b items =>
    obtain ⟨k, rfl, inner⟩ := Music.levels_tuplet deep
    simp only [Music.MirroredBy] at mirrored
    obtain ⟨kind, details, number, list, children, number_kind, list_kind, list_details, all⟩ := mirrored
    have takes : Takes f (Unrolled.walk unfoldRepeats k references d) _ _ := walk_all inner all
    exact walk_tuplet kind details children number_kind
      (fun time scaling up => walk_list list_kind list_details takes up) up

theorem walk_all {last : Length} {ms : List Music} {ids : List ItemId} {n : Nat}
    (deep : Music.depthOfAll ms ≤ n) (mirrored : Music.AllMirroredBy (f.document d).tree names last ms ids) :
    Takes f (Unrolled.walk unfoldRepeats n references d) ids (Music.valuesOfAll last ms) := by
  cases ms with
  | nil =>
    simp only [Music.AllMirroredBy] at mirrored
    subst mirrored
    exact .nil
  | cons m ms =>
    simp only [Music.AllMirroredBy] at mirrored
    obtain ⟨id, others, rfl, first, rest⟩ := mirrored
    obtain ⟨inner, others_inner⟩ := Music.levels_cons deep
    exact .cons (fun time scaling up => walk_music inner first up) (walk_all others_inner rest)

end

/-- A list that is measured takes as long as the literal walk along it. -/
theorem length_of_walk {top : ItemId} {value : Fraction} (opened : f.Opened)
    (kind : (f.document d).tree.kind top = .musicList)
    (walk : (Unrolled.walk f.options.counting.unfoldRepeats f.options.counting.maxNestingDepth
      f.options.counting.maxReferenceDepth d top 0 1).run f = (value, f)) {q : Fraction}
    (length : ((Family.lengthOf d top).run f).1 = some q) : q = value := by
  rw [Tree.kind] at kind
  have measured : ((Family.lengthOf d top).run f).1 =
      ((Family.musicLength f.options.counting d top).run f).1.1 := by
    rw [Family.lengthOf, Family.run_get_bind]
    dsimp only
    rw [kind]
    rfl
  rw [measured, Family.musicLength, Family.run_bind] at length
  generalize timed : (Family.timed (Family.timeAfter f.options.counting d top 0 1)).run f = walked at length
  obtain ⟨⟨time, overflowed⟩, g⟩ := walked
  cases overflowed with
  | true => cases length
  | false =>
    obtain rfl : time = q := Option.some.inj length
    have exact_walk := walk_unrolled opened f.options.counting d top 0 1 (by rw [timed])
    rw [timed, walk] at exact_walk
    exact (congrArg Prod.fst exact_walk).symm

theorem length_of_list {b : Bool} {items : List Music} {top : ItemId} (opened : f.Opened)
    (mirrored : (Music.list b items).MirroredBy (f.document d).tree names last top)
    (deep : (Music.list b items).depth ≤ f.options.maxNestingDepth) {q : Fraction}
    (length : ((Family.lengthOf d top).run f).1 = some q) : q = (Music.list b items).value last := by
  have kind : (f.document d).tree.kind top = .musicList := by
    simp only [Music.MirroredBy] at mirrored
    exact mirrored.1
  have enough : (Music.list b items).depth ≤ f.options.counting.maxNestingDepth := deep
  refine length_of_walk opened kind ?_ length
  rw [walk_music enough mirrored zero_le_one, zero_add, one_mul]

end ScoreText
