import ScoreText.Proofs.Unrolled

/-! A walk that meets no bound. It leaves a mark where items or references are nested too deep, and not
only where something does not fit. If it leaves none, the walk comes to the same, whatever higher bounds
it has. -/
namespace ScoreText

namespace Timing

/-- The walk along an item, with a mark wherever it meets a bound. -/
def strictWalk (unfoldRepeats : Bool) : Nat → Nat → DocumentId → Step
  | 0, _, _, _, time, _ => do
    leaveMark
    return time
  | n + 1, references, d, id, time, scaling => do
    let doc := (← getThe Family).document d
    let item := doc.tree.item id
    if item.kind.isDurable then
      match item.durationOrZero.length? with
      | some length => addScaled time length scaling
      | none =>
        leaveMark
        return time
    else if item.kind == .userCommand then
      match references with
      | 0 =>
        leaveMark
        return time
      | references + 1 =>
        match ← Family.variableValue? d id with
        | some (source, value) => strictWalk unfoldRepeats n references source value time scaling
        | none => return time
    else if item.kind.isMusic then
      expression unfoldRepeats (strictWalk unfoldRepeats n references d) doc id time scaling
    else return time

end Timing

/-- If one walk leaves no mark, the other one leaves none and comes to the same. -/
structure Refines {α : Type} (f : Family) (strict walk : Timing α) : Prop where
  lasts : f.Lasts strict
  same : ∀ a g, (strict.run false).run f = ((a, false), g) → (walk.run false).run f = ((a, false), g)

namespace Refines

open ScoreText.Family

variable {α β : Type} {f : Family}

theorem refl {x : Timing α} (lasts : f.Lasts x) : Refines f x x :=
  ⟨lasts, fun _ _ run => run⟩

theorem marked (f : Family) (a : α) (walk : Timing α) :
    Refines f (Timing.leaveMark >>= fun _ => pure a) walk :=
  ⟨.marked f a, fun b g run => by cases run⟩

theorem bind {x y : Timing α} {k l : α → Timing β} (sound : f.Sound) (first : Refines f x y)
    (next : ∀ a g, f.Grows g → g.Sound → Refines g (k a) (l a)) : Refines f (x >>= k) (y >>= l) where
  lasts := .bind sound first.lasts fun a g grown after => (next a g grown after).lasts
  same b h run := by
    obtain ⟨a, g, ran, grown, after, later⟩ := Unrolled.Exact.run_bind_unmarked sound first.lasts
      (fun a g grown after => (next a g grown after).lasts) run
    rw [StateT.run_bind, run_bind, first.same a g ran]
    exact (next a g grown after).same b h later

theorem lift_bind {P : Family → α → Prop} {x : Resolving α} {k l : α → Timing β} (sound : f.Sound)
    (first : Lasting P f x) (next : ∀ a g, f.Grows g → g.Sound → P g a → Refines g (k a) (l a)) :
    Refines f (liftM x >>= k) (liftM x >>= l) where
  lasts := .lift_bind sound first fun a g grown after answer => (next a g grown after answer).lasts
  same b h run := by
    obtain ⟨grown, after⟩ := first.kept sound
    exact (next _ _ grown after first.answer).same b h run

theorem get {k l : Family → Timing α} (sound : f.Sound) (same : ∀ g, f.Grows g → k g = k f)
    (refines : Refines f (k f) (l f)) : Refines f (getThe Family >>= k) (getThe Family >>= l) :=
  ⟨.get sound same refines.lasts, refines.same⟩

theorem foldlM {k l : α → β → Timing α} (items : List β) (sound : f.Sound) (a : α)
    (step : ∀ g, f.Grows g → g.Sound → ∀ b a, Refines g (k a b) (l a b)) :
    Refines f (items.foldlM k a) (items.foldlM l a) := by
  induction items generalizing f a with
  | nil => exact .refl (.pure f a)
  | cons b items ih =>
    rw [List.foldlM_cons, List.foldlM_cons]
    refine .bind sound (step f (.refl f) sound b a) fun a g grown after => ?_
    exact ih after a fun h later => step h (grown.trans later)

theorem mapM {k l : β → Timing α} (items : List β) (sound : f.Sound)
    (step : ∀ g, f.Grows g → g.Sound → ∀ b, Refines g (k b) (l b)) :
    Refines f (items.mapM k) (items.mapM l) := by
  induction items generalizing f with
  | nil => exact .refl (.pure f [])
  | cons b items ih =>
    rw [List.mapM_cons, List.mapM_cons]
    refine .bind sound (step f (.refl f) sound b) fun a g grown after => ?_
    exact .bind after (ih after fun h later => step h (grown.trans later)) fun _ h _ _ => .refl (.pure h _)

section Walk

variable {strict loose : Timing.Step}

theorem inTurn (sound : f.Sound) (items : List ItemId) (time scaling : Fraction)
    (steps : ∀ g, f.Grows g → g.Sound → ∀ id time scaling,
      Refines g (strict id time scaling) (loose id time scaling)) :
    Refines f (Timing.inTurn strict items time scaling) (Timing.inTurn loose items time scaling) :=
  .foldlM items sound time fun g grown after id time => steps g grown after id time scaling

theorem together (sound : f.Sound) (items : List ItemId) (time scaling : Fraction)
    (steps : ∀ g, f.Grows g → g.Sound → ∀ id time scaling,
      Refines g (strict id time scaling) (loose id time scaling)) :
    Refines f (Timing.together strict items time scaling) (Timing.together loose items time scaling) := by
  refine .bind sound (.mapM items sound fun g grown after id => steps g grown after id time scaling)
    fun ends g _ _ => .refl ?_
  cases ends with
  | nil => exact .pure g time
  | cons first others => exact .pure g _

theorem unfolded (sound : f.Sound) (body ends : List ItemId) (count : Int) (time scaling : Fraction)
    (steps : ∀ g, f.Grows g → g.Sound → ∀ id time scaling,
      Refines g (strict id time scaling) (loose id time scaling)) :
    Refines f (Timing.unfolded strict body ends count time scaling)
      (Timing.unfolded loose body ends count time scaling) := by
  rw [Timing.unfolded_eq, Timing.unfolded_eq]
  refine .bind sound (.inTurn sound body 0 scaling steps) fun length g grown after => ?_
  have steps := fun h later => steps h (grown.trans later)
  unfold Timing.allPasses
  split
  · exact .refl (.addScaled g time length count)
  · refine .bind after ?_ fun time h later sound => ?_
    · split
      · refine .bind after (steps g (.refl g) after _ _ _) fun pass h _ _ => ?_
        exact .refl (.addScaled h time pass _)
      · exact .refl (.pure g time)
    · refine .foldlM _ sound time fun i last sound ending time => ?_
      exact .bind sound (.refl (.addScaled i time length 1)) fun time j more sound =>
        steps j ((later.trans last).trans more) sound ending time scaling

theorem expression (sound : f.Sound) (unfoldRepeats : Bool) (doc : Document) (id : ItemId)
    (time scaling : Fraction)
    (steps : ∀ g, f.Grows g → g.Sound → ∀ id time scaling,
      Refines g (strict id time scaling) (loose id time scaling)) :
    Refines f (Timing.expression unfoldRepeats strict doc id time scaling)
      (Timing.expression unfoldRepeats loose doc id time scaling) := by
  unfold Timing.expression
  dsimp only
  split
  · exact .together sound _ time scaling steps
  · exact .together sound _ time scaling steps
  · exact .inTurn sound _ time scaling steps
  · refine .bind sound (.refl (.multiply f scaling _)) fun own g grown after => ?_
    exact .inTurn after _ time own fun h later => steps h (grown.trans later)
  · exact .inTurn sound _ time 0 steps
  · unfold Timing.repetition
    dsimp only
    split
    · exact .inTurn sound _ time scaling steps
    · exact .unfolded sound _ _ _ time scaling steps
  · exact .inTurn sound _ time scaling steps

/-- A walk that meets no bound comes to the same under higher bounds. -/
theorem walk (unfoldRepeats : Bool) {n m references more : Nat} (levels : n ≤ m)
    (nested : references ≤ more) (sound : f.Sound) {d : DocumentId} (there : d < f.documents.size)
    (id : ItemId) (time scaling : Fraction) :
    Refines f (Timing.strictWalk unfoldRepeats n references d id time scaling)
      (Timing.walk unfoldRepeats m more d id time scaling) := by
  induction n generalizing m references more f d id time scaling with
  | zero => exact .marked f time _
  | succ n ih =>
    obtain ⟨m, rfl⟩ : ∃ k, m = k + 1 := ⟨m - 1, by omega⟩
    have levels : n ≤ m := Nat.le_of_succ_le_succ levels
    refine .get sound (fun g grown => by rw [grown.documents d there]) ?_
    dsimp only
    split
    · refine .refl ?_
      split
      · exact .addScaled f time _ scaling
      · exact .marked f _
    · split
      · cases references with
        | zero => exact .marked f time _
        | succ references =>
          obtain ⟨more, rfl⟩ : ∃ k, more = k + 1 := ⟨more - 1, by omega⟩
          refine .lift_bind sound (variableValue_lasting sound there id) fun found g _ after inside => ?_
          cases found with
          | none => exact .refl (.pure g time)
          | some value =>
            exact ih levels (Nat.le_of_succ_le_succ nested) after (inside value rfl) _ time scaling
      · split
        · refine .expression sound unfoldRepeats _ id time scaling fun g grown after id time scaling => ?_
          exact ih levels nested after (Nat.lt_of_lt_of_le there grown.size) id time scaling
        · exact .refl (.pure f time)

end Walk

end Refines

theorem strictWalk_lasts (unfoldRepeats : Bool) (n references : Nat) {f : Family} (sound : f.Sound)
    {d : DocumentId} (there : d < f.documents.size) (id : ItemId) (time scaling : Fraction) :
    f.Lasts (Timing.strictWalk unfoldRepeats n references d id time scaling) :=
  (Refines.walk unfoldRepeats (Nat.le_refl n) (Nat.le_refl references) sound there id time scaling).lasts

end ScoreText
