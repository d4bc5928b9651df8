import ScoreText.Proofs.Lasting

/-! A walker that is used again. It counts the items and the references in which it is, and each count
goes back when it leaves. So the walks before make no difference to where a later one ends, and the levels
that are left tell as much as the counts. -/
namespace ScoreText

/-- What a walker keeps from one walk to the next. -/
structure Walker where
  /-- the references in which it is -/
  references : Nat
  /-- the items in which it is -/
  nesting : Nat
  /-- whether something did not fit -/
  overflowed : Bool

def Walker.fresh : Walker :=
  ⟨0, 0, false⟩

abbrev Walking := StateT Walker Resolving

namespace Walking

def leaveMark : Walking Unit :=
  modify fun w => { w with overflowed := true }

def addScaled (time length factor : Fraction) : Walking Fraction :=
  match (length.mul? factor).bind time.add? with
  | some later => return later
  | none => do
    leaveMark
    return time

def multiply (a b : Fraction) : Walking Fraction :=
  match a.mul? b with
  | some product => return product
  | none => do
    leaveMark
    return 0

abbrev Step := ItemId → Fraction → Fraction → Walking Fraction

def inTurn (step : Step) (items : List ItemId) (time scaling : Fraction) : Walking Fraction :=
  items.foldlM (fun time item => step item time scaling) time

def together (step : Step) (items : List ItemId) (time scaling : Fraction) : Walking Fraction := do
  match ← items.mapM fun item => step item time scaling with
  | [] => return time
  | first :: others => return others.foldl Timing.later first

/-- The endings of a repeat, each behind the body. -/
def endingsInTurn (step : Step) (ends : List ItemId) (length time scaling : Fraction) : Walking Fraction :=
  ends.foldlM (fun time ending => do step ending (← addScaled time length 1) scaling) time

def allPasses (step : Step) (ends : List ItemId) (count : Int) (time scaling length : Fraction) :
    Walking Fraction :=
  match ends.take (count.toNat + 1) with
  | [] => addScaled time length count
  | first :: others =>
    let missing := count - (first :: others).length
    (if missing > 0 then step first length scaling >>= fun pass => addScaled time pass missing
      else pure time) >>= fun time =>
      endingsInTurn step (first :: others) length time scaling

def unfolded (step : Step) (body ends : List ItemId) (count : Int) (time scaling : Fraction) :
    Walking Fraction :=
  inTurn step body 0 scaling >>= allPasses step ends count time scaling

def repetition (unfoldRepeats : Bool) (step : Step) (doc : Document) (id : ItemId)
    (time scaling : Fraction) : Walking Fraction :=
  let (body, alternative) := Timing.splitRepeat doc.tree id
  if !unfoldRepeats && doc.repeatStyle? id == some "volta" then
    inTurn step (body ++ alternative.toList) time scaling
  else
    unfolded step body (Timing.endings doc.tree alternative) (max 1 (doc.timesPlayed id)) time scaling

def expression (unfoldRepeats : Bool) (step : Step) (doc : Document) (id : ItemId)
    (time scaling : Fraction) : Walking Fraction := do
  let item := doc.tree.item id
  match item.kind, item.details with
  | .musicList, .list true | .partCombine, _ => together step item.children time scaling
  | .tag, _ => inTurn step item.children.getLast?.toList time scaling
  | .scaler, .scaler _ _ own => inTurn step item.children time (← multiply scaling own)
  | .grace, _ => inTurn step item.children time 0
  | .repetition, _ => repetition unfoldRepeats step doc id time scaling
  | _, _ => inTurn step item.children time scaling

/-- Walks along what a reference stands for, unless the walker is in too many of them. -/
def reference (c : Counting) (traverse : DocumentId → Step) (d : DocumentId) : Step :=
  fun id time scaling => do
    if c.maxReferenceDepth ≤ (← get).references then return time
    else match ← (Family.variableValue? d id : Resolving _) with
      | some (source, value) => do
        modify fun w => { w with references := w.references + 1 }
        let time ← traverse source value time scaling
        modify fun w => { w with references := w.references - 1 }
        return time
      | none => return time

def item (c : Counting) (traverse : DocumentId → Step) (d : DocumentId) : Step :=
  fun id time scaling => do
    let doc := (← getThe Family).document d
    let item := doc.tree.item id
    if item.kind.isDurable then
      match item.durationOrZero.length? with
      | some length => addScaled time length scaling
      | none =>
        leaveMark
        return time
    else if item.kind == .userCommand then reference c traverse d id time scaling
    else if item.kind.isMusic then expression c.unfoldRepeats (traverse d) doc id time scaling
    else return time

/-- Walks along an item, unless the walker is in too many of them. As many levels as it may be in items are
enough. -/
def traverse (c : Counting) : Nat → DocumentId → Step
  | 0, _, _, time, _ => return time
  | n + 1, d, id, time, scaling => do
    if c.maxNestingDepth ≤ (← get).nesting then return time
    else
      modify fun w => { w with nesting := w.nesting + 1 }
      let time ← item c (traverse c n) d id time scaling
      modify fun w => { w with nesting := w.nesting - 1 }
      return time

/-- From some counts on, a walk comes to those counts again and ends where one without counts ends, which
does not look at its mark. -/
structure Returns {α : Type} (references nesting : Nat) (walk : Walking α) (plain : Timing α) : Prop where
  counts : ∀ mark f, (walk.run ⟨references, nesting, mark⟩).run f =
    ((((plain.run false).run f).1.1, ⟨references, nesting, ((plain.run false).run f).1.2 || mark⟩),
      ((plain.run false).run f).2)
  blind : ∀ mark f, (plain.run mark).run f =
    ((((plain.run false).run f).1.1, ((plain.run false).run f).1.2 || mark), ((plain.run false).run f).2)

namespace Returns

variable {α β : Type} {references nesting : Nat}

theorem pure (a : α) : Returns references nesting (Pure.pure a) (Pure.pure a) :=
  ⟨fun _ _ => rfl, fun _ _ => rfl⟩

theorem bind {x : Walking α} {y : Timing α} {k : α → Walking β} {l : α → Timing β}
    (first : Returns references nesting x y) (next : ∀ a, Returns references nesting (k a) (l a)) :
    Returns references nesting (x >>= k) (y >>= l) where
  counts mark f := by
    rw [StateT.run_bind, Family.run_bind, first.counts, StateT.run_bind, Family.run_bind,
      (next _).counts, (next _).blind ((y.run false).run f).1.2, Bool.or_assoc]
  blind mark f := by
    rw [StateT.run_bind, Family.run_bind, first.blind, StateT.run_bind, Family.run_bind,
      (next _).blind (_ || mark), (next _).blind ((y.run false).run f).1.2, Bool.or_assoc]

theorem lift_bind (act : Resolving α) {k : α → Walking β} {l : α → Timing β}
    (next : ∀ a, Returns references nesting (k a) (l a)) :
    Returns references nesting (liftM act >>= k) (liftM act >>= l) where
  counts mark f := (next (act.run f).1).counts mark (act.run f).2
  blind mark f := (next (act.run f).1).blind mark (act.run f).2

theorem get_bind {k : Family → Walking β} {l : Family → Timing β}
    (next : ∀ f, Returns references nesting (k f) (l f)) :
    Returns references nesting (getThe Family >>= k) (getThe Family >>= l) where
  counts mark f := (next f).counts mark f
  blind mark f := (next f).blind mark f

theorem foldlM {k : α → β → Walking α} {l : α → β → Timing α} (items : List β)
    (steps : ∀ a b, Returns references nesting (k a b) (l a b)) (a : α) :
    Returns references nesting (items.foldlM k a) (items.foldlM l a) := by
  induction items generalizing a with
  | nil => exact .pure a
  | cons b items ih =>
    rw [List.foldlM_cons, List.foldlM_cons]
    exact .bind (steps a b) ih

theorem mapM {k : α → Walking β} {l : α → Timing β} (items : List α)
    (steps : ∀ a, Returns references nesting (k a) (l a)) :
    Returns references nesting (items.mapM k) (items.mapM l) := by
  induction items with
  | nil => exact .pure []
  | cons a items ih =>
    rw [List.mapM_cons, List.mapM_cons]
    exact .bind (steps a) fun b => .bind ih fun bs => .pure (b :: bs)

theorem marked (a : α) : Returns references nesting (leaveMark >>= fun _ => Pure.pure a)
    (Timing.leaveMark >>= fun _ => Pure.pure a) :=
  ⟨fun _ _ => rfl, fun _ _ => rfl⟩

theorem addScaled (time length factor : Fraction) :
    Returns references nesting (addScaled time length factor) (Timing.addScaled time length factor) := by
  unfold Walking.addScaled Timing.addScaled
  cases (length.mul? factor).bind time.add? with
  | some later => exact .pure later
  | none => exact .marked time

theorem multiply (a b : Fraction) : Returns references nesting (multiply a b) (Timing.multiply a b) := by
  unfold Walking.multiply Timing.multiply
  cases a.mul? b with
  | some product => exact .pure product
  | none => exact .marked 0

section Music

variable {step : Step} {plain : Timing.Step}
  (steps : ∀ id time scaling, Returns references nesting (step id time scaling) (plain id time scaling))

include steps

theorem inTurn (items : List ItemId) (time scaling : Fraction) :
    Returns references nesting (inTurn step items time scaling) (Timing.inTurn plain items time scaling) :=
  .foldlM items (fun time id => steps id time scaling) time

theorem together (items : List ItemId) (time scaling : Fraction) :
    Returns references nesting (together step items time scaling) (Timing.together plain items time scaling) := by
  refine .bind (.mapM items fun id => steps id time scaling) fun ends => ?_
  cases ends with
  | nil => exact .pure time
  | cons first others => exact .pure _

theorem endingsInTurn (ends : List ItemId) (length time scaling : Fraction) :
    Returns references nesting (endingsInTurn step ends length time scaling)
      (Timing.endingsInTurn plain ends length time scaling) :=
  .foldlM ends (fun time ending => .bind (.addScaled time length 1) fun time => steps ending time scaling) time

theorem allPasses (ends : List ItemId) (count : Int) (time scaling length : Fraction) :
    Returns references nesting (allPasses step ends count time scaling length)
      (Timing.allPasses plain ends count time scaling length) := by
  unfold Walking.allPasses Timing.allPasses
  cases ends.take (count.toNat + 1) with
  | nil => exact .addScaled time length count
  | cons first others =>
    refine .bind ?_ fun time => .endingsInTurn steps _ length time scaling
    split
    · exact .bind (steps first length scaling) fun pass => .addScaled time pass _
    · exact .pure time

theorem repetition (unfoldRepeats : Bool) (doc : Document) (id : ItemId) (time scaling : Fraction) :
    Returns references nesting (repetition unfoldRepeats step doc id time scaling)
      (Timing.repetition unfoldRepeats plain doc id time scaling) := by
  unfold Walking.repetition Timing.repetition
  dsimp only
  split
  · exact .inTurn steps _ time scaling
  · rw [Timing.unfolded_eq]
    exact .bind (.inTurn steps _ 0 scaling) fun length => .allPasses steps _ _ time scaling length

theorem expression (unfoldRepeats : Bool) (doc : Document) (id : ItemId) (time scaling : Fraction) :
    Returns references nesting (expression unfoldRepeats step doc id time scaling)
      (Timing.expression unfoldRepeats plain doc id time scaling) := by
  unfold Timing.expression
  dsimp only
  split <;> simp only [Walking.expression, *]
  · exact .together steps _ time scaling
  · exact .together steps _ time scaling
  · exact .inTurn steps _ time scaling
  · exact .bind (.multiply scaling _) fun own => .inTurn steps _ time own
  · exact .inTurn steps _ time 0
  · exact .repetition steps unfoldRepeats doc id time scaling
  · exact .inTurn steps _ time scaling

end Music

end Returns

section Counts

variable {c : Counting} {step : DocumentId → Step} {references nesting : Nat}

theorem Returns.counted {enter leave : Walker → Walker} {walk : Walking Fraction} {plain : Timing Fraction}
    {r n : Nat} (entered : ∀ mark, enter ⟨references, nesting, mark⟩ = ⟨r, n, mark⟩)
    (left : ∀ mark, leave ⟨r, n, mark⟩ = ⟨references, nesting, mark⟩) (returns : Returns r n walk plain) :
    Returns references nesting (do
      modify enter
      let time ← walk
      modify leave
      return time) plain where
  counts mark f := by
    show (fun out => ((out.1.1, leave out.1.2), out.2)) ((walk.run (enter ⟨references, nesting, mark⟩)).run f) = _
    rw [entered, returns.counts]
    dsimp only
    rw [left]
  blind := returns.blind

/-- Where the walker is in too many items or references nothing is left, and one less below each. -/
theorem Returns.guarded {count limit : Nat} {walk : Walking Fraction} {time : Fraction}
    (plain : Nat → Timing Fraction) (get : Walker → Nat) (here : ∀ mark, get ⟨references, nesting, mark⟩ = count)
    (none : plain 0 = Pure.pure time)
    (returns : ∀ left, limit - count = left + 1 → Returns references nesting walk (plain (left + 1))) :
    Returns references nesting (do
      if limit ≤ get (← MonadState.get) then return time
      else walk) (plain (limit - count)) := by
  by_cases full : limit ≤ count
  · rw [Nat.sub_eq_zero_of_le full, none]
    refine ⟨fun mark f => ?_, fun _ _ => rfl⟩
    show ((ite _ _ _ : Walking Fraction).run _).run f = _
    rw [here, if_pos full]
    rfl
  · obtain ⟨left, rest⟩ : ∃ left, limit - count = left + 1 := ⟨limit - count - 1, by omega⟩
    rw [rest]
    refine ⟨fun mark f => ?_, (returns left rest).blind⟩
    show ((ite _ _ _ : Walking Fraction).run _).run f = _
    rw [here, if_neg full]
    exact (returns left rest).counts mark f

theorem reference_returns {left : Nat} (inner : ∀ references d id time scaling,
      Returns references nesting (step d id time scaling)
        (Timing.walk c.unfoldRepeats left (c.maxReferenceDepth - references) d id time scaling))
    (d : DocumentId) (id : ItemId) (time scaling : Fraction) :
    Returns references nesting (reference c step d id time scaling)
      (match c.maxReferenceDepth - references with
        | 0 => return time
        | references + 1 => do
          match ← (Family.variableValue? d id : Resolving _) with
          | some (source, value) => Timing.walk c.unfoldRepeats left references source value time scaling
          | none => return time) := by
  refine .guarded (fun references => match references with
        | 0 => return time
        | references + 1 => do
          match ← (Family.variableValue? d id : Resolving _) with
          | some (source, value) => Timing.walk c.unfoldRepeats left references source value time scaling
          | none => return time) Walker.references (fun _ => rfl) rfl fun others rest => ?_
  refine .lift_bind _ fun found => ?_
  cases found with
  | none => exact .pure time
  | some value =>
    refine .counted (r := references + 1) (n := nesting) (fun _ => rfl) (fun _ => rfl) ?_
    have returns := inner (references + 1) value.1 value.2 time scaling
    rwa [show c.maxReferenceDepth - (references + 1) = others by omega] at returns

/-- The walk with counts ends where the one ends that is given the levels and references that are left. -/
theorem traverse_returns (c : Counting) (n : Nat) (enough : c.maxNestingDepth ≤ n + nesting) (d : DocumentId)
    (id : ItemId) (time scaling : Fraction) :
    Returns references nesting (traverse c n d id time scaling)
      (Timing.walk c.unfoldRepeats (c.maxNestingDepth - nesting) (c.maxReferenceDepth - references) d id time
        scaling) := by
  induction n generalizing references nesting d id time scaling with
  | zero =>
    rw [Nat.sub_eq_zero_of_le (by omega)]
    exact .pure time
  | succ n ih =>
    refine .guarded (fun left => Timing.walk c.unfoldRepeats left _ d id time scaling) Walker.nesting
      (fun _ => rfl) rfl fun left rest => ?_
    refine .counted (r := references) (n := nesting + 1) (fun _ => rfl) (fun _ => rfl) ?_
    have inner : ∀ references d id time scaling, Returns references (nesting + 1) (traverse c n d id time scaling)
        (Timing.walk c.unfoldRepeats left (c.maxReferenceDepth - references) d id time scaling) := by
      intro references d id time scaling
      have returns := @ih references (nesting + 1) (by omega) d id time scaling
      rwa [show c.maxNestingDepth - (nesting + 1) = left by omega] at returns
    unfold item Timing.walk
    refine .get_bind fun f => ?_
    dsimp only
    split
    · cases ((f.document d).tree.item id).durationOrZero.length? with
      | some length => exact .addScaled time length scaling
      | none => exact .marked time
    · split
      · exact reference_returns inner d id time scaling
      · split
        · exact .expression (inner references d) c.unfoldRepeats _ id time scaling
        · exact .pure time

end Counts

end Walking

/-- What a walker is asked for: where a walk along an item ends. -/
structure Walk where
  document : DocumentId
  item : ItemId
  time : Fraction
  scaling : Fraction

namespace Walk

variable (c : Counting) (walk : Walk) (walks : List Walk) (w : Walker) (f : Family)

def counted : Walking Fraction :=
  Walking.traverse c c.maxNestingDepth walk.document walk.item walk.time walk.scaling

theorem counted_returns (references nesting : Nat) :
    Walking.Returns references nesting (walk.counted c)
      (Timing.walk c.unfoldRepeats (c.maxNestingDepth - nesting) (c.maxReferenceDepth - references) walk.document
        walk.item walk.time walk.scaling) :=
  Walking.traverse_returns c _ (Nat.le_add_right _ _) ..

theorem counted_keeps :
    (((walk.counted c).run w).run f).1.2.references = w.references ∧
      (((walk.counted c).run w).run f).1.2.nesting = w.nesting := by
  have run := (walk.counted_returns c w.references w.nesting).counts w.overflowed f
  exact ⟨congrArg (·.1.2.references) run, congrArg (·.1.2.nesting) run⟩

/-- A walker that is in no item and no reference comes to the time of the walk without counts. -/
theorem counted_fresh (mark : Bool) :
    (((walk.counted c).run ⟨0, 0, mark⟩).run f).1.1 =
      ((Family.timed (Family.timeAfter c walk.document walk.item walk.time walk.scaling)).run f).1.1 := by
  rw [(walk.counted_returns c 0 0).counts]
  rfl

/-- After any walks the walker is in no item and no reference, as a fresh one. -/
theorem counted_again :
    let before := ((walks.mapM (counted c)).run .fresh).run f
    (((walk.counted c).run before.1.2).run before.2).1.1 = (((walk.counted c).run .fresh).run before.2).1.1 := by
  intro before
  have all : Walking.Returns 0 0 (walks.mapM (counted c)) _ := .mapM walks fun walk => walk.counted_returns c 0 0
  have left : before.1.2 = ⟨0, 0, _⟩ := congrArg (·.1.2) (all.counts false f)
  rw [left, counted_fresh, Walker.fresh, counted_fresh]

end Walk

end ScoreText
