import Mathlib.Algebra.Order.Ring.Rat
import Mathlib.Data.List.Basic
import Mathlib.Tactic.Ring
import ScoreText.Proofs.Lasting

/-! Exact time. The walk measures what is repeated once and multiplies, and it gives up sums that do
not fit. The walk here does neither: it goes through every pass of a repeat, in unbounded fractions. If
nothing was given up, the two agree, on the documents that are read on the way, too. -/
namespace ScoreText

namespace Unrolled

/-- The time before an item and the scaling in effect give the time after it. -/
abbrev Step := ItemId → Fraction → Fraction → Resolving Fraction

def inTurn (step : Step) (items : List ItemId) (time scaling : Fraction) : Resolving Fraction :=
  items.foldlM (fun time item => step item time scaling) time

/-- The latest of the times after the items, or the time itself if there are none. -/
def together (step : Step) (items : List ItemId) (time scaling : Fraction) : Resolving Fraction := do
  let ends ← items.mapM fun item => step item time scaling
  return ends.max?.getD time

/-- All that is played of a repeat. Without endings this is the body, as often as it is played. With
endings each pass is the body and one of them: as many as there are, but one more than passes at most,
and the first one in front as often as it takes to have one for each pass. -/
def passes (body ends : List ItemId) (count : Nat) : List ItemId :=
  match ends.take (count + 1) with
  | [] => (List.replicate count body).flatten
  | first :: others =>
    (List.replicate (count - (first :: others).length) first ++ first :: others).flatMap
      fun ending => body ++ [ending]

def expression (unfoldRepeats : Bool) (step : Step) (doc : Document) (id : ItemId)
    (time scaling : Fraction) : Resolving Fraction :=
  let item := doc.tree.item id
  match item.kind, item.details with
  | .musicList, .list true | .partCombine, _ => together step item.children time scaling
  | .tag, _ => inTurn step item.children.getLast?.toList time scaling
  | .scaler, .scaler _ _ own => inTurn step item.children time (scaling * own)
  | .grace, _ => inTurn step item.children time 0
  | .repetition, _ =>
    if !unfoldRepeats && doc.repeatStyle? id == some "volta" then
      inTurn step item.children time scaling
    else
      let (body, alternative) := Timing.splitRepeat doc.tree id
      let count := (max 1 (doc.timesPlayed id)).toNat
      inTurn step (passes body (Timing.endings doc.tree alternative) count) time scaling
  | _, _ => inTurn step item.children time scaling

/-- The walk along an item, taken literally. -/
def walk (unfoldRepeats : Bool) : Nat → Nat → DocumentId → Step
  | 0, _, _, _, time, _ => return time
  | n + 1, references, d, id, time, scaling => do
    let doc := (← get).document d
    let item := doc.tree.item id
    if item.kind.isDurable then return time + item.durationOrZero.length * scaling
    else if item.kind == .userCommand then
      match references with
      | 0 => return time
      | references + 1 =>
        match ← Family.variableValue? d id with
        | some (source, value) => walk unfoldRepeats n references source value time scaling
        | none => return time
    else if item.kind.isMusic then
      expression unfoldRepeats (walk unfoldRepeats n references d) doc id time scaling
    else return time

theorem inTurn_append (step : Step) (front back : List ItemId) (time scaling : Fraction) :
    inTurn step (front ++ back) time scaling =
      inTurn step front time scaling >>= fun time => inTurn step back time scaling := by
  rw [inTurn, List.foldlM_append]
  rfl

theorem inTurn_single (step : Step) (id : ItemId) (time scaling : Fraction) :
    inTurn step [id] time scaling = step id time scaling := by
  simp only [inTurn, List.foldlM_cons, List.foldlM_nil, bind_pure]

section Shift

/-- What starts later ends later by as much, and reads the same. -/
structure Shifts (act : Fraction → Resolving Fraction) : Prop where
  run : ∀ shift t f, (act (shift + t)).run f = (shift + ((act t).run f).1, ((act t).run f).2)

variable {step : Step}

theorem Shifts.bind {first next : Fraction → Resolving Fraction} (one : Shifts first)
    (other : Shifts next) : Shifts fun t => first t >>= next where
  run shift t f := by
    rw [Family.run_bind, one.run]
    exact other.run ..

theorem inTurn_shifts (shifts : ∀ id scaling, Shifts (step id · scaling)) (items : List ItemId)
    (scaling : Fraction) : Shifts (inTurn step items · scaling) := by
  induction items with
  | nil => exact ⟨fun _ _ _ => rfl⟩
  | cons id items ih => exact .bind (shifts id scaling) ih

theorem max?_map_of_monotone {g : Fraction → Fraction} (monotone : Monotone g) (times : List Fraction) :
    (times.map g).max? = times.max?.map g := by
  cases times with
  | nil => rfl
  | cons first others =>
    simp only [List.map_cons, List.max?_cons', Option.map_some, List.foldl_map]
    rw [List.foldl_hom g fun t u => (monotone.map_max (a := t) (b := u)).symm]

/-- If all items end at another time that depends monotonically on the one they had, so does the latest. -/
theorem together_maps {g : Fraction → Fraction} (monotone : Monotone g) {t scaling own : Fraction}
    (maps : ∀ id f, (step id (g t) own).run f = (g ((step id t scaling).run f).1, ((step id t scaling).run f).2))
    (items : List ItemId) (f : Family) : (together step items (g t) own).run f =
      (g ((together step items t scaling).run f).1, ((together step items t scaling).run f).2) := by
  have ends : (items.mapM fun id => step id (g t) own).run f =
      (((items.mapM fun id => step id t scaling).run f).1.map g,
        ((items.mapM fun id => step id t scaling).run f).2) := by
    induction items generalizing f with
    | nil => rfl
    | cons id items ih =>
      simp only [List.mapM_cons, Family.run_bind, maps id f, ih]
      rfl
  simp only [together, Family.run_bind, ends, max?_map_of_monotone monotone]
  cases ((items.mapM fun id => step id t scaling).run f).1.max? <;> rfl

theorem together_shifts (shifts : ∀ id scaling, Shifts (step id · scaling)) (items : List ItemId)
    (scaling : Fraction) : Shifts (together step items · scaling) where
  run shift t f := together_maps (fun _ _ le => add_le_add_right le shift)
    (fun id => (shifts id scaling).run shift t) items f

theorem expression_shifts (shifts : ∀ id scaling, Shifts (step id · scaling)) (unfoldRepeats : Bool)
    (doc : Document) (id : ItemId) (scaling : Fraction) :
    Shifts (expression unfoldRepeats step doc id · scaling) := by
  unfold expression
  dsimp only
  split
  · exact together_shifts shifts ..
  · exact together_shifts shifts ..
  · exact inTurn_shifts shifts ..
  · exact inTurn_shifts shifts ..
  · exact inTurn_shifts shifts ..
  · split
    · exact inTurn_shifts shifts ..
    · exact inTurn_shifts shifts ..
  · exact inTurn_shifts shifts ..

theorem walk_shifts (unfoldRepeats : Bool) (n references : Nat) (d : DocumentId) (id : ItemId)
    (scaling : Fraction) : Shifts (walk unfoldRepeats n references d id · scaling) := by
  induction n generalizing references d id scaling with
  | zero => exact ⟨fun _ _ _ => rfl⟩
  | succ n ih =>
    refine ⟨fun shift t f => ?_⟩
    simp only [walk, Family.run_get_bind]
    split
    · exact congrArg (·, f) (add_assoc ..)
    · split
      · cases references with
        | zero => rfl
        | succ references =>
          simp only [Family.run_bind]
          cases ((Family.variableValue? d id).run f).1 with
          | none => rfl
          | some value => exact (ih references value.1 value.2 scaling).run ..
      · split
        · exact (expression_shifts (fun id scaling => ih references d id scaling) ..).run ..
        · rfl

end Shift

section Take

/-- From some family on, an act takes a time, and what it reads it reads once. -/
structure Takes (act : Fraction → Resolving Fraction) (f : Family) (length : Fraction) (g : Family) :
    Prop where
  now : ∀ t, (act t).run f = (t + length, g)
  later : ∀ h, g.Grows h → h.Sound → ∀ t, (act t).run h = (t + length, h)

variable {first next : Fraction → Resolving Fraction} {f g h : Family} {a b : Fraction}

theorem Takes.bind (one : Takes first f a g) (other : Takes next g b h) (grown : g.Grows h) :
    Takes (fun t => first t >>= next) f (a + b) h where
  now t := by
    rw [Family.run_bind, one.now, other.now, add_assoc]
  later i later sound t := by
    rw [Family.run_bind, one.later i (grown.trans later) sound, other.later i later sound, add_assoc]

/-- The same items several times: the first time tells the length of all. -/
theorem Takes.replicate {step : Step} {items : List ItemId} {scaling : Fraction}
    (takes : Takes (inTurn step items · scaling) f a g) (sound : g.Sound) (n : Nat) :
    Takes (inTurn step (List.replicate (n + 1) items).flatten · scaling) f ((n + 1 : Nat) * a) g := by
  induction n with
  | zero => simpa using takes
  | succ n ih =>
    have again : Takes (inTurn step (List.replicate (n + 1) items).flatten · scaling) g
        ((n + 1 : Nat) * a) g := ⟨ih.later g (.refl g) sound, ih.later⟩
    have both := takes.bind again (.refl g)
    rw [List.replicate_succ, List.flatten_cons]
    simp only [inTurn_append]
    have total : ((n + 1 + 1 : Nat) : Fraction) * a = a + (n + 1 : Nat) * a := by
      push_cast
      ring
    rw [total]
    exact both

end Take

/-- If an act leaves no mark, this is its outcome, and the family that it leaves. -/
def Unmarked {α : Type} (f : Family) (checked : Timing α) (outcome : α × Family) : Prop :=
  ∀ a g, (checked.run false).run f = ((a, false), g) → outcome = (a, g)

/-- A checked act that lasts, and what it comes to if nothing is given up. -/
structure Exact {α : Type} (f : Family) (checked : Timing α) (exact : Resolving α) : Prop where
  lasts : f.Lasts checked
  unmarked : Unmarked f checked (exact.run f)

namespace Exact

open ScoreText.Family

variable {α β : Type} {f : Family}

theorem pure (f : Family) (a : α) : Exact f (Pure.pure a) (Pure.pure a) where
  lasts := .pure f a
  unmarked b g run := by
    cases run
    rfl

/-- Of two acts in a row that leave no mark, the first leaves none. -/
theorem run_bind_unmarked {x : Timing α} {k : α → Timing β} (sound : f.Sound) (first : f.Lasts x)
    (next : ∀ a g, f.Grows g → g.Sound → g.Lasts (k a)) {b : β} {h : Family}
    (run : ((x >>= k).run false).run f = ((b, false), h)) :
    ∃ a g, (x.run false).run f = ((a, false), g) ∧ f.Grows g ∧ g.Sound ∧
      ((k a).run false).run g = ((b, false), h) := by
  obtain ⟨grown, after⟩ := (first false).kept sound
  rw [StateT.run_bind, run_bind] at run
  obtain ⟨⟨⟨a, mark⟩, g⟩, ran⟩ : ∃ out, (x.run false).run f = out := ⟨_, rfl⟩
  rw [ran] at grown after run
  have stays := (next a g grown after mark).answer
  rw [run] at stays
  cases mark with
  | true => cases stays rfl
  | false => exact ⟨a, g, ran, grown, after, run⟩

theorem bind {x : Timing α} {y : Resolving α} {k : α → Timing β} {l : α → Resolving β} (sound : f.Sound)
    (first : Exact f x y) (next : ∀ a g, f.Grows g → g.Sound → Exact g (k a) (l a)) :
    Exact f (x >>= k) (y >>= l) where
  lasts := .bind sound first.lasts fun a g grown after => (next a g grown after).lasts
  unmarked b h run := by
    obtain ⟨a, g, ran, grown, after, then_⟩ := run_bind_unmarked sound first.lasts
      (fun a g grown after => (next a g grown after).lasts) run
    rw [run_bind, first.unmarked a g ran]
    exact (next a g grown after).unmarked b h then_

theorem lift_bind {P : Family → α → Prop} {x : Resolving α} {k : α → Timing β} {l : α → Resolving β}
    (sound : f.Sound) (first : Lasting P f x)
    (next : ∀ a g, f.Grows g → g.Sound → P g a → Exact g (k a) (l a)) :
    Exact f (liftM x >>= k) (x >>= l) where
  lasts := .lift_bind sound first fun a g grown after answer => (next a g grown after answer).lasts
  unmarked b h run := by
    obtain ⟨grown, after⟩ := first.kept sound
    exact (next _ _ grown after first.answer).unmarked b h run

theorem of_run {x : Timing α} {y z : Resolving α} (exact : Exact f x y) (same : z.run f = y.run f) :
    Exact f x z where
  lasts := exact.lasts
  unmarked a g run := by
    rw [same]
    exact exact.unmarked a g run

theorem foldlM {k : α → β → Timing α} {l : α → β → Resolving α} (items : List β) (sound : f.Sound)
    (a : α) (step : ∀ g, f.Grows g → g.Sound → ∀ b a, Exact g (k a b) (l a b)) :
    Exact f (items.foldlM k a) (items.foldlM l a) := by
  induction items generalizing f a with
  | nil => exact .pure f a
  | cons b items ih =>
    rw [List.foldlM_cons, List.foldlM_cons]
    refine .bind sound (step f (.refl f) sound b a) fun a g grown after => ?_
    exact ih after a fun h later => step h (grown.trans later)

theorem mapM {k : β → Timing α} {l : β → Resolving α} (items : List β) (sound : f.Sound)
    (step : ∀ g, f.Grows g → g.Sound → ∀ b, Exact g (k b) (l b)) :
    Exact f (items.mapM k) (items.mapM l) := by
  induction items generalizing f with
  | nil => exact .pure f []
  | cons b items ih =>
    rw [List.mapM_cons, List.mapM_cons]
    refine .bind sound (step f (.refl f) sound b) fun a g grown after => ?_
    exact .bind after (ih after fun h later => step h (grown.trans later)) fun _ _ _ _ => .pure _ _

theorem addScaled (f : Family) (time length factor : Fraction) :
    Exact f (Timing.addScaled time length factor) (Pure.pure (time + length * factor)) := by
  refine ⟨.addScaled f time length factor, fun a g run => ?_⟩
  unfold Timing.addScaled at run
  split at run
  · rename_i later fits
    cases run
    obtain ⟨product, times, plus⟩ := Option.bind_eq_some_iff.mp fits
    cases (Option.ite_none_right_eq_some.mp times).2
    cases (Option.ite_none_right_eq_some.mp plus).2
    rfl
  · cases run

theorem multiply (f : Family) (a b : Fraction) :
    Exact f (Timing.multiply a b) (Pure.pure (a * b)) := by
  refine ⟨.multiply f a b, fun c g run => ?_⟩
  unfold Timing.multiply at run
  split at run
  · rename_i product fits
    cases run
    cases (Option.ite_none_right_eq_some.mp fits).2
    rfl
  · cases run

section Walk

variable {checked : Timing.Step} {exact : Unrolled.Step}

theorem inTurn (sound : f.Sound) (items : List ItemId) (time scaling : Fraction)
    (steps : ∀ g, f.Grows g → g.Sound → ∀ id time scaling,
      Exact g (checked id time scaling) (exact id time scaling)) :
    Exact f (Timing.inTurn checked items time scaling) (Unrolled.inTurn exact items time scaling) :=
  .foldlM items sound time fun g grown after id time => steps g grown after id time scaling

theorem later_eq_max : Timing.later = max := by
  funext a b
  rw [Timing.later, max_def]

theorem together (sound : f.Sound) (items : List ItemId) (time scaling : Fraction)
    (steps : ∀ g, f.Grows g → g.Sound → ∀ id time scaling,
      Exact g (checked id time scaling) (exact id time scaling)) :
    Exact f (Timing.together checked items time scaling)
      (Unrolled.together exact items time scaling) := by
  refine .bind sound (.mapM items sound fun g grown after id => steps g grown after id time scaling)
    fun ends g _ _ => ?_
  cases ends with
  | nil => exact .pure g time
  | cons first others =>
    rw [List.max?_cons', ← later_eq_max]
    exact .pure g _

/-- An act that leaves no mark tells how long it takes from then on. -/
theorem measured {act : Fraction → Timing Fraction} {literal : Fraction → Resolving Fraction}
    (shifts : Shifts literal) (sound : f.Sound)
    (same : ∀ g, f.Grows g → g.Sound → ∀ t, Exact g (act t) (literal t)) {t : Fraction}
    {k : Fraction → Timing β} {y : β × Family}
    (lasts : ∀ a g, f.Grows g → g.Sound → g.Lasts (k a))
    (next : ∀ length g, f.Grows g → g.Sound → Takes literal f length g →
      Unmarked g (k (t + length)) y) :
    Unmarked f (act t >>= k) y := by
  intro b i run
  have here := same f (.refl f) sound t
  obtain ⟨a, g, ran, grown, after, then_⟩ := run_bind_unmarked sound here.lasts lasts run
  have again := (here.lasts false).again
  rw [ran] at again
  -- from another time on it takes as long
  have moved : ∀ h i, (literal t).run h = (a, i) → ∀ u, (literal u).run h = (u + (a - t), i) := by
    intro h i once u
    have moved := shifts.run (u - t) t h
    rw [once, sub_add_cancel] at moved
    rw [moved, sub_add_eq_add_sub, add_sub_assoc]
  have takes : Takes literal f (a - t) g := by
    refine ⟨moved f g (here.unmarked a g ran), fun h later sound => moved h h ?_⟩
    exact (same h (grown.trans later) sound t).unmarked a h (again h later)
  have unmarked := next (a - t) g grown after takes
  rw [add_sub_cancel] at unmarked
  exact unmarked b i then_

theorem endings {length : Fraction} (body ends : List ItemId) (time scaling : Fraction)
    (bodies : ∀ g, f.Grows g → g.Sound → ∀ t,
      (Unrolled.inTurn exact body t scaling).run g = (t + length, g))
    (sound : f.Sound)
    (steps : ∀ g, f.Grows g → g.Sound → ∀ id time scaling,
      Exact g (checked id time scaling) (exact id time scaling)) :
    Exact f (Timing.endingsInTurn checked ends length time scaling)
      (Unrolled.inTurn exact (ends.flatMap fun ending => body ++ [ending]) time scaling) := by
  induction ends generalizing f time with
  | nil => exact .pure f time
  | cons ending ends ih =>
    rw [Timing.endingsInTurn, List.foldlM_cons, List.flatMap_cons, inTurn_append, inTurn_append]
    have front : Exact f (Timing.addScaled time length 1) (Unrolled.inTurn exact body time scaling) := by
      refine .of_run (.addScaled f time length 1) ?_
      rw [bodies f (.refl f) sound time, mul_one]
      rfl
    have pass : Exact f (Timing.addScaled time length 1 >>= fun time => checked ending time scaling)
        (Unrolled.inTurn exact body time scaling >>= fun time =>
          Unrolled.inTurn exact [ending] time scaling) := by
      refine .bind sound front fun time g grown after => ?_
      rw [inTurn_single]
      exact steps g grown after ending time scaling
    refine .bind sound pass fun time g grown after => ?_
    exact ih time (fun h later => bodies h (grown.trans later)) after
      fun h later => steps h (grown.trans later)

theorem allPasses {g : Family} {length : Fraction} (body ends : List ItemId) {count : Int}
    (positive : 0 < count) (time scaling : Fraction) (shifts : ∀ id scaling, Shifts (exact id · scaling))
    (sound : g.Sound)
    (steps : ∀ h, g.Grows h → h.Sound → ∀ id time scaling,
      Exact h (checked id time scaling) (exact id time scaling))
    (takes : Takes (Unrolled.inTurn exact body · scaling) f length g) :
    Unmarked g (Timing.allPasses checked ends count time scaling length)
      ((Unrolled.inTurn exact (passes body ends count.toNat) time scaling).run f) := by
  obtain ⟨n, rfl⟩ : ∃ n : Nat, count = (n + 1 : Nat) := ⟨count.toNat - 1, by omega⟩
  unfold Timing.allPasses passes
  rw [Int.toNat_natCast]
  cases ends.take (n + 1 + 1) with
  | nil =>
    rw [(takes.replicate sound n).now, mul_comm]
    exact (addScaled g time length _).unmarked
  | cons first others =>
    dsimp only
    generalize (first :: others).length = k
    have bodies : ∀ h, g.Grows h → h.Sound → ∀ t,
        (Unrolled.inTurn exact body t scaling).run h = (t + length, h) := takes.later
    -- missing endings are made up for: that many more passes end with the first one
    split
    · rename_i missing
      obtain ⟨m, left⟩ : ∃ m : Nat, n + 1 - k = m + 1 := ⟨n - k, by omega⟩
      have count_eq : ((n + 1 : Nat) : Int) - k = (m + 1 : Nat) := by omega
      rw [bind_assoc, left, count_eq, List.flatMap_append, List.flatMap_replicate]
      refine measured (shifts first scaling) sound
        (fun h grown after t => steps h grown after first t scaling) ?_ ?_
      · intro pass h grown after
        refine .bind after (.addScaled h time pass _) fun time i later sound => ?_
        exact .endingsInTurn sound _ length time scaling fun j last sound id time scaling =>
          (steps j ((grown.trans later).trans last) sound id time scaling).lasts
      · intro extra h grown after ending
        have both : Takes (Unrolled.inTurn exact (body ++ [first]) · scaling) f (length + extra) h := by
          simp only [inTurn_append, inTurn_single]
          exact takes.bind ending grown
        rw [inTurn_append, run_bind, (both.replicate after m).now, mul_comm, Int.cast_natCast]
        refine (bind (l := fun time => Unrolled.inTurn exact
          ((first :: others).flatMap fun ending => body ++ [ending]) time scaling) after
          (addScaled h time (length + extra) (m + 1 : Nat)) fun time i later sound => ?_).unmarked
        exact endings body (first :: others) time scaling
          (fun j last => bodies j ((grown.trans later).trans last)) sound
          fun j last => steps j ((grown.trans later).trans last)
    · have none : n + 1 - k = 0 := by omega
      have start : (Unrolled.inTurn exact ((first :: others).flatMap fun ending => body ++ [ending])
            time scaling).run f =
          (Unrolled.inTurn exact ((first :: others).flatMap fun ending => body ++ [ending])
            time scaling).run g := by
        rw [List.flatMap_cons, List.append_assoc, inTurn_append, run_bind, run_bind, takes.now,
          bodies g (.refl g) sound]
      rw [none, List.replicate_zero, List.nil_append, start]
      exact (endings body (first :: others) time scaling bodies sound steps).unmarked

theorem unfolded (body ends : List ItemId) {count : Int} (positive : 0 < count)
    (time scaling : Fraction) (shifts : ∀ id scaling, Shifts (exact id · scaling)) (sound : f.Sound)
    (steps : ∀ g, f.Grows g → g.Sound → ∀ id time scaling,
      Exact g (checked id time scaling) (exact id time scaling)) :
    Exact f (Timing.unfolded checked body ends count time scaling)
      (Unrolled.inTurn exact (passes body ends count.toNat) time scaling) := by
  have lasts := fun g grown after id time scaling => (steps g grown after id time scaling).lasts
  refine ⟨.unfolded sound body ends count time scaling lasts, ?_⟩
  rw [Timing.unfolded_eq]
  have bodies : ∀ g, f.Grows g → g.Sound → ∀ t, Exact g (Timing.inTurn checked body t scaling)
      (Unrolled.inTurn exact body t scaling) := fun g grown after t =>
    .inTurn after body t scaling fun h later => steps h (grown.trans later)
  refine measured (inTurn_shifts shifts body scaling) sound bodies ?_ ?_
  · intro length g grown after
    exact .allPasses after ends count time scaling length fun h later => lasts h (grown.trans later)
  · intro length g grown after takes
    rw [zero_add]
    exact allPasses body ends positive time scaling shifts after
      (fun h later => steps h (grown.trans later)) takes

theorem split_repeat (t : Tree) (id : ItemId) :
    (Timing.splitRepeat t id).1 ++ (Timing.splitRepeat t id).2.toList = t.children id := by
  unfold Timing.splitRepeat
  dsimp only
  split
  · rename_i last found
    split
    · exact List.dropLast_append_getLast? last found
    · exact List.append_nil _
  · exact List.append_nil _

theorem repetition (unfoldRepeats : Bool) (doc : Document) (id : ItemId) (time scaling : Fraction)
    (shifts : ∀ id scaling, Shifts (exact id · scaling)) (sound : f.Sound)
    (steps : ∀ g, f.Grows g → g.Sound → ∀ id time scaling,
      Exact g (checked id time scaling) (exact id time scaling)) :
    Exact f (Timing.repetition unfoldRepeats checked doc id time scaling)
      (if !unfoldRepeats && doc.repeatStyle? id == some "volta" then
        Unrolled.inTurn exact (doc.tree.children id) time scaling
      else
        Unrolled.inTurn exact (passes (Timing.splitRepeat doc.tree id).1
          (Timing.endings doc.tree (Timing.splitRepeat doc.tree id).2)
          (max 1 (doc.timesPlayed id)).toNat) time scaling) := by
  unfold Timing.repetition
  dsimp only
  split
  · rw [split_repeat]
    exact .inTurn sound _ time scaling steps
  · exact .unfolded _ _ (by omega) time scaling shifts sound steps

theorem expression (unfoldRepeats : Bool) (doc : Document) (id : ItemId) (time scaling : Fraction)
    (shifts : ∀ id scaling, Shifts (exact id · scaling)) (sound : f.Sound)
    (steps : ∀ g, f.Grows g → g.Sound → ∀ id time scaling,
      Exact g (checked id time scaling) (exact id time scaling)) :
    Exact f (Timing.expression unfoldRepeats checked doc id time scaling)
      (Unrolled.expression unfoldRepeats exact doc id time scaling) := by
  unfold Timing.expression
  dsimp only
  split <;> simp only [Unrolled.expression, *]
  · exact .together sound _ time scaling steps
  · exact .together sound _ time scaling steps
  · exact .inTurn sound _ time scaling steps
  · rename_i own _ _
    refine .bind (l := fun own => Unrolled.inTurn exact _ time own) sound (.multiply f scaling own)
      fun own g grown after => ?_
    exact .inTurn after _ time own fun h later => steps h (grown.trans later)
  · exact .inTurn sound _ time 0 steps
  · exact .repetition unfoldRepeats doc id time scaling shifts sound steps
  · exact .inTurn sound _ time scaling steps

theorem get {k : Family → Timing α} {l : Family → Resolving α} (sound : f.Sound)
    (same : ∀ g, f.Grows g → k g = k f) (exact : Exact f (k f) (l f)) :
    Exact f (getThe Family >>= k) (MonadState.get >>= l) where
  lasts := .get sound same exact.lasts
  unmarked := exact.unmarked

theorem walk (unfoldRepeats : Bool) (n references : Nat) (sound : f.Sound) {d : DocumentId}
    (there : d < f.documents.size) (id : ItemId) (time scaling : Fraction) :
    Exact f (Timing.walk unfoldRepeats n references d id time scaling)
      (Unrolled.walk unfoldRepeats n references d id time scaling) := by
  induction n generalizing references f d id time scaling with
  | zero => exact .pure f time
  | succ n ih =>
    refine .get sound (fun g grown => by rw [grown.documents d there]) ?_
    dsimp only
    split
    · cases fits : ((f.document d).tree.item id).durationOrZero.length? with
      | some length =>
        cases (Option.ite_none_right_eq_some.mp fits).2
        exact addScaled f time _ scaling
      | none => exact ⟨.marked f time, fun a g run => by cases run⟩
    · split
      · cases references with
        | zero => exact .pure f time
        | succ references =>
          refine .lift_bind sound (variableValue_lasting sound there id) fun found g _ after inside => ?_
          cases found with
          | none => exact .pure g time
          | some value => exact ih references after (inside value rfl) _ time scaling
      · split
        · refine expression unfoldRepeats _ id time scaling
            (fun id scaling => walk_shifts unfoldRepeats n references d id scaling) sound
            fun g grown after id time scaling => ?_
          exact ih references after (Nat.lt_of_lt_of_le there grown.size) id time scaling
        · exact .pure f time

end Walk

end Exact

end Unrolled

/-- A walk that gives up no sum comes to the same time as the literal walk in unbounded fractions, in
which each pass of a repeat is walked along. It reads the same documents. -/
theorem walk_unrolled {f : Family} (opened : f.Opened) (c : Counting) (d : DocumentId) (id : ItemId)
    (time scaling : Fraction)
    (fits : ((Family.timed (Family.timeAfter c d id time scaling)).run f).1.2 = false) :
    (Unrolled.walk c.unfoldRepeats c.maxNestingDepth c.maxReferenceDepth d id time scaling).run f =
      (((Family.timed (Family.timeAfter c d id time scaling)).run f).1.1,
        ((Family.timed (Family.timeAfter c d id time scaling)).run f).2) := by
  by_cases there : d < f.documents.size
  · exact (Unrolled.Exact.walk c.unfoldRepeats c.maxNestingDepth c.maxReferenceDepth opened.sound there id
      time scaling).unmarked _ _ (Prod.ext (Prod.ext rfl fits) rfl)
  · -- a number that no document has stands for an empty one, which takes no time
    have empty : ((f.document d).tree.item id).kind = .document :=
      Family.kind_of_size_le (Nat.le_of_not_lt there) id
    have still : (Family.timed (Family.timeAfter c d id time scaling)).run f = ((time, false), f) := by
      unfold Family.timed Family.timeAfter
      cases c.maxNestingDepth with
      | zero => rfl
      | succ n =>
        show ((ite .. : Timing Fraction).run false).run f = _
        rw [empty]
        rfl
    rw [still]
    cases c.maxNestingDepth with
    | zero => rfl
    | succ n =>
      show (ite .. : Resolving Fraction).run f = _
      rw [empty]
      rfl

/-- Three passes with two endings: the first ending is played twice. -/
theorem walk_unrolled_endings :
    let f := Family.ofText .standard (.table [])
      "\\repeat unfold 3 \x7b c4 \x7d \\alternative \x7b d2 e1 \x7d" none
    ((Family.timed (Family.timeAfter Options.standard.counting 0 1 0 1)).run f).1 = (11 / 4, false) ∧
      ((Unrolled.walk false 256 256 0 1 0 1).run f).1 = 11 / 4 := by
  intro f
  have length : ((Family.timed (Family.timeAfter Options.standard.counting 0 1 0 1)).run f).1 =
    (11 / 4, false) := by decide +kernel
  refine ⟨length, ?_⟩
  rw [show (Unrolled.walk false 256 256 0 1 0 1).run f = _ from
    walk_unrolled ⟨_, _, _, _, .refl⟩ Options.standard.counting 0 1 0 1 (by rw [length]), length]

end ScoreText
