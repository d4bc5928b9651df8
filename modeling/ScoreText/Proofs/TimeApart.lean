import ScoreText.Proofs.Levels

/-! The time between two positions is the difference of the times at them. What comes before both
positions is walked along once, so both times have to go through the same entries there. -/
namespace ScoreText

namespace Family

/-- In the history of a family a question about a document that was there had an answer. -/
def Answered {α : Type} (g : Family) (d : DocumentId) (act : Resolving α) (a : α) : Prop :=
  ∃ f : Family, f.Opened ∧ d < f.documents.size ∧ (act.run f).1 = a ∧ (act.run f).2.Later g

/-- The one answer to a question: it has that answer now, nothing has to be read for it, and whenever
it was asked before, the answer was the same. -/
structure Settled {α : Type} (g : Family) (d : DocumentId) (act : Resolving α) (a : α) : Prop where
  now : act.run g = (a, g)
  before : ∀ b, Answered g d act b → b = a

section Walks

/-- The walk to the time at a position. -/
def walkTo (f : Family) (d : DocumentId) (levels : List Level) : Timing Fraction := do
  Timing.along (f.walkWithin d) (← Timing.entries 1 levels) 0

/-- The walk to two positions along entries, what is common first. -/
def walkApart (f : Family) (d : DocumentId) (items1 items2 : List (ItemId × Fraction)) :
    Timing (Fraction × Fraction) := do
  let n := Timing.common items1 items2
  let time ← Timing.along (f.walkWithin d) (items1.take n) 0
  let time1 ← Timing.along (f.walkWithin d) (items1.drop n) time
  let time2 ← Timing.along (f.walkWithin d) (items2.drop n) time
  return (time1, time2)

def walkBetween (f : Family) (d : DocumentId) (levels1 levels2 : List Level) :
    Timing (Fraction × Fraction) := do
  let items1 ← Timing.entries 1 levels1
  let items2 ← Timing.entries 1 levels2
  walkApart f d items1 items2

theorem timeAt_run (d : DocumentId) (position : Nat) (f : Family) :
    (timeAt? d position).run f =
      match (f.document d).tree.levels position with
      | [] => (none, f)
      | levels =>
        let out := ((walkTo f d levels).run false).run f
        (if out.1.2 then none else some out.1.1, out.2) := by
  rw [timeAt?, run_get_bind]
  dsimp only
  cases (f.document d).tree.levels position <;> rfl

theorem timeBetween_run (d : DocumentId) (first last : Nat) (f : Family) :
    (timeBetween? d first last).run f =
      match (f.document d).tree.levels first, (f.document d).tree.levels last with
      | top1 :: rest1, top2 :: rest2 =>
        if top1.container ≠ top2.container ∨
            (f.document d).tree.outermostMusic? first ≠ (f.document d).tree.outermostMusic? last then
          (none, f)
        else
          let out := ((walkBetween f d (top1 :: rest1) (top2 :: rest2)).run false).run f
          (if out.1.2 then none else out.1.1.2.sub? out.1.1.1, out.2)
      | _, _ => (none, f) := by
  rw [timeBetween?, run_get_bind]
  dsimp only
  cases (f.document d).tree.levels first with
  | nil => rfl
  | cons top1 rest1 =>
    cases (f.document d).tree.levels last with
    | nil => rfl
    | cons top2 rest2 =>
      dsimp only
      split <;> rfl

end Walks

section Lasting

variable {f g : Family} {d : DocumentId}

theorem Grows.walkWithin (grown : f.Grows g) (d : DocumentId) : g.walkWithin d = f.walkWithin d := by
  funext id time scaling
  rw [Family.walkWithin, grown.options]
  rfl

theorem along_lasts (sound : f.Sound) (there : d < f.documents.size) (w : Family)
    (entries : List (ItemId × Fraction)) (time : Fraction) :
    f.Lasts (Timing.along (w.walkWithin d) entries time) :=
  .foldlM entries sound time fun _ grown after entry _ time =>
    walk_lasts _ _ _ after (Nat.lt_of_lt_of_le there grown.size) entry.1 time entry.2

theorem walkTo_lasts (sound : f.Sound) (there : d < f.documents.size) (w : Family)
    (levels : List Level) : f.Lasts (walkTo w d levels) :=
  .bind sound (Timing.entries_lasts sound levels 1) fun items _ grown after =>
    along_lasts after (Nat.lt_of_lt_of_le there grown.size) w items 0

theorem walkApart_lasts (sound : f.Sound) (there : d < f.documents.size) (w : Family)
    (items1 items2 : List (ItemId × Fraction)) : f.Lasts (walkApart w d items1 items2) := by
  refine .bind sound (along_lasts sound there w _ 0) fun time h grown after => ?_
  have there := Nat.lt_of_lt_of_le there grown.size
  refine .bind after (along_lasts after there w _ time) fun time1 h grown after => ?_
  have there := Nat.lt_of_lt_of_le there grown.size
  exact .bind after (along_lasts after there w _ time) fun time2 h _ _ => .pure h _

theorem walkBetween_lasts (sound : f.Sound) (there : d < f.documents.size) (w : Family)
    (levels1 levels2 : List Level) : f.Lasts (walkBetween w d levels1 levels2) := by
  refine .bind sound (Timing.entries_lasts sound levels1 1) fun items1 g grown after => ?_
  have there := Nat.lt_of_lt_of_le there grown.size
  refine .bind after (Timing.entries_lasts after levels2 1) fun items2 g grown after => ?_
  exact walkApart_lasts after (Nat.lt_of_lt_of_le there grown.size) w items1 items2

theorem timed_lasting {α β : Type} {walk : Timing α} (sound : f.Sound) (lasts : f.Lasts walk)
    (k : α × Bool → β) : Lasting (fun _ _ => True) f (timed walk >>= fun out => pure (k out)) :=
  .bind sound (lasts false) fun _ _ _ _ _ => .pure trivial

theorem timeAt_lasting (sound : f.Sound) (there : d < f.documents.size) (position : Nat) :
    Lasting (fun _ _ => True) f (timeAt? d position) := by
  refine .get sound (fun g grown => by simp only [grown.documents d there, grown.walkWithin]) ?_
  dsimp only
  split
  · exact .pure trivial
  · exact timed_lasting sound (walkTo_lasts sound there f _) fun out =>
      if out.2 then none else some out.1

theorem timeBetween_lasting (sound : f.Sound) (there : d < f.documents.size) (first last : Nat) :
    Lasting (fun _ _ => True) f (timeBetween? d first last) := by
  refine .get sound (fun g grown => by simp only [grown.documents d there, grown.walkWithin]) ?_
  dsimp only
  split
  · split
    · exact .pure trivial
    · exact timed_lasting sound (walkBetween_lasts sound there f _ _)
        fun (out : (Fraction × Fraction) × Bool) => if out.2 then none else out.1.2.sub? out.1.1
  · exact .pure trivial

end Lasting

section Steady

variable {α β : Type} {f g : Family}

/-- From a family on, a walk comes to the same without a mark and reads nothing. -/
def Steady (f : Family) (walk : Timing α) (a : α) : Prop :=
  ∀ g, f.Grows g → (walk.run false).run g = ((a, false), g)

theorem Steady.mono {walk : Timing α} {a : α} (steady : f.Steady walk a) (grown : f.Grows g) :
    g.Steady walk a :=
  fun h later => steady h (grown.trans later)

theorem Steady.bind {x : Timing α} {k : α → Timing β} {a : α} {b : β} (first : f.Steady x a)
    (next : f.Steady (k a) b) : f.Steady (x >>= k) b := by
  intro g grown
  rw [StateT.run_bind, run_bind, first g grown]
  exact next g grown

/-- A walk that lasts and left no mark is steady from then on. -/
theorem Lasts.steady {walk : Timing α} {a : α} (lasts : f.Lasts walk)
    (ran : (walk.run false).run f = ((a, false), g)) : g.Steady walk a := by
  intro h grown
  rw [(lasts false).again h (by rwa [ran]), ran]

/-- A walk that is steady in the end goes through steady parts. -/
theorem bind_steady {x : Timing α} {k : α → Timing β} {b : β} {h : Family} (sound : f.Sound)
    (first : f.Lasts x) (next : ∀ a g, f.Grows g → g.Sound → g.Lasts (k a))
    (ran : ((x >>= k).run false).run f = ((b, false), h)) :
    ∃ a g, g.Steady x a ∧ f.Grows g ∧ g.Sound ∧ ((k a).run false).run g = ((b, false), h) := by
  obtain ⟨a, g, ran, grown, after, later⟩ := Unrolled.Exact.run_bind_unmarked sound first next ran
  exact ⟨a, g, first.steady ran, grown, after, later⟩

end Steady

section Asked

variable {f g : Family} {d : DocumentId}

theorem document_linked (opened : f.Opened) (there : d < f.documents.size) :
    (f.document d).tree.Linked := by
  obtain ⟨text, filename, place, read⟩ := opened.read d there
  rw [read]
  obtain ⟨_, laid⟩ := Document.ofText_laid f.options text filename place
  exact laid.linked

/-- A question that lasts and was answered has that answer from then on. -/
theorem Answered.now {α : Type} {act : Resolving α} {a : α}
    (lasting : ∀ f : Family, f.Sound → d < f.documents.size → Lasting (fun _ _ => True) f act)
    (answered : Answered g d act a) : act.run g = (a, g) := by
  obtain ⟨f, opened, there, same, later⟩ := answered
  have lasts := lasting f opened.sound there
  rw [← same]
  exact lasts.again g (later.kept (lasts.kept opened.sound).2).1

theorem settled_of_now {α : Type} {act : Resolving α} {a : α}
    (lasting : ∀ f : Family, f.Sound → d < f.documents.size → Lasting (fun _ _ => True) f act)
    (now : act.run g = (a, g)) : Settled g d act a :=
  ⟨now, fun _ other => congrArg (·.1) ((other.now lasting).symm.trans now)⟩

theorem timeAt_of_steady {position : Nat} {time : Fraction} (there : d < f.documents.size)
    (grown : f.Grows g) (music : (f.document d).tree.levels position ≠ [])
    (steady : g.Steady (walkTo f d ((f.document d).tree.levels position)) time) :
    (timeAt? d position).run g = (some time, g) := by
  have same : walkTo g d = walkTo f d := by
    funext levels
    rw [walkTo, grown.walkWithin]
    rfl
  rw [timeAt_run, grown.documents d there, same]
  split
  · rename_i none
    exact absurd none music
  · rw [steady g (.refl g)]
    rfl

/-- Walks to both positions are steady after the walk that has gone along what is common once. -/
theorem walkApart_steady (sound : f.Sound) (there : d < f.documents.size) (w : Family)
    {items1 items2 : List (ItemId × Fraction)} {time1 time2 : Fraction}
    (common : items1.take (Timing.common items1 items2) = items2.take (Timing.common items1 items2))
    (ran : ((walkApart w d items1 items2).run false).run f = (((time1, time2), false), g)) :
    g.Steady (Timing.along (w.walkWithin d) items1 0) time1 ∧
      g.Steady (Timing.along (w.walkWithin d) items2 0) time2 := by
  rw [walkApart] at ran
  generalize Timing.common items1 items2 = n at common ran
  have along := fun (g : Family) (grown : f.Grows g) (after : g.Sound) =>
    along_lasts after (Nat.lt_of_lt_of_le there grown.size) w
  obtain ⟨time, g1, steady, grown, after, ran⟩ := bind_steady sound (along f (.refl f) sound _ 0)
    (fun time g grown after => .bind after (along g grown after _ time) fun _ h later sound =>
      .bind sound (along h (grown.trans later) sound _ time) fun _ i _ _ => .pure i _) ran
  obtain ⟨one, g2, steady1, grown1, after1, ran⟩ := bind_steady after (along g1 grown after _ time)
    (fun _ h later sound => .bind sound (along h (grown.trans later) sound _ time) fun _ i _ _ =>
      .pure i _) ran
  obtain ⟨two, g3, steady2, grown2, _, ran⟩ := bind_steady after1
    (along g2 (grown.trans grown1) after1 _ time) (fun _ i _ _ => .pure i _) ran
  cases ran
  have both : ∀ {items : List (ItemId × Fraction)} {stop : Fraction},
      g.Steady (Timing.along (w.walkWithin d) (items.take n) 0) time →
      g.Steady (Timing.along (w.walkWithin d) (items.drop n) time) stop →
      g.Steady (Timing.along (w.walkWithin d) items 0) stop := by
    intro items stop front back
    rw [← List.take_append_drop n items, Timing.along, List.foldlM_append]
    exact front.bind back
  have front := steady.mono (grown1.trans grown2)
  exact ⟨both front (steady1.mono grown2), both (common ▸ front) steady2⟩

theorem timeBetween_inv {first last : Nat} {x : Fraction}
    (asked : ((timeBetween? d first last).run f).1 = some x) :
    ∃ top1 rest1 top2 rest2 time1 time2,
      (f.document d).tree.levels first = top1 :: rest1 ∧
      (f.document d).tree.levels last = top2 :: rest2 ∧ top1.container = top2.container ∧
      x = time2 - time1 ∧
      ((walkBetween f d (top1 :: rest1) (top2 :: rest2)).run false).run f =
        (((time1, time2), false), ((timeBetween? d first last).run f).2) := by
  rw [timeBetween_run] at asked ⊢
  split at asked
  · rename_i top1 rest1 top2 rest2 levels1 levels2
    rw [levels1, levels2]
    dsimp only
    split at asked
    · cases asked
    · rename_i together
      rw [if_neg together]
      obtain ⟨⟨⟨⟨time1, time2⟩, mark⟩, g⟩, ran⟩ :
        ∃ out, ((walkBetween f d (top1 :: rest1) (top2 :: rest2)).run false).run f = out := ⟨_, rfl⟩
      rw [ran] at asked ⊢
      cases mark with
      | true => cases asked
      | false =>
        cases (Option.ite_none_right_eq_some.mp asked).2
        refine ⟨top1, rest1, top2, rest2, time1, time2, rfl, rfl, ?_, rfl, ran⟩
        exact Classical.not_not.mp fun apart => together (.inl apart)
  · cases asked

/-- In both lists of entries an item has the scaling in effect in its parent. -/
theorem entries_agree {t : Tree} (linked : t.Linked) {first last : Nat} {top1 top2 : Level}
    {rest1 rest2 : List Level} (levels1 : t.levels first = top1 :: rest1)
    (levels2 : t.levels last = top2 :: rest2) (same : top1.container = top2.container)
    {f1 g1 f2 g2 : Family} (sound1 : f1.Sound) (sound2 : f2.Sound)
    {items1 items2 : List (ItemId × Fraction)}
    (run1 : ((Timing.entries 1 (top1 :: rest1)).run false).run f1 = ((items1, false), g1))
    (run2 : ((Timing.entries 1 (top2 :: rest2)).run false).run f2 = ((items2, false), g2)) :
    ∀ a ∈ items1, ∀ b ∈ items2, a.1 = b.1 → a = b := by
  have chain : ∀ {position} {top : Level} {rest}, t.levels position = top :: rest →
      t.Chain top.container (top :: rest) ∧ ∃ n, t.Height n top.container := by
    intro position top rest levels
    rcases t.levels_chain linked position with none | ⟨id, n, chain, height⟩
    · cases levels.symm.trans none
    · rw [levels] at chain
      have head : id = top.container := by cases chain <;> rfl
      exact ⟨head ▸ chain, n, head ▸ height⟩
  obtain ⟨chain1, n, height⟩ := chain levels1
  have chain2 := (chain levels2).1
  rw [← same] at chain2
  have start : t.Scales top1.container top1.container (1 * t.ownScaling top1.container) := by
    rw [one_mul]
    exact .top
  intro a in1 b in2 item
  obtain ⟨p, above, scales1⟩ := Timing.entries_scales sound1 chain1 start run1 a in1
  obtain ⟨q, above', scales2⟩ := Timing.entries_scales sound2 chain2 start run2 b in2
  rw [item] at above
  cases above.symm.trans above'
  exact Prod.ext item (scales1.unique height scales2)

theorem timeBetween_walked (opened : f.Opened) (there : d < f.documents.size) {first last : Nat}
    {x : Fraction} (asked : ((timeBetween? d first last).run f).1 = some x) :
    ∃ time1 time2, x = time2 - time1 ∧
      ∀ g, ((timeBetween? d first last).run f).2.Grows g →
        (timeAt? d first).run g = (some time1, g) ∧ (timeAt? d last).run g = (some time2, g) := by
  have sound := opened.sound
  obtain ⟨top1, rest1, top2, rest2, time1, time2, levels1, levels2, same, difference, ran⟩ :=
    timeBetween_inv asked
  have grown := ((timeBetween_lasting sound there first last).kept sound).1
  generalize ((timeBetween? d first last).run f).2 = after at ran grown
  have apart := fun (g : Family) (grown : f.Grows g) (after : g.Sound) =>
    walkApart_lasts after (Nat.lt_of_lt_of_le there grown.size) f
  -- the entries of the first position, those of the second, and the walk apart are asked for one after the
  -- other
  obtain ⟨items1, g1, steady1, grown1, sound1, ran⟩ := bind_steady sound (Timing.entries_lasts sound _ 1)
    (fun items1 g grown after => .bind after (Timing.entries_lasts after _ 1) fun items2 h later sound =>
      apart h (grown.trans later) sound items1 items2) ran
  obtain ⟨items2, g2, steady2, grown2, sound2, ran⟩ := bind_steady sound1 (Timing.entries_lasts sound1 _ 1)
    (fun items2 g grown after => apart g (grown1.trans grown) after items1 items2) ran
  have agree := entries_agree (document_linked opened there) levels1 levels2 same sound1 sound2
    (steady1 g1 (.refl g1)) (steady2 g2 (.refl g2))
  have there2 := Nat.lt_of_lt_of_le there (grown1.trans grown2).size
  have grown3 : g2.Grows after := by
    have kept := ((apart g2 (grown1.trans grown2) sound2 items1 items2 false).kept sound2).1
    rwa [ran] at kept
  obtain ⟨along1, along2⟩ := walkApart_steady sound2 there2 f (Timing.take_common agree) ran
  have to1 : after.Steady (walkTo f d (top1 :: rest1)) time1 :=
    (steady1.mono (grown2.trans grown3)).bind along1
  have to2 : after.Steady (walkTo f d (top2 :: rest2)) time2 := (steady2.mono grown3).bind along2
  refine ⟨time1, time2, difference, fun g later => ⟨?_, ?_⟩⟩
  · refine timeAt_of_steady there (grown.trans later) (by simp [levels1]) ?_
    rw [levels1]
    exact to1.mono later
  · refine timeAt_of_steady there (grown.trans later) (by simp [levels2]) ?_
    rw [levels2]
    exact to2.mono later

end Asked

end Family

/-- The time between two positions is the time at the later one without the time at the earlier one,
in whichever order they are given, and it does not matter which question was asked first. Times between
positions that follow each other add up. -/
theorem timeApart_eq_sub (d : DocumentId) :
    (∀ (g : Family) (a b : Nat) (x : Fraction), g.Answered d (Family.timeApart? d a b) (some x) →
      ∃ first last, g.Settled d (Family.timeAt? d (min a b)) (some first) ∧
        g.Settled d (Family.timeAt? d (max a b)) (some last) ∧ x = last - first) ∧
    (∀ a b, Family.timeApart? d a b = Family.timeApart? d b a) ∧
    ∀ (g : Family) (a b c : Nat) (x y z : Fraction), a ≤ b → b ≤ c →
      g.Answered d (Family.timeApart? d a b) (some x) →
      g.Answered d (Family.timeApart? d b c) (some y) →
      g.Answered d (Family.timeApart? d a c) (some z) → z = x + y := by
  have apart : ∀ (g : Family) (a b : Nat) (x : Fraction),
      g.Answered d (Family.timeApart? d a b) (some x) →
      ∃ first last, g.Settled d (Family.timeAt? d (min a b)) (some first) ∧
        g.Settled d (Family.timeAt? d (max a b)) (some last) ∧ x = last - first := by
    rintro g a b x ⟨f, opened, there, asked, later⟩
    obtain ⟨first, last, difference, walked⟩ := Family.timeBetween_walked opened there asked
    have after := (Family.timeBetween_lasting opened.sound there (min a b) (max a b)).kept opened.sound
    obtain ⟨at_first, at_last⟩ := walked g (later.kept after.2).1
    exact ⟨first, last,
      Family.settled_of_now (fun _ sound there => Family.timeAt_lasting sound there _) at_first,
      Family.settled_of_now (fun _ sound there => Family.timeAt_lasting sound there _) at_last, difference⟩
  refine ⟨apart, fun a b => ?_, ?_⟩
  · rw [Family.timeApart?, Family.timeApart?, min_comm, max_comm]
  · intro g a b c x y z ab bc answered1 answered2 answered3
    obtain ⟨ta, tb, at_a, at_b, rfl⟩ := apart g a b x answered1
    obtain ⟨tb', tc, at_b', at_c, rfl⟩ := apart g b c y answered2
    obtain ⟨ta', tc', at_a', at_c', rfl⟩ := apart g a c z answered3
    rw [min_eq_left ab] at at_a
    rw [max_eq_right ab] at at_b
    rw [min_eq_left bc] at at_b'
    rw [max_eq_right bc] at at_c
    rw [min_eq_left (ab.trans bc)] at at_a'
    rw [max_eq_right (ab.trans bc)] at at_c'
    -- a position has one time now, so the three differences share their ends
    cases at_a.now.symm.trans at_a'.now
    cases at_b.now.symm.trans at_b'.now
    cases at_c.now.symm.trans at_c'.now
    ring

/-- A quarter note and a triplet. The time from the start to its second note was asked for first, then
the time from there to its last note, then the time from the start to the last note. -/
theorem timeApart_eq_sub_triplet :
    let f := Family.ofText .standard (.table []) "\x7b c4 \\tuplet 3/2 \x7b d8 e f \x7d \x7d" none
    ∃ g : Family, f.Later g ∧ g.Answered 0 (Family.timeApart? 0 22 2) (some (1 / 3)) ∧
      g.Answered 0 (Family.timeApart? 0 22 24) (some (1 / 12)) ∧
      g.Answered 0 (Family.timeApart? 0 2 24) (some (5 / 12)) ∧
      (∃ first last, g.Settled 0 (Family.timeAt? 0 2) (some first) ∧
        g.Settled 0 (Family.timeAt? 0 22) (some last) ∧ (1 / 3 : Fraction) = last - first) ∧
      (5 / 12 : Fraction) = 1 / 3 + 1 / 12 := by
  intro f
  have opened : f.Opened := ⟨_, _, _, _, .refl⟩
  have later : ∀ {h : Family} (a b : Nat), h.Opened → 0 < h.documents.size →
      h.Later ((Family.timeApart? 0 a b).run h).2 := fun a b opened there =>
    (Family.timeBetween_lasting opened.sound there (min a b) (max a b)).later
  have larger : ∀ {h i : Family}, h.Opened → h.Later i → 0 < h.documents.size → 0 < i.documents.size :=
    fun opened later there => Nat.lt_of_lt_of_le there (later.kept opened.sound).1.size
  have there : 0 < f.documents.size := Nat.zero_lt_one
  have later1 := later 22 2 opened there
  have opened1 := opened.later later1
  have there1 := larger opened later1 there
  have later2 := later 22 24 opened1 there1
  have opened2 := opened1.later later2
  have there2 := larger opened1 later2 there1
  have later3 := later 2 24 opened2 there2
  obtain ⟨asked1, asked2, asked3⟩ : ((Family.timeApart? 0 22 2).run f).1 = some (1 / 3) ∧
      ((Family.timeApart? 0 22 24).run ((Family.timeApart? 0 22 2).run f).2).1 = some (1 / 12) ∧
      ((Family.timeApart? 0 2 24).run
        ((Family.timeApart? 0 22 24).run ((Family.timeApart? 0 22 2).run f).2).2).1 = some (5 / 12) := by
    decide +kernel
  have answered1 := (⟨f, opened, there, asked1, later2.trans later3⟩ :
    Family.Answered _ 0 (Family.timeApart? 0 22 2) (some (1 / 3)))
  have answered2 := (⟨_, opened1, there1, asked2, later3⟩ :
    Family.Answered _ 0 (Family.timeApart? 0 22 24) (some (1 / 12)))
  have answered3 := (⟨_, opened2, there2, asked3, .refl⟩ :
    Family.Answered _ 0 (Family.timeApart? 0 2 24) (some (5 / 12)))
  have swapped := (timeApart_eq_sub 0).2.1 22 2
  exact ⟨_, (later1.trans later2).trans later3, answered1, answered2, answered3,
    (timeApart_eq_sub 0).1 _ 22 2 _ answered1,
    (timeApart_eq_sub 0).2.2 _ 2 22 24 _ _ _ (by decide) (by decide) (swapped ▸ answered1) answered2
      answered3⟩

end ScoreText
