import ScoreText.Music.Reading.Value
import ScoreText.Proofs.Ahead

/-! Headway. What is read behind a token leaves that token in use: a token is given back only if it was
taken behind it. So each turn of a loop that is not the last one has one more token in use than the turn
before, and no loop is given up. -/
namespace ScoreText

namespace Reader

variable {c d : Nat} {r r' r'' : Reader}

/-- From a reader that has at least `c` tokens in use to a later one, which has `spare` more. The first
`c` tokens are not given back, and no loop is given up. -/
structure Onward (c spare : Nat) (r r' : Reader) : Prop where
  tokens : r'.tokens = r.tokens
  used : c + spare ≤ r'.used
  givenBack : ∃ back, r'.course.givenBack = back ++ r.course.givenBack ∧ ∀ k ∈ back, c ≤ k
  stalled : r'.course.stalled = r.course.stalled
  behind : (r.pushed = true → 0 < r.index) → r'.pushed = true → 0 < r'.index
  free : r.source = .free → r'.source = .free

theorem Onward.trans {spare : Nat} (first : Onward c spare r r') (later : Onward c d r' r'') :
    Onward c d r r'' where
  tokens := later.tokens.trans first.tokens
  used := later.used
  givenBack := by
    obtain ⟨back, same, low⟩ := first.givenBack
    obtain ⟨more, again, deep⟩ := later.givenBack
    refine ⟨more ++ back, by rw [again, same, List.append_assoc], fun k member => ?_⟩
    exact (List.mem_append.mp member).elim (deep k) (low k)
  stalled := later.stalled.trans first.stalled
  behind known := later.behind (first.behind known)
  free known := later.free (first.free known)

/-- Tokens that stay in use are as good as tokens to spare. -/
theorem Onward.below {m spare : Nat} (onward : Onward m spare r r') (low : c ≤ m)
    (le : c + d ≤ m + spare) : Onward c d r r' where
  tokens := onward.tokens
  used := Nat.le_trans le onward.used
  givenBack := by
    obtain ⟨back, same, deep⟩ := onward.givenBack
    exact ⟨back, same, fun k member => Nat.le_trans low (deep k member)⟩
  stalled := onward.stalled
  behind := onward.behind
  free := onward.free

/-- A reader that may take all tokens that remain. -/
structure AtLarge (r : Reader) : Prop where
  free : r.source = .free
  behind : r.pushed = true → 0 < r.index

theorem AtLarge.onward {spare : Nat} (large : r.AtLarge) (onward : Onward c spare r r') : r'.AtLarge :=
  ⟨onward.free large.free, onward.behind large.behind⟩

/-- Only the tree and what is set aside from it may change. -/
structure Rests (r r' : Reader) : Prop where
  tokens : r'.tokens = r.tokens
  index : r'.index = r.index
  pushed : r'.pushed = r.pushed
  source : r'.source = r.source
  course : r'.course = r.course

theorem Rests.onward (rests : Rests r r') (le : c + d ≤ r.used) : Onward c d r r' where
  tokens := rests.tokens
  used := by rwa [used, rests.index, rests.pushed]
  givenBack := ⟨[], by rw [rests.course]; rfl, fun _ => nofun⟩
  stalled := by rw [rests.course]
  behind known := by rwa [rests.pushed, rests.index]
  free known := rests.source.trans known

theorem size_le (r : Reader) : r.tokens.size ≤ r.used + r.left := by
  have inside := r.inside
  unfold used left
  split <;> omega

/-- One more token in use is one less to come. -/
theorem left_lt_of_used (same : r'.tokens = r.tokens) (more : r.used < r'.used) : r'.left < r.left := by
  have inside := r'.inside
  have before := r.inside
  rw [same] at inside
  unfold used at more
  unfold left
  rw [same]
  split at more <;> split at more <;> simp_all <;> omega

/-- A reader that has taken some tokens, and none of them is given back. -/
structure Pulls (taken : Nat) (r r' : Reader) : Prop where
  tokens : r'.tokens = r.tokens
  used : r'.used = r.used + taken
  pushed : r'.pushed = false
  source : r'.source = r.source
  course : r'.course = r.course

theorem pull_none (run : r.pull = (none, r')) :
    Pulls 0 r r' ∧ ((r.pushed = true → 0 < r.index) → r.tokens.size ≤ r'.index) := by
  unfold pull at run
  split at run
  · rename_i pushed
    obtain ⟨found, rfl⟩ := Prod.mk.inj run
    have start : r.index = 0 := by
      unfold current? at found
      split at found
      · assumption
      · cases found
    exact ⟨⟨rfl, by simp [used, start], rfl, rfl, rfl⟩, fun behind => by have := behind pushed; omega⟩
  · rename_i kept
    have unpushed : r.pushed = false := by simpa using kept
    split at run
    · cases run
    · rename_i spent
      obtain ⟨-, rfl⟩ := Prod.mk.inj run
      exact ⟨⟨rfl, rfl, unpushed, rfl, rfl⟩, fun _ => Nat.not_lt.mp spent⟩

theorem pull_some {t : Token} (run : r.pull = (some t, r')) : Pulls 1 r r' := by
  unfold pull at run
  split at run
  · rename_i pushed
    obtain ⟨found, rfl⟩ := Prod.mk.inj run
    have behind : r.index ≠ 0 := by
      intro start
      simp [current?, start] at found
    exact ⟨rfl, by simp [used, pushed]; omega, rfl, rfl, rfl⟩
  · rename_i kept
    have unpushed : r.pushed = false := by simpa using kept
    split at run
    · obtain ⟨-, rfl⟩ := Prod.mk.inj run
      exact ⟨rfl, by simp [used, unpushed], unpushed, rfl, rfl⟩
    · cases run

theorem Pulls.onward {taken : Nat} (pulls : Pulls taken r r') (le : c + d ≤ r.used) (source : Source)
    (free : r.source = .free → source = .free) : Onward c (d + taken) r { r' with source } where
  tokens := pulls.tokens
  used := by
    show c + (d + taken) ≤ r'.used
    rw [pulls.used]
    omega
  givenBack := ⟨[], by rw [pulls.course]; rfl, fun _ => nofun⟩
  stalled := by rw [pulls.course]
  behind _ back := by simp [pulls.pushed] at back
  free := free

/-- How many tokens are to spare once something was looked for that takes at least one token. -/
def afford {α : Type} (spare : Nat) : Option α → Nat
  | none => spare
  | some _ => spare + 1

theorem next_onward (r : Reader) (le : c + d ≤ r.used) : Onward c (afford d r.next.1) r r.next.2 := by
  have rests : ∀ source, (r.source = .free → source = .free) → Onward c d r { r with source } :=
    fun source free => ⟨rfl, le, ⟨[], rfl, fun _ => nofun⟩, rfl, fun known => known, free⟩
  unfold next
  split
  · rename_i free
    cases run : r.pull with
    | mk found r' => cases found with
      | none => exact (pull_none run).1.onward le r'.source fun same => (pull_none run).1.source.trans same
      | some t => exact (pull_some run).onward le r'.source fun same => (pull_some run).source.trans same
  · rename_i b bounded
    have never : ∀ {source : Source}, r.source = .free → source = .free := fun free => by
      rw [bounded] at free
      cases free
    split
    · exact rests r.source fun same => same
    · split
      · exact rests _ never
      · cases run : r.pull with
        | mk found r' => cases found with
          | none => exact (pull_none run).1.onward le _ never
          | some t => exact (pull_some run).onward le _ never

theorem giveBack_onward (le : c + (d + 1) ≤ r.used) : Onward c d r r.giveBack := by
  have deep : c + d + 1 ≤ r.index := Nat.le_trans le r.used_le
  refine ⟨rfl, ?_, ⟨[r.index - 1], rfl, fun k member => ?_⟩, rfl, fun _ _ => ?_, fun free => free⟩
  · show c + d ≤ r.index - 1
    omega
  · obtain rfl := List.mem_singleton.mp member
    omega
  · show 0 < r.index
    omega

end Reader

/-- How many tokens more are in use behind a turn that is not the last one. -/
def Turn.spare {α : Type} : Turn α → Nat
  | done _ => 0
  | more _ => 1

namespace Reading

open Reader

variable {α β : Type} {n d : Nat} {x : Reading α}

/-- Behind a reader that can give back `d` tokens, and that has at most `n` tokens behind those it
cannot give back, something is read. What it returns tells how many tokens can be given back then. -/
def Headway (n d : Nat) (x : Reading α) (spare : α → Nat) : Prop :=
  ∀ c r, c + d ≤ r.used → r.tokens.size ≤ c + n →
    Onward c (spare (x.run r).1) r (x.run r).2

/-- No token that was taken before is given back. -/
def Firm (x : Reading α) : Prop :=
  ∀ n, Headway n 0 x fun _ => 0

namespace Headway

variable {spare : α → Nat}

/-- What leaves all tokens in use leaves those in use that could be given back. There are as many fewer
tokens behind them. -/
theorem shift (headway : d ≤ n → Headway (n - d) 0 x spare) : Headway n d x fun a => d + spare a := by
  intro c r le few
  have inside := r.used_le_size
  exact (headway (by omega) (c + d) r le (by omega)).below (Nat.le_add_right c d)
    (Nat.le_of_eq (Nat.add_assoc c d _).symm)

theorem pure {a : α} (le : spare a ≤ d) : Headway n d (pure a) spare :=
  fun _ _ le' _ => Rests.onward ⟨rfl, rfl, rfl, rfl, rfl⟩ (Nat.le_trans (Nat.add_le_add_left le _) le')

theorem bind {k : α → Reading β} {after : β → Nat} (first : Headway n d x spare)
    (then_ : ∀ a, Headway n (spare a) (k a) after) : Headway n d (x >>= k) after := by
  intro c r le few
  have first := first c r le few
  exact first.trans (then_ _ c _ first.used (first.tokens ▸ few))

theorem next : Headway n d Reading.next (afford d) :=
  fun _ r le _ => next_onward r le

theorem pushBack : Headway n (d + 1) Reading.pushBack fun _ => d := by
  intro c r le _
  have behind : r.index > 0 := by
    have := r.used_le
    omega
  rw [run_pushBack, if_pos behind]
  exact giveBack_onward le

/-- What can be given back behind a turn depends on what the loop has come to. -/
theorem loop_from {step : α → Reading (Turn α)} {e : α → Nat} {a : α}
    (steps : ∀ a, Headway n (e a) (step a) fun
      | .done b => e b
      | .more b => max (e a + 1) (e b)) : Headway n (e a) (loop step a) e := by
  intro c r le few
  rw [run_loop]
  induction a, r using repeated.induct step with
  | case1 a r b after done =>
    have turn := steps a c r le few
    rw [done] at turn
    rw [repeated, done]
    exact turn
  | case2 a r b after ran fewer ih =>
    have turn := steps a c r le few
    rw [ran] at turn
    rw [repeated, ran]
    simp only [fewer, if_true]
    have used : c + max (e a + 1) (e b) ≤ after.used := turn.used
    exact turn.trans (ih (by omega) (turn.tokens ▸ few))
  | case3 a r b after ran fewer =>
    -- from the place where the turn began it has gone on
    have turn := steps a (r.used - e a) r (by omega) (by omega)
    rw [ran] at turn
    have used : r.used - e a + max (e a + 1) (e b) ≤ after.used := turn.used
    have more : r.used < after.used := by omega
    exact absurd (left_lt_of_used turn.tokens more) fewer

theorem mono {spare fewer : α → Nat} (headway : Headway n d x spare) (le : ∀ a, fewer a ≤ spare a) :
    Headway n d x fewer := by
  intro c r le' few
  have onward := headway c r le' few
  exact { onward with used := Nat.le_trans (Nat.add_le_add_left (le _) c) onward.used }

theorem loop {step : α → Reading (Turn α)} {a : α} (steps : ∀ a, Headway n 0 (step a) Turn.spare) :
    Headway n 0 (Reading.loop step a) fun _ => 0 :=
  loop_from fun a => (steps a).mono fun turn => by cases turn <;> simp [Turn.spare]

theorem get {k : Reader → Reading β} {after : β → Nat} (then_ : ∀ r, Headway n d (k r) after) :
    Headway n d (MonadState.get >>= k) after :=
  fun c r => then_ r c r

theorem tree {k : Tree → Reading β} {after : β → Nat} (then_ : ∀ t, Headway n d (k t) after) :
    Headway n d (Reading.tree >>= k) after :=
  fun c r => then_ r.tree c r

theorem firm {k : α → Reading β} {after : β → Nat} (firm : Firm x)
    (then_ : ∀ a, Headway n d (k a) after) : Headway n d (x >>= k) after :=
  bind (shift fun _ => firm _) then_

theorem within {spare : α → Nat} {source : Source} (headway : Headway n d x spare) :
    Headway n d (within source x) spare := by
  intro c r le few
  obtain ⟨tokens, used, givenBack, stalled, behind, _⟩ := headway c { r with source } le few
  exact ⟨tokens, used, givenBack, stalled, behind, fun free => free⟩

theorem free {spare : α → Nat} (headway : Headway n d x spare) : Headway n d (free x) spare :=
  within headway

theorem bounded {spare : α → Nat} (headway : Headway n d x spare) :
    Headway n d (bounded x) fun out => spare out.1 := by
  refine get fun r => within (bind headway fun a => get fun r => ?_)
  split
  · exact pure (Nat.le_refl _)
  · exact pure (Nat.le_refl _)

end Headway

theorem nextItem_headway : Headway n d nextItem (afford d) := by
  have fresh : ∀ m, Headway m 0 nextItem (afford 0) := fun m =>
    .loop_from (e := afford 0) (a := none) fun found => .bind .next fun next => by
      cases next with
      | none => exact .pure (Nat.zero_le _)
      | some t =>
        dsimp only
        split <;> exact .pure (by simp [afford])
  refine Headway.mono (.shift fun _ => fresh _) fun found => ?_
  cases found <;> exact Nat.le_refl _

section End

/-- A loop as it goes on by itself, however many turns it takes. -/
inductive Repeats (step : α → Reading (Turn α)) : α → Reader → α → Reader → Prop
  | done {a b : α} {r r' : Reader} : (step a).run r = (.done b, r') → Repeats step a r b r'
  | more {a b c : α} {r r' r'' : Reader} : (step a).run r = (.more b, r') → Repeats step b r' c r'' →
      Repeats step a r c r''

/-- A loop that is not given up goes on until it is done. -/
theorem repeats_of_unstalled {step : α → Reading (Turn α)} {a : α} {r : Reader}
    (unstalled : ((loop step a).run r).2.course.stalled = false) :
    Repeats step a r ((loop step a).run r).1 ((loop step a).run r).2 := by
  rw [run_loop] at unstalled ⊢
  induction a, r using repeated.induct step with
  | case1 a r b after done =>
    rw [repeated, done]
    exact .done done
  | case2 a r b after ran fewer ih =>
    rw [repeated, ran] at unstalled ⊢
    simp only [fewer, if_true] at unstalled ⊢
    exact .more ran (ih unstalled)
  | case3 a r b after ran fewer =>
    rw [repeated, ran] at unstalled
    simp [fewer, stall] at unstalled

theorem Repeats.ends {step : α → Reading (Turn α)} {P : Reader → Prop} {Q : α → Reader → Prop} {a b : α}
    {r r' : Reader} (repeats : Repeats step a r b r') (start : P r)
    (keeps : ∀ a r b r', P r → (step a).run r = (.more b, r') → P r')
    (last : ∀ a r b r', P r → (step a).run r = (.done b, r') → Q b r') : Q b r' := by
  induction repeats with
  | done run => exact last _ _ _ _ start run
  | more run _ ih => exact ih (keeps _ _ _ _ start run)

/-- Nothing comes of a free source only when all tokens are in use. -/
theorem next_spent_used {r r' : Reader} (large : r.AtLarge) (run : Reading.next.run r = (none, r')) :
    r'.tokens.size ≤ r'.used := by
  have run : r.next = (none, r') := run
  simp only [Reader.next, large.free] at run
  obtain ⟨pulls, spent⟩ := pull_none run
  have spent := spent large.behind
  simpa [Reader.used, pulls.pushed, pulls.tokens] using spent

/-- No source is shut by what is read in between. -/
theorem Headway.large {spare : α → Nat} (headway : ∀ n, Headway n 0 x spare) {r : Reader} (large : r.AtLarge) :
    (x.run r).2.AtLarge :=
  large.onward (headway r.tokens.size 0 r (Nat.zero_le _) (Nat.le_add_left ..))

theorem nextItem_spent_used {r r' : Reader} (large : r.AtLarge) (run : nextItem.run r = (none, r'))
    (unstalled : r'.course.stalled = false) : r'.tokens.size ≤ r'.used := by
  have repeats := repeats_of_unstalled (a := none) (show (nextItem.run r).2.course.stalled = false by rwa [run])
  suffices ended : (nextItem.run r).1 = none → (nextItem.run r).2.tokens.size ≤ (nextItem.run r).2.used by
    rw [run] at ended
    exact ended rfl
  refine repeats.ends (P := AtLarge) (Q := fun found r' => found = none → r'.tokens.size ≤ r'.used) large ?_ ?_
  all_goals
    intro _ r b r' large ran
    have after : (Reading.next.run r).2.AtLarge := Headway.large (fun _ => .next) large
    cases next : Reading.next.run r with
    | mk found r1 => ?_
    simp only [run_bind, next] at ran after
  · cases found with
    | none => cases ran
    | some t =>
      dsimp only at ran
      split at ran <;> cases ran
      exact after
  · cases found with
    | none =>
      cases ran
      exact fun _ => next_spent_used large next
    | some t =>
      dsimp only at ran
      split at ran <;> cases ran
      exact nofun

end End

section Firm

variable {deeper : Deeper}

theorem Firm.headway (firm : Firm x) : Headway n d x fun _ => d :=
  .shift fun _ => firm _

theorem Firm.rest (rests : ∀ r, Rests r (x.run r).2) : Firm x :=
  fun _ _ r le _ => (rests r).onward le

theorem Firm.free (firm : Firm x) : Firm (Reading.free x) :=
  fun n => .free (firm n)

theorem Firm.bounded (firm : Firm x) : Firm (Reading.bounded x) :=
  fun n => .bounded (firm n)

theorem Firm.wrapped (firm : Firm x) : Firm (do return some (← x)) :=
  fun _ => .firm firm fun _ => .pure (Nat.zero_le _)

theorem updateTree_firm {f : Tree → Tree} : Firm (updateTree f) :=
  .rest fun _ => ⟨rfl, rfl, rfl, rfl, rfl⟩

theorem add_firm {kind : ItemKind} {position : Nat} {token : Option Token} : Firm (add kind position token) :=
  .rest fun _ => ⟨rfl, rfl, rfl, rfl, rfl⟩

theorem appendIf_firm {id : ItemId} {child : Option ItemId} : Firm (appendIf id child) := by
  cases child with
  | none => exact fun _ => .pure (Nat.zero_le _)
  | some c =>
    show Firm (append id c)
    exact updateTree_firm

theorem appendAll_firm {id : ItemId} {children : List ItemId} : Firm (appendAll id children) := by
  induction children with
  | nil => exact fun _ => .pure (Nat.zero_le _)
  | cons c children ih =>
    intro n
    show Headway n 0 (append id c >>= fun _ => appendAll id children) _
    exact .firm updateTree_firm fun _ => ih n

variable (deep : ∀ form t, Firm (deeper form t))
include deep

theorem readAll_firm : Firm (readAll deeper) := fun _ => by
  refine .bind (.loop fun ids => .bind nextItem_headway fun found => ?_) fun _ => .pure (Nat.zero_le _)
  cases found with
  | none => exact .pure (Nat.zero_le _)
  | some t => exact .firm (deep .item t) fun _ => .pure (Nat.le_refl _)

theorem readAll_used {r : Reader} (large : r.AtLarge)
    (unstalled : ((readAll deeper).run r).2.course.stalled = false) :
    ((readAll deeper).run r).2.tokens.size ≤ ((readAll deeper).run r).2.used := by
  refine (repeats_of_unstalled (a := []) unstalled).ends (P := AtLarge)
    (Q := fun _ r' => r'.course.stalled = false → r'.tokens.size ≤ r'.used) large ?_ ?_ unstalled
  all_goals
    intro ids r b r' large ran
    have after : (nextItem.run r).2.AtLarge := Headway.large (fun _ => nextItem_headway) large
    cases next : nextItem.run r with
    | mk found r1 => ?_
    simp only [run_bind, next] at ran after
  · cases found with
    | none => cases ran
    | some t =>
      cases ran
      exact Headway.large (deep .item t) after
  · cases found with
    | none =>
      cases ran
      exact nextItem_spent_used large next
    | some t => cases ran

theorem readOne_headway : Headway n 0 (readOne deeper) (afford 0) :=
  .loop_from (e := afford 0) (a := none) fun found => .bind nextItem_headway fun next => by
    cases next with
    | none => exact .pure (Nat.zero_le _)
    | some t =>
      refine .firm (deep .item t) fun child => ?_
      cases child with
      | none => exact .pure (by simp [afford])
      | some id => exact .pure (by simp [afford])

theorem readOne_firm : Firm (readOne deeper) := fun _ =>
  (readOne_headway deep).mono fun _ => Nat.zero_le _

theorem readRegionInto_firm (id : ItemId) : Firm (readRegionInto deeper id) := fun _ =>
  .firm (.bounded (readAll_firm deep)) fun _ => .firm appendAll_firm fun _ => updateTree_firm _

theorem readArgumentsInto_firm (id : ItemId) (count : Nat) :
    Firm (readArgumentsInto deeper id count) := by
  induction count with
  | zero => exact fun _ => .pure (Nat.zero_le _)
  | succ count ih =>
    refine fun _ => .firm (readOne_firm deep) fun found => ?_
    cases found with
    | none => exact .pure (Nat.zero_le _)
    | some child => exact .firm updateTree_firm fun _ => ih _

theorem readPart_firm : Firm (readPart deeper) := fun _ => .loop fun _ => .bind .next fun found => by
  cases found with
  | none => exact .pure (Nat.zero_le _)
  | some t =>
    refine .firm (deep .scheme t) fun child => ?_
    cases child with
    | none => exact .pure (Nat.le_refl _)
    | some id => exact .pure (Nat.zero_le _)

theorem readPartsInto_firm (id : ItemId) : Firm (readPartsInto deeper id) := fun _ =>
  .loop fun _ => .bind .next fun found => by
    cases found with
    | none => exact .pure (Nat.zero_le _)
    | some t => exact .firm (deep .scheme t) fun _ => .firm appendIf_firm fun _ => .pure (Nat.le_refl _)

theorem readQuoting_firm (kind : ItemKind) (t : Token) : Firm (readQuoting deeper kind t) := fun _ =>
  .firm add_firm fun _ => .firm (.bounded (readPart_firm deep)) fun _ => .firm appendIf_firm fun _ =>
    .pure (Nat.zero_le _)

omit deep in
theorem readString_firm (t : Token) : Firm (readString t) := fun _ => by
  refine .firm add_firm fun id => .bind (.bounded (.loop fun ts => .bind .next fun found => ?_)) fun _ =>
    .firm updateTree_firm fun _ => .pure (Nat.zero_le _)
  cases found with
  | none => exact .pure (Nat.zero_le _)
  | some t => exact .pure (Nat.le_refl _)

theorem readSchemePart_firm (t : Token) : Firm (readSchemePart deeper t) := fun _ => by
  unfold readSchemePart
  split
  · exact .firm (readQuoting_firm deep _ t) fun _ => .pure (Nat.zero_le _)
  · exact .firm add_firm fun id => .firm (.bounded (readPartsInto_firm deep id)) fun _ =>
      .firm updateTree_firm fun _ => .pure (Nat.zero_le _)
  · exact .firm add_firm fun id => .firm (.bounded (readPartsInto_firm deep id)) fun _ =>
      .firm updateTree_firm fun _ => .pure (Nat.zero_le _)
  · exact .firm (readString_firm t) fun _ => .pure (Nat.zero_le _)
  · exact .firm add_firm fun id => .firm (readRegionInto_firm deep id) fun _ => .pure (Nat.zero_le _)
  · split
    · exact .firm add_firm fun _ => .pure (Nat.zero_le _)
    · exact .pure (Nat.zero_le _)
  · exact .pure (Nat.zero_le _)

theorem readMarkupsInto_firm (id : ItemId) (list : Bool) : Firm (readMarkupsInto deeper id list) := fun _ => by
  refine .bind (.bounded (.loop fun _ => .bind .next fun found => ?_)) fun _ => .pure (Nat.zero_le _)
  cases found with
  | none => exact .pure (Nat.zero_le _)
  | some t =>
    refine .firm (deep .markup t) fun child => ?_
    cases child with
    | some child => exact .firm updateTree_firm fun _ => .pure (Nat.le_refl _)
    | none =>
      dsimp only
      split
      · exact .firm updateTree_firm fun _ => .pure (Nat.le_refl _)
      · exact .pure (Nat.le_refl _)

theorem readMarkupScore_firm (t : Token) : Firm (readMarkupScore deeper t) := fun _ => by
  refine .firm add_firm fun id => .bind (.bounded (.loop fun _ => .bind .next fun found => ?_)) fun _ =>
    .pure (Nat.zero_le _)
  cases found with
  | none => exact .pure (Nat.zero_le _)
  | some t =>
    dsimp only
    split
    · exact .firm updateTree_firm fun _ => .firm (readRegionInto_firm deep id) fun _ => .pure (Nat.zero_le _)
    · exact .pure (Nat.le_refl _)

theorem readMarkup_firm (t : Token) : Firm (readMarkup deeper t) := fun _ => by
  unfold readMarkup
  split
  · exact .firm (readQuoting_firm deep _ t) fun _ => .pure (Nat.zero_le _)
  · exact .firm (readString_firm t) fun _ => .pure (Nat.zero_le _)
  · exact .firm (readMarkupScore_firm deep t) fun _ => .pure (Nat.zero_le _)
  · refine .firm add_firm fun id => ?_
    split
    · exact .firm (readMarkupsInto_firm deep id false) fun _ => .pure (Nat.zero_le _)
    · exact .pure (Nat.zero_le _)
  · exact .firm add_firm fun _ => .pure (Nat.zero_le _)
  · exact .firm add_firm fun id => .firm (readMarkupsInto_firm deep id true) fun _ => .pure (Nat.zero_le _)
  · exact .firm add_firm fun _ => .pure (Nat.zero_le _)
  · exact .pure (Nat.zero_le _)

end Firm

end Reading

end ScoreText
