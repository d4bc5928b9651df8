import ScoreText.Music.Reading.Lyric
import ScoreText.Proofs.Cursor

/-! What a reading does to the reader, and what it gives. Each function that reads goes on from a reader
whose items are laid out in order to a later one, and the items that it gives start behind all items
that were there. -/
namespace ScoreText

open Reader

/-- A reading leads from a reader to one that has moved on from an earlier one, and what it gives has a
property. A token that is given back must have been taken since the earlier one. -/
structure Lays {α : Type} (whole : Prop) (n : Nat) (fills : Option ItemId) (lo : Nat) (o r : Reader)
    (act : Reading α) (P : α → Reader → Prop) : Prop where
  moved : Moved whole n fills lo o (act.run r).2
  answer : P (act.run r).1 (act.run r).2

/-- Nothing in particular is known. -/
def Anything {α : Type} (_ : α) (_ : Reader) : Prop :=
  True

/-- A token behind an offset that is in use. -/
structure InReach (lo : Nat) (r : Reader) (s : Token) : Prop where
  behind : lo ≤ s.start
  some_text : s.start < s.stop
  stop : s.stop ≤ r.reach

/-- All items end in front of an offset. -/
structure Gap (whole : Prop) (lo m : Nat) (r : Reader) : Prop where
  low : lo ≤ m
  laid : r.tree.Laid whole m

/-- A token that was taken and that no item uses, with all items in front of it. -/
structure Spare (whole : Prop) (n : Nat) (t : Token) (r : Reader) : Prop where
  stable : r.Stable whole n
  laid : r.tree.Laid whole t.start
  some_text : t.start < t.stop
  stop : t.stop ≤ r.reach

/-- An item that has been read and that nothing holds. -/
structure Single (whole : Prop) (lo : Nat) (t u : Tree) (b : Nat) (c : ItemId) : Prop
    extends Tree.Found whole lo t u b c where
  unheld : ∀ q, ¬ u.Holds q c

variable {α β : Type} {whole : Prop} {n lo m : Nat} {fills other : Option ItemId} {id : ItemId}
  {o o' r r' : Reader} {t : Token} {P : α → Reader → Prop} {Q : β → Reader → Prop}

section Steps

theorem InReach.since {s : Token} (within : InReach m r s) (low : lo ≤ m) : InReach lo r s :=
  ⟨Nat.le_trans low within.behind, within.some_text, within.stop⟩

theorem InReach.mono {s : Token} (within : InReach lo r s) (le : r.reach ≤ r'.reach) : InReach lo r' s :=
  ⟨within.behind, within.some_text, Nat.le_trans within.stop le⟩

theorem Reader.Moved.gap (moved : Moved whole n fills lo o r) : Gap whole lo r.reach r :=
  ⟨moved.went.low, moved.laid⟩

theorem Reader.Picked.gap (took : Picked whole n fills lo o r t r') : Gap whole lo t.start r' :=
  ⟨took.low, took.laid⟩

theorem Reader.Picked.spare (took : Picked whole n fills lo o r t r') : Spare whole n t r' :=
  ⟨took.moved.stable, took.laid, took.some_text, took.stop⟩

theorem Reader.Picked.within (took : Picked whole n fills lo o r t r') : InReach lo r' t :=
  ⟨took.low, took.some_text, took.stop⟩

theorem Spare.low (spare : Spare whole n t r) : t.start ≤ r.reach :=
  Nat.le_trans (Nat.le_of_lt spare.some_text) spare.stop

theorem Spare.gap (spare : Spare whole n t r) : Gap whole t.start t.start r :=
  ⟨Nat.le_refl _, spare.laid⟩

theorem Spare.start (spare : Spare whole n t r) : Moved whole n none t.start r r :=
  spare.stable.here spare.low fun _ => nofun

theorem Spare.within (spare : Spare whole n t r) : InReach t.start r t :=
  ⟨Nat.le_refl _, spare.some_text, spare.stop⟩

theorem Spare.later (spare : Spare whole n t r) (moved : Moved whole n none lo r r')
    (same : r'.tree = r.tree) : Spare whole n t r' :=
  ⟨moved.stable, same ▸ spare.laid, spare.some_text, Nat.le_trans spare.stop moved.went.reach_le⟩

theorem Spare.switch (spare : Spare whole n t r) (source : Source) (bare : source.last? = none) :
    Spare whole n t { r with source } :=
  ⟨(spare.start.switch source bare).stable, spare.laid, spare.some_text, spare.stop⟩

/-- Reading of new items leads on. -/
theorem Reader.Moved.on (moved : Moved whole n fills lo o r) (gap : Gap whole lo m r)
    (step : Moved whole n none m r r') : Moved whole n fills lo o r' :=
  moved.trans step gap.low fun _ => nofun

/-- The item that is being filled from now on. -/
theorem Reader.Moved.again (moved : Moved whole n fills lo o r) : Moved whole n fills lo r r :=
  moved.stable.here moved.went.low fun id member =>
    ⟨(moved.went.filling id member).opened.inside, (moved.went.filling id member).opened,
      (moved.went.filling id member).starts⟩

theorem Reader.Moved.join (moved : Moved whole n fills lo o r) (later : Moved whole n fills lo r r') :
    Moved whole n fills lo o r' :=
  moved.trans later (Nat.le_refl _) fun _ member => .inl member

end Steps

namespace Lays

theorem bind {x : Reading α} {k : α → Reading β} (first : Lays whole n other m o' r x P)
    (next : ∀ a r', Moved whole n other m o' r' → P a r' → Lays whole n fills lo o r' (k a) Q) :
    Lays whole n fills lo o r (x >>= k) Q :=
  have later := next _ _ first.moved first.answer
  ⟨later.moved, later.answer⟩

theorem went_bind {x : Reading α} {k : α → Reading β} (first : Lays whole n fills lo o r x P)
    (next : ∀ a r', Went whole n fills lo o r' → P a r' → Went whole n fills lo o ((k a).run r').2) :
    Went whole n fills lo o ((x >>= k).run r).2 :=
  next _ _ first.moved.went first.answer

theorem pure {a : α} (moved : Moved whole n fills lo o r) (answer : P a r) :
    Lays whole n fills lo o r (Pure.pure a) P :=
  ⟨moved, answer⟩

theorem mono {x : Reading α} {R : α → Reader → Prop} (lays : Lays whole n fills lo o r x P)
    (weaker : ∀ a r', Moved whole n fills lo o r' → P a r' → R a r') :
    Lays whole n fills lo o r x R :=
  ⟨lays.moved, weaker _ _ lays.moved lays.answer⟩

theorem get {k : Reader → Reading β} (next : Lays whole n fills lo o r (k r) Q) :
    Lays whole n fills lo o r (MonadState.get >>= k) Q :=
  ⟨next.moved, next.answer⟩

theorem tree {k : Tree → Reading β} (next : Lays whole n fills lo o r (k r.tree) Q) :
    Lays whole n fills lo o r (Reading.tree >>= k) Q :=
  ⟨next.moved, next.answer⟩

theorem after {x : Reading α} (moved : Moved whole n fills lo o r)
    (lays : Lays whole n fills lo r r' x P) :
    Lays whole n fills lo o r' x fun a r'' => Moved whole n fills lo r r'' ∧ P a r'' :=
  ⟨moved.join lays.moved, lays.moved, lays.answer⟩

theorem loop_ended {step : α → Reading (Turn α)} {I : α → Reader → Prop} {a : α}
    (moved : Moved whole n fills lo o r) (start : I a r)
    (steps : ∀ a r, Moved whole n fills lo o r → I a r →
      Lays whole n fills lo o r (step a) fun turn r' => match turn with
        | .done b => P b r'
        | .more b => I b r' ∧ r'.left < r.left) :
    Lays whole n fills lo o r (Reading.loop step a) P := by
  suffices run : Moved whole n fills lo o (Reader.repeated step a r).2 ∧
      P (Reader.repeated step a r).1 (Reader.repeated step a r).2 from ⟨run.1, run.2⟩
  induction a, r using Reader.repeated.induct step with
  | case1 a r b after done =>
    obtain ⟨moved, answer⟩ := steps a r moved start
    rw [Reader.repeated, done]
    rw [done] at moved answer
    exact ⟨moved, answer⟩
  | case2 a r b after ran fewer ih =>
    obtain ⟨moved, answer⟩ := steps a r moved start
    rw [Reader.repeated, ran]
    rw [ran] at moved answer
    simp only [fewer, if_true]
    exact ih moved answer.1
  | case3 a r b after ran fewer =>
    obtain ⟨_, answer⟩ := steps a r moved start
    rw [ran] at answer
    exact absurd answer.2 fewer

/-- A loop each turn of which keeps what is known, which says nothing about the course of reading. -/
theorem loop {step : α → Reading (Turn α)} {I : α → Reader → Prop} {a : α}
    (moved : Moved whole n fills lo o r) (start : I a r)
    (steps : ∀ a r, Moved whole n fills lo o r → I a r →
      Lays whole n fills lo o r (step a) fun turn r' => I turn.value r')
    (stall : ∀ a r, I a r → I a r.stall := by exact fun _ _ known => known) :
    Lays whole n fills lo o r (Reading.loop step a) I := by
  have run := Reading.loop_invariant (S := fun a r' => Moved whole n fills lo o r' ∧ I a r') ⟨moved, start⟩
    (fun a r known => ⟨(steps a r known.1 known.2).moved, (steps a r known.1 known.2).answer⟩)
    fun a r known => ⟨known.1.stall, stall a r known.2⟩
  exact ⟨run.1, run.2⟩

end Lays

namespace Reading

section Source

theorem next_lays (moved : Moved whole n fills lo o r) :
    Lays whole n fills lo o r next (Taken whole n fills lo o r) :=
  have taken := moved.taken moved.went.sound.next
  ⟨taken.1, taken.2⟩

theorem pushBack_of_taken (taken : 0 < r.index) : (pushBack.run r).2 = r.giveBack :=
  if_pos taken

theorem pushBack_lays (took : Picked whole n fills lo o r t r') :
    Lays whole n fills lo o r' pushBack fun _ r'' => r'' = r'.giveBack := by
  have run := pushBack_of_taken took.taken
  refine ⟨?_, run⟩
  rw [run]
  exact took.back

theorem nextItem_lays (moved : Moved whole n fills lo o r) :
    Lays whole n fills lo o r nextItem (Given whole n fills lo o r fun r' =>
      r'.source.Finished ∧ r'.tree = r.tree ∧ r.reach ≤ r'.reach) := by
  refine .loop_ended (I := fun _ r' => r'.tree = r.tree ∧ r.reach ≤ r'.reach ∧ r'.left ≤ r.left) moved
    ⟨rfl, Nat.le_refl _, Nat.le_refl _⟩ fun _ r1 moved1 ⟨tree, reach, left⟩ => ?_
  refine .bind (next_lays moved1) fun found r2 moved2 taken => ?_
  cases found with
  | none =>
    obtain ⟨finished, source, rfl⟩ := taken
    exact .pure moved2 ⟨finished, tree, reach⟩
  | some t =>
    dsimp only
    split
    · refine .pure moved2 ⟨⟨taken.tree.trans tree, ?_, ?_⟩, taken.fewer⟩
      · exact Nat.le_trans reach taken.reach_le
      · exact Nat.le_trans (Nat.le_of_lt taken.fewer) left
    · exact .pure moved2 { taken with
        after := Nat.le_trans reach taken.after
        fewer := Nat.lt_of_lt_of_le taken.fewer left
        tree := taken.tree.trans tree
        kept := Nat.le_trans reach taken.kept }

theorem run_within (source : Source) (act : Reading α) (r : Reader) :
    (within source act).run r =
      ((act.run { r with source }).1, { (act.run { r with source }).2 with source := r.source }) :=
  rfl

theorem free_lays {act : Reading α} (moved : Moved whole n fills lo o r)
    (inner : Lays whole n other m { r with source := .free } { r with source := .free } act P)
    (low : lo ≤ m) (same : ∀ id ∈ other, fills = some id ∨ o.tree.size ≤ id) :
    Lays whole n fills lo o r (free act) fun a r' => ∃ source, P a { r' with source } := by
  obtain ⟨inner, answer⟩ := inner
  have run := run_within .free act r
  generalize act.run _ = out at inner answer run
  obtain ⟨a, r'⟩ := out
  constructor
  · rw [free, run]
    exact moved.restore r' inner.went low same
  · rw [free, run]
    exact ⟨r'.source, answer⟩

/-- Tokens may be taken from behind the end of the source. -/
theorem free_taken_lays {act : Reading (Option Token)} (moved : Moved whole n fills lo o r)
    (inner : ∀ r0 : Reader, r0 = { r with source := .free } → Moved whole n fills lo r0 r0 →
      Lays whole n fills lo r0 r0 act (Given whole n fills lo r0 r0 fun r' => r'.tree = r0.tree)) :
    Lays whole n fills lo o r (free act) (Given whole n fills lo o r fun r' =>
      r'.tree = r.tree ∧ r.reach ≤ r'.reach) := by
  have same : ∀ id ∈ fills, fills = some id ∨ o.tree.size ≤ id := fun _ member => .inl member
  obtain ⟨inner, answer⟩ := inner _ rfl (moved.switch _ rfl)
  have run := run_within .free act r
  generalize act.run _ = out at inner answer run
  obtain ⟨found, r'⟩ := out
  have now := moved.restore r' inner.went (Nat.le_refl _) same
  constructor
  · rw [free, run]
    exact now
  · rw [free, run]
    cases found with
    | none => exact ⟨answer, inner.went.reach_le⟩
    | some t =>
      have back : Moved whole n fills lo o { r'.giveBack with source := r.source } :=
        moved.restore r'.giveBack answer.back.went (Nat.le_refl _) same
      exact { answer with
        moved := now
        back := back }

theorem free_next_lays (moved : Moved whole n fills lo o r) :
    Lays whole n fills lo o r (free next) (Given whole n fills lo o r fun r' =>
      r'.tree = r.tree ∧ r.reach ≤ r'.reach) := by
  refine free_taken_lays moved fun r0 _ here => (next_lays here).mono fun found r' _ taken => ?_
  cases found with
  | none =>
    obtain ⟨_, _, rfl⟩ := taken
    rfl
  | some t => exact taken

theorem free_nextItem_lays (moved : Moved whole n fills lo o r) :
    Lays whole n fills lo o r (free nextItem) (Given whole n fills lo o r fun r' =>
      r'.tree = r.tree ∧ r.reach ≤ r'.reach) := by
  refine free_taken_lays moved fun r0 _ here => (nextItem_lays here).mono fun found r' _ taken => ?_
  cases found with
  | none => exact taken.2.1
  | some t => exact taken

/-- What is read from a source comes with the token that ended the source. -/
theorem run_last (out : α × Reader) :
    (match out.2.source with
      | .free => (pure (out.1, none) : Reading (α × Option Token))
      | .bounded b => pure (out.1, b.last)).run out.2 = ((out.1, out.2.source.last?), out.2) := by
  obtain ⟨a, r⟩ := out
  cases source : r.source <;> simp only <;> rfl

theorem run_bounded (act : Reading α) (r : Reader) :
    (bounded act).run r =
      (((act.run { r with source := .bounded ⟨r.depth, false, false, none⟩ }).1,
        (act.run { r with source := .bounded ⟨r.depth, false, false, none⟩ }).2.source.last?),
        { (act.run { r with source := .bounded ⟨r.depth, false, false, none⟩ }).2 with
          source := r.source }) := by
  have inner := run_last (act.run { r with source := .bounded ⟨r.depth, false, false, none⟩ })
  exact congrArg (fun out : (α × Option Token) × Reader => (out.1, { out.2 with source := r.source })) inner

/-- What is read from a bounded source. Nothing need be known about that source in the end. -/
theorem bounded_went {act : Reading α} (moved : Moved whole n fills lo o r)
    (inner : ∀ r0 : Reader, r0 = { r with source := .bounded ⟨r.depth, false, false, none⟩ } →
      Moved whole n fills lo r0 r0 →
      Went whole n fills lo r0 (act.run r0).2 ∧ P (act.run r0).1 (act.run r0).2) :
    Lays whole n fills lo o r (bounded act) fun out r' => ∃ source, P out.1 { r' with source } := by
  obtain ⟨inner, answer⟩ := inner _ rfl (moved.switch _ rfl)
  have run := run_bounded act r
  generalize act.run _ = out at inner answer run
  obtain ⟨a, r'⟩ := out
  constructor
  · rw [run]
    exact moved.restore r' inner (Nat.le_refl _) fun _ member => .inl member
  · rw [run]
    exact ⟨r'.source, answer⟩

theorem bounded_lays {act : Reading α} (moved : Moved whole n fills lo o r)
    (inner : ∀ r0 : Reader, r0 = { r with source := .bounded ⟨r.depth, false, false, none⟩ } →
      Moved whole n fills lo r0 r0 → Lays whole n fills lo r0 r0 act P) :
    Lays whole n fills lo o r (bounded act) fun out r' => ∃ source, P out.1 { r' with source } :=
  bounded_went moved fun r0 same here => ⟨(inner r0 same here).moved.went, (inner r0 same here).answer⟩

theorem bounded_ended_lays {act : Reading α} (moved : Moved whole n fills lo o r)
    (inner : ∀ r0 : Reader, r0 = { r with source := .bounded ⟨r.depth, false, false, none⟩ } →
      Moved whole n fills lo r0 r0 →
      Lays whole n fills lo r0 r0 act fun a r' => P a r' ∧ r'.source.Finished) :
    Lays whole n fills lo o r (bounded act) fun out r' =>
      (∃ source, P out.1 { r' with source }) ∧ ∀ s ∈ out.2, InReach lo r' s := by
  obtain ⟨inner, answer, finished⟩ := inner _ rfl (moved.switch _ rfl)
  have run := run_bounded act r
  generalize act.run _ = out at inner answer finished run
  obtain ⟨a, r'⟩ := out
  constructor
  · rw [run]
    exact moved.restore r' inner.went (Nat.le_refl _) fun _ member => .inl member
  · rw [run]
    refine ⟨⟨r'.source, answer⟩, fun s member => ?_⟩
    rcases inner.last s member with before | ⟨behind, some_text⟩
    · cases before
    · exact ⟨Nat.le_trans moved.went.low behind, some_text, (inner.source s member).2 finished⟩

end Source

section Edit

variable {ids : List ItemId}

theorem edit_moved (moved : Moved whole n fills lo o r) {u : Tree} (laid : u.Laid whole r.reach)
    (timely : u.Timely) (successive : u.Successive) (grown : Tree.Grown fills lo o.tree u)
    (opened : ∀ id ∈ fills, u.Open id) :
    Moved whole n fills lo o { r with tree := u } := by
  have went := moved.went
  refine ⟨⟨⟨went.sound.order, went.sound.pushed, went.sound.room, laid,
    ⟨went.sound.timely.1, timely⟩, successive⟩, went.tokens, went.index, went.used, went.low, grown,
    fun id member => ?_⟩, moved.source, moved.last⟩
  obtain ⟨old, _, starts⟩ := went.filling id member
  refine ⟨old, opened id member, ?_⟩
  rw [went.grown.position old] at starts
  show (u.item id).position ≤ lo
  rw [grown.position old]
  exact starts

theorem push_moved (moved : Moved whole n fills lo o r) {kind : ItemKind} {position : Nat}
    {token : Option Token} (low : lo ≤ position) (early : position ≤ r.reach)
    (leading : ∀ s ∈ token, position = s.start ∧ s.start < s.stop ∧ s.stop ≤ r.reach)
    (unused : ∀ s ∈ token, ∀ i, (r.tree.item i).token ≠ some s)
    (behind : kind.isPrompt → ∀ i, ∀ s ∈ (r.tree.item i).token, s.start < position) :
    Moved whole n fills lo o { r with tree := r.tree.push (.single kind position token) } := by
  refine edit_moved moved (moved.laid.push early leading unused) (moved.timely.push kind position token)
    (moved.successive.push behind) (moved.went.grown.push low) fun id member => ?_
  obtain ⟨_, opened, _⟩ := moved.went.filling id member
  refine ⟨?_, fun p holds => opened.unheld p (Tree.holds_push.mp holds)⟩
  rw [Tree.size_push]
  exact Nat.lt_succ_of_lt opened.inside

theorem update_lays (moved : Moved whole n (some id) lo o r) {f : Item → Item}
    (same : ∀ i, Tree.SamePlace i (f i)) (timely : (r.tree.item id).Timely → (f (r.tree.item id)).Timely)
    (others : ∀ s ∈ (f (r.tree.item id)).tokens, s ∈ (r.tree.item id).tokens ∨ InReach lo r s)
    (marks : ∀ s ∈ (f (r.tree.item id)).details.tokens,
      s ∈ (r.tree.item id).details.tokens ∨ s.stop ≤ r.reach)
    (parts : ∀ c ∈ (f (r.tree.item id)).details.items, c ∈ (r.tree.item id).details.items ∨
      Single whole lo o.tree r.tree r.reach c) :
    Lays whole n (some id) lo o r (update id f) fun _ r' => r' = { r with tree := r.tree.update id f } := by
  obtain ⟨old, opened, starts⟩ := moved.went.filling id rfl
  have laid := moved.laid
  refine ⟨edit_moved moved (laid.update opened same ?_ ?_ ?_) (moved.timely.update (timely (moved.timely id)))
    (moved.successive.update same) ?_ ?_, rfl⟩
  · intro s member
    rcases others s member with before | ⟨behind, some_text, _⟩
    · exact (laid.placed id).others s before
    · omega
  · intro s member
    have known := (laid.ends id).marks s
    simp only [Item.marks, List.mem_append] at known
    rcases List.mem_append.mp member with member | member
    · exact (others s member).elim (fun before => known (.inl (.inr before))) InReach.stop
    · exact (marks s member).elim (fun before => known (.inr before)) fun stop => stop
  · intro c member
    rcases parts c member with before | single
    · have holds : r.tree.Holds id c := .inr before
      refine ⟨?_, (laid.inside id c holds).1, (laid.inside id c holds).2, laid.attributes id c before,
        laid.early id c holds, laid.occupied id c holds⟩
      rintro rfl
      exact opened.unheld c holds
    · have behind : id < c := Nat.lt_of_lt_of_le old single.new
      refine ⟨(Nat.ne_of_lt behind).symm, Nat.lt_of_le_of_lt (Nat.zero_le _) behind, single.inside, ?_,
        single.early, single.occupied⟩
      cases above : r.tree.parent c with
      | none => rfl
      | some q => exact absurd (.inl ((laid.link q c).mpr above)) (single.unheld q)
  · refine moved.went.grown.update same (.inl rfl) fun c member => ?_
    exact (parts c member).elim .inr fun single => .inl single.new
  · rintro _ ⟨⟩
    refine ⟨by rw [Tree.size_update]; exact opened.inside, fun p holds => ?_⟩
    by_cases here : id = p ∧ p < r.tree.size
    · obtain ⟨rfl, inside⟩ := here
      rw [Tree.Holds, Tree.children, Tree.item_update_self inside f, (same _).children] at holds
      rcases holds with holds | holds
      · exact opened.unheld id (.inl holds)
      · rcases parts id holds with before | single
        · exact opened.unheld id (.inr before)
        · exact absurd old (Nat.not_lt_of_le single.new)
    · rw [Tree.Holds, Tree.children, Tree.item_update, if_neg here] at holds
      exact opened.unheld p holds

theorem setTokens_lays (moved : Moved whole n (some id) lo o r) {tokens : List Token}
    (within : ∀ s ∈ tokens, InReach lo r s) :
    Lays whole n (some id) lo o r (setTokens id tokens) Anything :=
  (update_lays (f := fun i => { i with tokens }) moved (fun _ => ⟨rfl, rfl, rfl, rfl, rfl⟩) (fun timely => timely)
    (fun s member => .inr (within s member)) (fun _ => .inl) fun _ => .inl).mono fun _ _ _ _ => trivial

theorem addToken_lays (moved : Moved whole n (some id) lo o r) {token : Option Token}
    (within : ∀ s ∈ token, InReach lo r s) :
    Lays whole n (some id) lo o r (addToken id token) Anything := by
  refine (update_lays (f := fun i => { i with tokens := i.tokens ++ token.toList }) moved
    (fun _ => ⟨rfl, rfl, rfl, rfl, rfl⟩) (fun timely => timely) (fun s member => ?_) (fun _ => .inl)
    fun _ => .inl).mono fun _ _ _ _ => trivial
  exact (List.mem_append.mp member).imp_right fun added => within s (Option.mem_toList.mp added)

theorem setDetails_lays (moved : Moved whole n (some id) lo o r) {details : Details}
    (marks : ∀ s ∈ details.tokens, s.stop ≤ r.reach)
    (parts : ∀ c ∈ details.items, Single whole lo o.tree r.tree r.reach c) :
    Lays whole n (some id) lo o r (setDetails id details) fun _ r' =>
      r' = { r with tree := r.tree.update id fun i => { i with details } } :=
  update_lays (f := fun i => { i with details }) moved (fun _ => ⟨rfl, rfl, rfl, rfl, rfl⟩) (fun timely => timely)
    (fun _ => .inl) (fun s member => .inr (marks s member)) fun c member => .inr (parts c member)

theorem setDetails_bare_lays (moved : Moved whole n (some id) lo o r) {details : Details}
    (tokens : details.tokens = []) (items : details.items = []) :
    Lays whole n (some id) lo o r (setDetails id details) fun _ r' =>
      r' = { r with tree := r.tree.update id fun i => { i with details } } :=
  setDetails_lays moved (fun s member => by rw [tokens] at member; cases member)
    fun c member => by rw [items] at member; cases member

theorem setDuration_lays (moved : Moved whole n (some id) lo o r) {duration : Option Duration}
    (fits : ∀ d ∈ duration, d.Fits) :
    Lays whole n (some id) lo o r (update id fun i => { i with duration }) fun _ r' =>
      r'.tree.children id = r.tree.children id := by
  refine (update_lays (f := fun i => { i with duration }) moved (fun _ => ⟨rfl, rfl, rfl, rfl, rfl⟩) (fun _ => fits)
    (fun _ => .inl) (fun _ => .inl) fun _ => .inl).mono fun _ r' _ same => ?_
  rw [same, Tree.children, Tree.item_update_self (moved.went.filling id rfl).opened.inside _]
  rfl

theorem run_appendAll (p : ItemId) (ids : List ItemId) (r : Reader) :
    (appendAll p ids).run r = ((), { r with tree := r.tree.appendAll p ids }) := by
  induction ids generalizing r with
  | nil => rfl
  | cons c ids ih =>
    show ((append p c >>= fun _ => appendAll p ids)).run r = _
    exact ih { r with tree := r.tree.append p c }

theorem appendAll_lays (moved : Moved whole n (some id) lo o r) (gap : Gap whole lo m r)
    (step : Moved whole n none m r r') (row : Tree.Row whole m r.tree r'.tree r'.reach ids) :
    Lays whole n (some id) lo o r' (appendAll id ids) fun _ r'' =>
      r'' = { r' with tree := r'.tree.appendAll id ids } := by
  have opened := (moved.went.filling id rfl).opened
  have larger := moved.went.grown.larger
  have new : ∀ {i}, r.tree.size ≤ i → o.tree.size ≤ i := fun le => Nat.le_trans larger le
  obtain ⟨laid, opened, grown⟩ := Tree.appendAll_laid step.laid (step.went.grown.opened opened)
    (fun c member => (row.each c member).ready gap.laid step.went.grown opened) row.sorted
    (moved.on gap step).went.grown (.inl rfl) (fun c member => new (row.each c member).new)
    fun c member q holds => new ((row.each c member).loose q holds).1
  have now := edit_moved (moved.on gap step) laid (step.timely.appendAll id ids)
    (step.successive.appendAll id ids) grown
    (by rintro _ ⟨⟩; exact opened)
  have run := run_appendAll id ids r'
  constructor
  · rw [run]
    exact now
  · rw [run]

theorem append_lays (moved : Moved whole n (some id) lo o r) (gap : Gap whole lo m r)
    (step : Moved whole n none m r r') {child : ItemId}
    (found : Tree.Found whole m r.tree r'.tree r'.reach child) :
    Lays whole n (some id) lo o r' (append id child) fun _ r'' =>
      r'' = { r' with tree := r'.tree.append id child } :=
  appendAll_lays moved gap step found.row

theorem appendIf_lays (moved : Moved whole n (some id) lo o r) (gap : Gap whole lo m r)
    (step : Moved whole n none m r r') {child : Option ItemId}
    (row : Tree.Row whole m r.tree r'.tree r'.reach child.toList) :
    Lays whole n (some id) lo o r' (appendIf id child) fun _ r'' =>
      r'' = { r' with tree := r'.tree.appendAll id child.toList } := by
  cases child with
  | none => exact appendAll_lays moved gap step row
  | some child => exact appendAll_lays moved gap step row

end Edit

end Reading

open Reading

section Item

/-- An item that has just been added where a token starts. -/
structure Born (whole : Prop) (n lo : Nat) (o : Reader) (kind : ItemKind) (token : Option Token)
    (id : ItemId) (r : Reader) : Prop where
  new : id = o.tree.size
  tree : r.tree = o.tree.push (.single kind lo token)
  moved : Moved whole n none lo o r
  here : Moved whole n (some id) lo r r
  early : lo < r.reach

variable {kind : ItemKind} {token : Option Token}

theorem Born.item (born : Born whole n lo o kind token id r) : r.tree.item id = .single kind lo token := by
  rw [born.tree, born.new, Tree.item_push, if_pos rfl]

theorem Born.step (born : Born whole n lo o kind token id r) (moved : Moved whole n (some id) lo r r') :
    Moved whole n none lo o r' := by
  refine born.moved.trans moved (Nat.le_refl _) ?_
  rintro _ ⟨⟩
  exact .inr (Nat.le_of_eq born.new.symm)

/-- What an item is filled with is new to the tree before it. -/
theorem Born.finish {P Q : α → Reader → Prop} {x : Reading α} (born : Born whole n lo o kind token id r)
    (lays : Lays whole n (some id) lo r r x P)
    (answer : ∀ a r', Moved whole n (some id) lo r r' → P a r' → Q a r') :
    Lays whole n none lo o r x Q :=
  ⟨born.step lays.moved, answer _ _ lays.moved lays.answer⟩

theorem Born.since (born : Born whole n lo r kind token id r') (moved : Moved whole n none lo o r)
    (same : r.tree = o.tree) : Born whole n lo o kind token id r' where
  new := same ▸ born.new
  tree := same ▸ born.tree
  moved := moved.trans born.moved (Nat.le_refl _) fun _ => nofun
  here := born.here
  early := born.early

theorem Born.single (born : Born whole n lo o kind token id r)
    (moved : Moved whole n (some id) lo r r') (occupied : Tree.Occupied whole r'.tree id) :
    Single whole lo o.tree r'.tree r'.reach id := by
  obtain ⟨old, opened, _⟩ := moved.went.filling id rfl
  have position : (r'.tree.item id).position = lo := by
    rw [moved.went.grown.position old, born.item]
    rfl
  refine ⟨⟨Nat.le_of_eq born.new.symm, opened.inside, Nat.le_of_eq position.symm, ?_, occupied,
    fun q member => opened.unheld q (.inr member), fun q holds => absurd holds (opened.unheld q)⟩,
    opened.unheld⟩
  rw [position]
  exact Nat.lt_of_lt_of_le born.early moved.went.reach_le

theorem Born.occupied (born : Born whole n lo o kind (some t) id r)
    (moved : Moved whole n (some id) lo r r') : Tree.Occupied whole r'.tree id := by
  refine .inl ?_
  rw [(moved.went.grown.head id (moved.went.filling id rfl).old).2.2, born.item]
  rfl

theorem Born.kind_eq (born : Born whole n lo o kind token id r)
    (moved : Moved whole n (some id) lo r r') : r'.tree.kind id = kind := by
  rw [Tree.kind, (moved.went.grown.head id (moved.went.filling id rfl).old).1, born.item]
  rfl

/-- An item is added where a token starts that no item uses. -/
theorem Reading.addUnused_lays (stable : r.Stable whole n) (some_text : t.start < t.stop)
    (stop : t.stop ≤ r.reach) (unused : ∀ i, (r.tree.item i).token ≠ some t) (kind : ItemKind)
    (behind : kind.isPrompt → ∀ i, ∀ s ∈ (r.tree.item i).token, s.start < t.start)
    (own : ∀ s ∈ token, s = t) :
    Lays whole n none t.start r r (add kind t.start token) (Born whole n t.start r kind token) := by
  have low : t.start < r.reach := Nat.lt_of_lt_of_le some_text stop
  have here : Moved whole n none t.start r r := stable.here (Nat.le_of_lt low) fun _ => nofun
  have moved : Moved whole n none t.start r
      { r with tree := r.tree.push (.single kind t.start token) } := by
    refine push_moved here (Nat.le_refl _) (Nat.le_of_lt low) (fun s member => ?_) (fun s member => ?_) behind
    · rw [own s member]
      exact ⟨rfl, some_text, stop⟩
    · rw [own s member]
      exact unused
  have item : (r.tree.push (.single kind t.start token)).item r.tree.size =
      .single kind t.start token := by
    rw [Tree.item_push, if_pos rfl]
  have inside : r.tree.size < (r.tree.push (.single kind t.start token)).size := by
    rw [Tree.size_push]
    exact Nat.lt_succ_self _
  refine ⟨moved, rfl, rfl, moved, moved.stable.here moved.went.low ?_, low⟩
  rintro _ ⟨⟩
  refine ⟨inside, ⟨inside, fun p holds => ?_⟩, ?_⟩
  · exact absurd (stable.laid.inside p _ (Tree.holds_push.mp holds)).2 (Nat.lt_irrefl _)
  · show ((r.tree.push _).item r.tree.size).position ≤ t.start
    rw [item]
    exact Nat.le_refl _

theorem Reading.add_lays (spare : Spare whole n t r) (kind : ItemKind) (own : ∀ s ∈ token, s = t) :
    Lays whole n none t.start r r (add kind t.start token) fun id r' =>
      Born whole n t.start r kind token id r' ∧ (token = none → Spare whole n t r') := by
  refine (addUnused_lays spare.stable spare.some_text spare.stop
    (spare.laid.unused (Nat.le_refl _)) kind (fun _ => spare.laid.starts_before) own).mono
      fun _ r' moved born => ⟨born, ?_⟩
  rintro rfl
  refine ⟨moved.stable, ?_, spare.some_text, Nat.le_trans spare.stop moved.went.reach_le⟩
  rw [born.tree]
  exact spare.laid.push_bare _ (Nat.le_refl _)

theorem Single.fill {t : Tree} (single : Single whole lo t o.tree o.reach id)
    (moved : Moved whole n (some id) m o r) : Single whole lo t r.tree r.reach id := by
  obtain ⟨old, opened, _⟩ := moved.went.filling id rfl
  obtain ⟨kind, position, token⟩ := moved.went.grown.head id old
  refine ⟨⟨single.new, opened.inside, ?_, ?_, ?_, fun q member => opened.unheld q (.inr member),
    fun q holds => absurd holds (opened.unheld q)⟩, opened.unheld⟩
  · rw [position]
    exact single.starts
  · rw [position]
    exact Nat.lt_of_lt_of_le single.early moved.went.reach_le
  · rw [Tree.Occupied, token, Tree.kind, kind]
    exact single.occupied.imp_right (Or.imp_left (moved.went.grown.fuller id old))

theorem Single.keep {t : Tree} {c : ItemId} (single : Single whole lo t o.tree o.reach c)
    (moved : Moved whole n fills m o r) (other : fills ≠ some c) :
    Single whole lo t r.tree r.reach c := by
  have grown := moved.went.grown
  have same : r.tree.item c = o.tree.item c := grown.kept c single.inside other
  have unheld : ∀ q, ¬ r.tree.Holds q c := fun q holds =>
    single.unheld q (grown.unheld q c single.inside holds)
  refine ⟨⟨single.new, Nat.lt_of_lt_of_le single.inside grown.larger, ?_, ?_, ?_,
    fun q member => unheld q (.inr member), fun q holds => absurd holds (unheld q)⟩, unheld⟩
  · rw [same]
    exact single.starts
  · rw [same]
    exact Nat.lt_of_lt_of_le single.early moved.went.reach_le
  · rw [Tree.Occupied, Tree.kind, Tree.children, same]
    exact single.occupied

theorem Single.since {t u v : Tree} {b : Nat} {c : ItemId} (single : Single whole m u v b c)
    (low : lo ≤ m) (larger : t.size ≤ u.size) : Single whole lo t v b c :=
  ⟨single.toFound.since low larger, single.unheld⟩

/-- A token that was taken is read as an item. -/
def Gives (whole : Prop) (n : Nat) (t : Token) (act : Reading ItemId) : Prop :=
  ∀ r, Spare whole n t r → Lays whole n none t.start r r act fun id r' =>
    Single whole t.start r.tree r'.tree r'.reach id

/-- What a token that was taken may have been read as. What starts as a string or as Scheme is held by
nothing. -/
structure Offered (whole : Prop) (t : Token) (r : Reader) (found : Option ItemId) (r' : Reader) : Prop where
  row : Tree.Row whole t.start r.tree r'.tree r'.reach found.toList
  unheld : isOne [.stringQuotedStart, .schemeStart] t → ∀ id ∈ found, ∀ q, ¬ r'.tree.Holds q id

/-- A token that was taken is read as an item or left out. -/
def Offers (whole : Prop) (n : Nat) (t : Token) (act : Reading (Option ItemId)) : Prop :=
  ∀ r, Spare whole n t r → Lays whole n none t.start r r act (Offered whole t r)

theorem Single.offered (single : Single whole t.start r.tree r'.tree r'.reach id) :
    Offered whole t r (some id) r' where
  row := single.row
  unheld _ := by
    rintro _ ⟨⟩
    exact single.unheld

theorem Offered.none : Offered whole t r none r' :=
  ⟨.nil, fun _ _ => nofun⟩

theorem Offers.none : Offers whole n t (pure none) :=
  fun _ spare => .pure spare.start .none

theorem Born.offers (born : Born whole n t.start o kind (some t) id r)
    (moved : Moved whole n (some id) t.start r r') :
    Lays whole n none t.start o r' (pure (some id)) (Offered whole t o) :=
  .pure (born.step moved) (born.single moved (born.occupied moved)).offered

theorem Gives.wrapped {act : Reading ItemId} (gives : Gives whole n t act) :
    Offers whole n t (act >>= fun id => pure (some id)) :=
  fun r spare => .bind (gives r spare) fun _ _ moved single => .pure moved single.offered

theorem Gives.free {act : Reading ItemId} (gives : Gives whole n t act) : Gives whole n t (free act) := by
  intro r spare
  have inner := gives { r with source := .free } (spare.switch _ rfl)
  refine (free_lays spare.start inner (Nat.le_refl _) fun _ => nofun).mono fun _ _ _ single => ?_
  obtain ⟨_, single⟩ := single
  exact single

theorem addFor_lays {k : ItemId → Reading ItemId} (spare : Spare whole n t r)
    (fill : ∀ id o, Moved whole n (some id) t.start o o →
      Lays whole n (some id) t.start o o (k id) fun a _ => a = id) :
    Lays whole n none t.start r r (addFor kind t >>= k) fun id r' =>
      Single whole t.start r.tree r'.tree r'.reach id ∧ r'.tree.kind id = kind := by
  have own : ∀ s ∈ some t, s = t := fun _ same => (Option.mem_some_iff.mp same).symm
  refine .bind (add_lays spare kind own) fun id o _ ⟨born, _⟩ => ?_
  refine born.finish (fill id o born.here) ?_
  rintro _ r' moved rfl
  exact ⟨born.single moved (born.occupied moved), born.kind_eq moved⟩

theorem Gives.addFor {k : ItemId → Reading ItemId}
    (fill : ∀ id o, Moved whole n (some id) t.start o o →
      Lays whole n (some id) t.start o o (k id) fun a _ => a = id) :
    Gives whole n t (addFor kind t >>= k) :=
  fun _ spare => (addFor_lays spare fill).mono fun _ _ _ answer => answer.1

theorem Offers.addFor {k : ItemId → Reading (Option ItemId)}
    (fill : ∀ id o, Moved whole n (some id) t.start o o →
      Lays whole n (some id) t.start o o (k id) fun a _ => a = some id) :
    Offers whole n t (addFor kind t >>= k) := by
  have own : ∀ s ∈ some t, s = t := fun _ same => (Option.mem_some_iff.mp same).symm
  refine fun r spare => .bind (add_lays spare kind own) fun id o _ ⟨born, _⟩ => ?_
  refine born.finish (fill id o born.here) ?_
  rintro _ r' moved rfl
  exact (born.single moved (born.occupied moved)).offered

theorem Reading.addFor_gives (kind : ItemKind) (t : Token) : Gives whole n t (addFor kind t) :=
  Gives.addFor (k := pure) fun _ _ here => .pure here rfl

/-- Whatever a reader of nested items reads is laid out in order. If no item is left out, the text of a
word of lyrics is read, as long as the tokens to come are fewer than the levels. -/
structure Deep (whole : Prop) (n : Nat) (deeper : Deeper) : Prop where
  offers : ∀ form t r, Spare whole n t r → (whole → r.left < n) →
    Lays whole n none t.start r r (deeper form t) (Offered whole t r)
  text : whole → ∀ t r, startsLyricMarkup t → r.left < n → ((deeper .item t).run r).1.isSome

end Item

section Parts

variable {deeper : Deeper}

namespace Reading

/-- A token that was taken may be read as an item that comes behind others. -/
theorem deeper_lays (deep : Deep whole n deeper) (form : Form) (took : Picked whole n fills lo o r t r') :
    Lays whole n none t.start r' r' (deeper form t) (Offered whole t r') :=
  deep.offers form t r' took.spare took.room

theorem free_deeper_lays (deep : Deep whole n deeper) (form : Form) (spare : Spare whole n t r)
    (room : whole → r.left < n) :
    Lays whole n none t.start r r (free (deeper form t)) (Offered whole t r) := by
  have inner := deep.offers form t { r with source := .free } (spare.switch _ rfl) room
  refine (free_lays spare.start inner (Nat.le_refl _) fun _ => nofun).mono fun _ _ _ offered => ?_
  obtain ⟨_, offered⟩ := offered
  exact ⟨offered.row, offered.unheld⟩

theorem readAll_lays (deep : Deep whole n deeper) (stable : r.Stable whole n) :
    Lays whole n none r.reach r r (readAll deeper) fun ids r' =>
      Tree.Row whole r.reach r.tree r'.tree r'.reach ids ∧ r'.source.Finished := by
  refine .bind (.loop_ended stable.start (P := fun ids r' =>
    Tree.Row whole r.reach r.tree r'.tree r'.reach ids.reverse ∧ r'.source.Finished)
    (I := fun ids r' => Tree.Row whole r.reach r.tree r'.tree r'.reach ids.reverse) .nil
    fun ids r1 moved row => ?_) fun ids r' moved row => .pure moved row
  refine .bind (nextItem_lays moved) fun found r2 moved2 taken => ?_
  cases found with
  | none =>
    obtain ⟨finished, tree, le⟩ := taken
    have grown : Tree.Grown none 0 r1.tree r2.tree := tree ▸ Tree.Grown.refl none 0 r2.tree
    exact .pure moved2 ⟨row.keep moved.laid grown le, finished⟩
  | some t =>
    refine .bind (deeper_lays deep .item taken) fun child r3 step offered => ?_
    have now := taken.moved.on taken.gap step
    have le : r1.reach ≤ r3.reach := Nat.le_trans taken.reach_le step.went.reach_le
    have grown : Tree.Grown none t.start r1.tree r3.tree := taken.tree ▸ step.went.grown
    refine .pure now ⟨?_, Nat.lt_of_le_of_lt step.went.left_le taken.fewer⟩
    cases child with
    | none => exact row.keep moved.laid grown le
    | some child =>
      have found : Tree.Found whole t.start r1.tree r3.tree r3.reach child :=
        taken.tree ▸ offered.row.found
      rw [Option.toList_some, List.singleton_append, List.reverse_cons]
      exact row.more moved.laid taken.after taken.low le moved.went.grown.larger grown found

theorem readOne_lays (deep : Deep whole n deeper) (stable : r.Stable whole n) :
    Lays whole n none r.reach r r (readOne deeper) fun found r' =>
      Tree.Row whole r.reach r.tree r'.tree r'.reach found.toList := by
  refine .loop stable.start .nil fun _ r1 moved _ => ?_
  refine .bind (nextItem_lays moved) fun found r2 moved2 taken => ?_
  cases found with
  | none => exact .pure moved2 .nil
  | some t =>
    refine .bind (deeper_lays deep .item taken) fun child r3 step offered => ?_
    have now := taken.moved.on taken.gap step
    cases child with
    | none => exact .pure now .nil
    | some child => exact .pure now (offered.row.since taken.low taken.moved.went.grown.larger)

theorem free_readOne_lays (deep : Deep whole n deeper) (stable : r.Stable whole n) :
    Lays whole n none r.reach r r (free (readOne deeper)) fun found r' =>
      Tree.Row whole r.reach r.tree r'.tree r'.reach found.toList := by
  have inner := readOne_lays deep (stable.start.switch .free rfl).stable
  refine (free_lays stable.start inner (Nat.le_refl _) fun _ => nofun).mono fun _ _ _ h => ?_
  obtain ⟨_, row⟩ := h
  exact row

/-- The next item, if there is one, is put into the item that is being filled. -/
theorem readInto_lays (deep : Deep whole n deeper) (moved : Moved whole n (some id) lo o r) {α : Type}
    {k : Reading α} {P : α → Reader → Prop}
    (later : ∀ r', Moved whole n (some id) lo o r' → Lays whole n (some id) lo o r' k P) :
    Lays whole n (some id) lo o r (readOne deeper >>= fun child => appendIf id child >>= fun _ => k) P :=
  .bind (readOne_lays deep moved.stable) fun _ _ step row =>
    .bind (appendIf_lays moved moved.gap step row) fun _ r' now _ => later r' now

theorem free_readInto_lays (deep : Deep whole n deeper) (moved : Moved whole n (some id) lo o r) {α : Type}
    {k : Reading α} {P : α → Reader → Prop}
    (later : ∀ r', Moved whole n (some id) lo o r' → Lays whole n (some id) lo o r' k P) :
    Lays whole n (some id) lo o r (free (readOne deeper) >>= fun child => appendIf id child >>= fun _ => k) P :=
  .bind (free_readOne_lays deep moved.stable) fun _ _ step row =>
    .bind (appendIf_lays moved moved.gap step row) fun _ r' now _ => later r' now

theorem readRegionInto_lays (deep : Deep whole n deeper) (moved : Moved whole n (some id) lo o r) :
    Lays whole n (some id) lo o r (readRegionInto deeper id) Anything := by
  refine .bind (bounded_ended_lays moved.stable.start (P := fun ids r' =>
    Tree.Row whole r.reach r.tree r'.tree r'.reach ids) fun r0 same here => ?_)
    fun out r1 step ⟨⟨_, row⟩, within⟩ => ?_
  · subst same
    exact readAll_lays deep here.stable
  · refine .bind (appendAll_lays moved moved.gap step row) fun _ r2 moved2 same => ?_
    subst same
    exact addToken_lays moved2 fun s member =>
      ((within s member).since moved.went.low).mono (Nat.le_refl r1.reach)

theorem readArgumentsInto_lays (deep : Deep whole n deeper) (moved : Moved whole n (some id) lo o r)
    (count : Nat) : Lays whole n (some id) lo o r (readArgumentsInto deeper id count) Anything := by
  induction count generalizing r with
  | zero => exact .pure moved trivial
  | succ count ih =>
    refine .bind (readOne_lays deep moved.stable) fun child r1 step row => ?_
    cases child with
    | none => exact .pure (moved.on moved.gap step) trivial
    | some child =>
      exact .bind (append_lays moved moved.gap step row.found) fun _ r2 moved2 _ => ih moved2

end Reading

end Parts

end ScoreText
