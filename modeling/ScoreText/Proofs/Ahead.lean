import ScoreText.Music.Reading.Reader

/-! What a reader takes. The tokens ahead of it decide: it stands in front of them, or just behind one
that it may give back. A bounded source goes on up to the token that leaves its region. -/
namespace ScoreText

/-- A source goes on to a limit: the depth of its region, or none if it is free. -/
def Source.GoesOn : Source → Option Nat → Prop
  | .free, none => True
  | .bounded b, some d => b.finished = false ∧ b.depth = d
  | _, _ => False

/-- A token with some number of open regions behind it does not leave the region of a limit. -/
def Within (limit : Option Nat) (depth : Nat) : Prop :=
  ∀ d ∈ limit, d ≤ depth

namespace Reader

variable {r : Reader} {limit : Option Nat} {t u : ScannedToken} {ts us : List ScannedToken}

theorem current?_eq (r : Reader) :
    r.current? = if r.index = 0 then none else r.tokens[r.index - 1]? := by
  unfold current?
  split
  · rfl
  · rw [Array.getElem?_eq_getElem]

theorem pull_taken (pushed : r.pushed = false) (more : r.index < r.tokens.size) :
    r.pull = (some r.tokens[r.index].token, { r with index := r.index + 1, inside := more }) := by
  simp [pull, pushed, more]

/-- The number of tokens in use. One that was given back is not. -/
def used (r : Reader) : Nat :=
  r.index - if r.pushed then 1 else 0

theorem used_le (r : Reader) : r.used ≤ r.index :=
  Nat.sub_le _ _

theorem used_le_size (r : Reader) : r.used ≤ r.tokens.size :=
  Nat.le_trans r.used_le r.inside

/-- The tokens to come, one that was given back in front. -/
def ahead (r : Reader) : List ScannedToken :=
  (if r.pushed then r.current?.toList else []) ++ r.tokens.toList.drop r.index

/-- The reader stands in front of tokens, and its source goes on. -/
structure Ready (r : Reader) (limit : Option Nat) (ts : List ScannedToken) : Prop where
  ahead : r.ahead = ts
  known : r.pushed = true → r.current?.isSome
  goesOn : r.source.GoesOn limit
  inside : r.pushed = true ∨ Within limit r.depth

/-- The reader stands behind a token. -/
structure At (r : Reader) (t : ScannedToken) (ts : List ScannedToken) : Prop where
  ahead : r.ahead = ts
  pushed : r.pushed = false
  current : r.current? = some t

/-- The reader has given back the first of some tokens. -/
structure Gives (r : Reader) (ts : List ScannedToken) : Prop where
  ahead : r.ahead = ts
  pushed : r.pushed = true
  known : r.current?.isSome

/-- The reader has just taken a token. If the token left the region, the source ends there. -/
structure Took (r : Reader) (limit : Option Nat) (t : ScannedToken) (ts : List ScannedToken) : Prop
    extends r.At t ts where
  goesOn : r.source.GoesOn limit
  started : ∀ b, r.source = .bounded b → b.started = true

/-- All but the place among the tokens is the same. -/
structure SameScore (r r' : Reader) : Prop where
  tree : r'.tree = r.tree
  language : r'.language = r.language
  inChord : r'.inChord = r.inChord
  duration : r'.duration = r.duration

theorem SameScore.trans {r' r'' : Reader} (first : SameScore r r') (later : SameScore r' r'') :
    SameScore r r'' :=
  ⟨later.tree.trans first.tree, later.language.trans first.language,
    later.inChord.trans first.inChord, later.duration.trans first.duration⟩

theorem Gives.ready (gives : r.Gives ts) (goesOn : r.source.GoesOn limit) : r.Ready limit ts :=
  ⟨gives.ahead, fun _ => gives.known, goesOn, .inl gives.pushed⟩

theorem At.depth_eq (there : r.At t ts) : r.depth = t.depth := by
  simp [depth, there.current]

theorem Took.ready (took : r.Took limit t ts) (inside : Within limit t.depth) : r.Ready limit ts where
  ahead := took.ahead
  known pushed := by simp [took.pushed] at pushed
  goesOn := took.goesOn
  inside := .inr (took.depth_eq ▸ inside)

theorem Ready.score (ready : r.Ready limit ts) (tree : Tree) (inChord : Bool) (duration : Duration) :
    Ready { r with tree, inChord, duration } limit ts :=
  ⟨ready.ahead, ready.known, ready.goesOn, ready.inside⟩

theorem Took.score (took : r.Took limit t ts) (tree : Tree) (inChord : Bool) (duration : Duration) :
    Took { r with tree, inChord, duration } limit t ts :=
  ⟨⟨took.ahead, took.pushed, took.current⟩, took.goesOn, took.started⟩

/-- The region that is open behind a token goes on as long as as many regions are open. -/
theorem Took.entering (took : r.Took limit t ts) :
    Ready { r with source := .bounded ⟨r.depth, false, false, none⟩ } (some t.depth) ts where
  ahead := took.ahead
  known pushed := by simp [took.pushed] at pushed
  goesOn := ⟨rfl, took.depth_eq⟩
  inside := .inr fun d member => by
    obtain rfl : t.depth = d := by simpa using member
    exact Nat.le_of_eq took.depth_eq.symm

/-- A source goes on behind a region that was read from another one. -/
theorem Took.back {r' : Reader} (took : r.Took limit t ts) (there : r'.At u us) (tree : Tree)
    (inChord : Bool) :
    Took { r' with source := r.source, tree, inChord } limit u us :=
  ⟨⟨there.ahead, there.pushed, there.current⟩, took.goesOn, took.started⟩

theorem Took.left (took : r.Took limit t ts) : r.left = ts.length := by
  have tokens := congrArg List.length took.ahead
  simpa [Reader.ahead, Reader.left, took.pushed] using tokens

theorem Ready.left (ready : r.Ready limit ts) : r.left = ts.length := by
  have tokens := congrArg List.length ready.ahead
  cases pushed : r.pushed with
  | false => simpa [Reader.ahead, Reader.left, pushed] using tokens
  | true =>
    obtain ⟨t, current⟩ := Option.isSome_iff_exists.mp (ready.known pushed)
    simp [Reader.ahead, pushed, current] at tokens
    simp [Reader.left, pushed, ← tokens]

theorem Took.fewer {r' : Reader} (took : r'.Took limit t ts) (ready : r.Ready limit (t :: ts)) :
    r'.left < r.left := by
  simp [took.left, ready.left]

theorem pull_spent (pushed : r.pushed = false) (ahead : r.ahead = []) : r.pull = (none, r) := by
  simp only [Reader.ahead, pushed, Bool.false_eq_true, if_false, List.nil_append, List.drop_eq_nil_iff,
    Array.length_toList] at ahead
  simp [pull, pushed, Nat.not_lt.mpr ahead]

theorem pull_ahead (ahead : r.ahead = t :: ts) (known : r.pushed = true → r.current?.isSome) :
    ∃ r', r.pull = (some t.token, r') ∧ r'.ahead = ts ∧ r'.pushed = false ∧ r'.current? = some t ∧
      r'.source = r.source ∧ SameScore r r' := by
  cases pushed : r.pushed with
  | true =>
    obtain ⟨u, current⟩ := Option.isSome_iff_exists.mp (known pushed)
    simp only [Reader.ahead, pushed, current, if_true, Option.toList_some, List.singleton_append,
      List.cons.injEq] at ahead
    obtain ⟨rfl, rest⟩ := ahead
    refine ⟨{ r with pushed := false }, ?_, ?_, rfl, current, rfl, ⟨rfl, rfl, rfl, rfl⟩⟩
    · simp [pull, pushed, current]
    · simpa [Reader.ahead] using rest
  | false =>
    simp only [Reader.ahead, pushed, Bool.false_eq_true, if_false, List.nil_append] at ahead
    have here : r.tokens[r.index]? = some t := by
      rw [← Array.getElem?_toList, ← List.head?_drop, ahead, List.head?_cons]
    obtain ⟨more, rfl⟩ := Array.getElem?_eq_some_iff.mp here
    refine ⟨_, pull_taken pushed more, ?_, pushed, ?_, rfl, ⟨rfl, rfl, rfl, rfl⟩⟩
    · have rest := congrArg List.tail ahead
      simpa [Reader.ahead, pushed, List.tail_drop] using rest
    · simp [current?_eq, more]

end Reader

namespace Reading

variable {r : Reader} {limit : Option Nat} {t u : ScannedToken} {ts : List ScannedToken}

theorem run_bind {α β : Type} (x : Reading α) (k : α → Reading β) (r : Reader) :
    (x >>= k).run r = (k (x.run r).1).run (x.run r).2 := rfl

/-- What is read first is known, so it is left to say what is read behind it. -/
theorem run_then {α β : Type} {x : Reading α} {k : α → Reading β} {a : α} {r r₁ : Reader} {out : β × Reader}
    (first : x.run r = (a, r₁)) (later : (k a).run r₁ = out) : (x >>= k).run r = out := by
  rw [run_bind, first]
  exact later

theorem run_next (r : Reader) : next.run r = r.next := rfl

theorem run_loop {α : Type} (step : α → Reading (Turn α)) (a : α) (r : Reader) :
    (loop step a).run r = r.repeated step a := rfl

theorem run_pushBack (r : Reader) : pushBack.run r = ((), if r.index > 0 then r.giveBack else r) := rfl

/-- What each turn of a loop keeps is kept by the whole loop, whether it is done or given up. -/
theorem loop_invariant {α : Type} {step : α → Reading (Turn α)} {S : α → Reader → Prop} {a : α} {r : Reader}
    (start : S a r) (steps : ∀ a r, S a r → S ((step a).run r).1.value ((step a).run r).2)
    (stall : ∀ a r, S a r → S a r.stall) : S ((loop step a).run r).1 ((loop step a).run r).2 := by
  rw [run_loop]
  induction a, r using Reader.repeated.induct step with
  | case1 a r b after done =>
    have turn := steps a r start
    rw [done] at turn
    rw [Reader.repeated, done]
    exact turn
  | case2 a r b after ran fewer ih =>
    have turn := steps a r start
    rw [ran] at turn
    rw [Reader.repeated, ran]
    simp only [fewer, if_true]
    exact ih turn
  | case3 a r b after ran fewer =>
    have turn := steps a r start
    rw [ran] at turn
    rw [Reader.repeated, ran]
    simp only [fewer, if_false]
    exact stall b after turn

theorem next_ready (ready : r.Ready limit (t :: ts)) :
    ∃ r', next.run r = (some t.token, r') ∧ r'.Took limit t ts ∧ r.SameScore r' := by
  obtain ⟨r', pull, ahead, pushed, current, source, same⟩ := Reader.pull_ahead ready.ahead ready.known
  have goesOn := ready.goesOn
  rw [run_next]
  cases here : r.source with
  | free =>
    rw [here] at source goesOn
    simp only [Reader.next, here, pull]
    exact ⟨r', rfl, ⟨⟨ahead, pushed, current⟩, source ▸ goesOn, by simp [source]⟩, same⟩
  | bounded b =>
    rw [here] at goesOn
    cases limit with
    | none => exact goesOn.elim
    | some d =>
      obtain ⟨unfinished, rfl⟩ := goesOn
      have not_over : r.atEnd b = false := by
        rcases ready.inside with given_back | inside
        · simp [Reader.atEnd, given_back]
        · have inside : b.depth ≤ r.depth := inside _ rfl
          have outside : ¬ r.depth < b.depth := by omega
          simp [Reader.atEnd, outside]
      simp only [Reader.next, here, unfinished, not_over, pull, Bool.false_eq_true, if_false]
      refine ⟨_, rfl, ⟨⟨ahead, pushed, current⟩, ⟨rfl, rfl⟩, ?_⟩, same.tree, same.language,
        same.inChord, same.duration⟩
      rintro _ ⟨⟩
      rfl

theorem next_over {d : Nat} (took : r.Took (some d) t ts) (left : t.depth < d) :
    ∃ source, next.run r = (none, { r with source }) := by
  rw [run_next]
  have goesOn := took.goesOn
  have started := took.started
  cases here : r.source with
  | free => simp [here, Source.GoesOn] at goesOn
  | bounded b =>
    rw [here] at goesOn started
    obtain ⟨unfinished, rfl⟩ := goesOn
    have ended : r.atEnd b = true := by
      simp [Reader.atEnd, started b rfl, took.pushed, Reader.depth, took.current, left]
    simp only [Reader.next, here, unfinished, ended, Bool.false_eq_true, if_false, if_true]
    exact ⟨_, rfl⟩

theorem next_spent (took : r.Took none t []) : next.run r = (none, r) := by
  rw [run_next]
  have goesOn := took.goesOn
  cases here : r.source with
  | bounded b => simp [here, Source.GoesOn] at goesOn
  | free => simp only [Reader.next, here, Reader.pull_spent took.pushed took.ahead]

theorem pushBack_at (there : r.At t ts) :
    ∃ r', pushBack.run r = ((), r') ∧ r'.Gives (t :: ts) ∧ r'.source = r.source ∧ r.SameScore r' := by
  have current := there.current
  have behind : 0 < r.index := by
    unfold Reader.current? at current
    split at current
    · cases current
    · omega
  refine ⟨r.giveBack, ?_, ⟨?_, rfl, ?_⟩, rfl, rfl, rfl, rfl, rfl⟩
  · rw [run_pushBack, if_pos behind]
  · have rest := there.ahead
    simp only [Reader.ahead, there.pushed, Bool.false_eq_true, if_false, List.nil_append] at rest
    show r.current?.toList ++ r.tokens.toList.drop r.index = _
    rw [rest]
    rw [current, Option.toList_some, List.singleton_append]
  · show r.current?.isSome
    rw [current, Option.isSome_some]

theorem pushBack_took (took : r.Took limit t ts) :
    ∃ r', pushBack.run r = ((), r') ∧ r'.Ready limit (t :: ts) ∧ r.SameScore r' := by
  obtain ⟨r', run, gives, source, same⟩ := pushBack_at took.toAt
  exact ⟨r', run, gives.ready (source ▸ took.goesOn), same⟩

/-- Tokens with or without a space in front. -/
def Spaced (limit : Option Nat) (ts us : List ScannedToken) : Prop :=
  ts = us ∨ ∃ space, ts = space :: us ∧ space.token.kind = .space ∧ Within limit space.depth

section Loop

variable {α : Type} {step : α → Reading (Turn α)} {a b : α} {r' : Reader}

theorem loop_done (run : (step a).run r = (.done b, r')) : (loop step a).run r = (b, r') := by
  rw [run_loop, Reader.repeated, run]

theorem loop_more (run : (step a).run r = (.more b, r')) (fewer : r'.left < r.left) :
    (loop step a).run r = (loop step b).run r' := by
  rw [run_loop, run_loop, Reader.repeated, run]
  simp only [fewer, if_true]

/-- A loop that leaves spaces out and gives any other token back ends in front of such a token. -/
theorem loop_up_to {us : List ScannedToken} (ready : r.Ready limit us)
    (spaced : Spaced limit us (u :: ts))
    (skips : ∀ {t : Token} {r r' : Reader}, next.run r = (some t, r') → t.kind = .space →
      (step a).run r = (.more a, r'))
    (stops : ∀ {r r₁ r' : Reader}, next.run r = (some u.token, r₁) → pushBack.run r₁ = ((), r') →
      (step a).run r = (.done a, r')) :
    ∃ r', (loop step a).run r = (a, r') ∧ r'.Ready limit (u :: ts) ∧ r.SameScore r' := by
  have front : ∀ {r : Reader}, r.Ready limit (u :: ts) →
      ∃ r', (loop step a).run r = (a, r') ∧ r'.Ready limit (u :: ts) ∧ r.SameScore r' := by
    intro r ready
    obtain ⟨r1, run, took, same⟩ := next_ready ready
    obtain ⟨r2, back, again, still⟩ := pushBack_took took
    exact ⟨r2, loop_done (stops run back), again, same.trans still⟩
  rcases spaced with rfl | ⟨space, rfl, blank, inside⟩
  · exact front ready
  · obtain ⟨r1, run, took, same⟩ := next_ready ready
    obtain ⟨r2, later, again, still⟩ := front (took.ready inside)
    refine ⟨r2, ?_, again, same.trans still⟩
    rw [loop_more (skips run blank) (took.fewer ready), later]

end Loop

theorem left_of_spaced {us : List ScannedToken} (ready : r.Ready limit us)
    (spaced : Spaced limit us (t :: ts)) : ts.length < r.left := by
  rw [ready.left]
  rcases spaced with rfl | ⟨space, rfl, _⟩
  · simp
  · simp only [List.length_cons]
    omega

/-- A token that is neither blank nor comment. -/
def Solid (t : ScannedToken) : Prop :=
  t.token.kind.isSpace = false ∧ t.token.kind.isComment = false

theorem nextItem_ready {us : List ScannedToken} (ready : r.Ready limit us)
    (spaced : Spaced limit us (t :: ts)) (solid : Solid t) :
    ∃ r', nextItem.run r = (some t.token, r') ∧ r'.Took limit t ts ∧ r.SameScore r' := by
  have front : ∀ {r : Reader}, r.Ready limit (t :: ts) →
      ∃ r', nextItem.run r = (some t.token, r') ∧ r'.Took limit t ts ∧ r.SameScore r' := by
    intro r ready
    obtain ⟨r', run, took, same⟩ := next_ready ready
    refine ⟨r', loop_done ?_, took, same⟩
    simp only [run_bind, run, solid.1, solid.2, Bool.or_false, Bool.false_eq_true, if_false]
    rfl
  rcases spaced with rfl | ⟨space, rfl, blank, inside⟩
  · exact front ready
  · obtain ⟨r1, run, took, same⟩ := next_ready ready
    obtain ⟨r2, later, rest⟩ := front (took.ready inside)
    refine ⟨r2, ?_, rest.1, same.trans rest.2⟩
    rw [nextItem, loop_more (b := none) ?_ (took.fewer ready)]
    · exact later
    · simp only [run_bind, run, blank]
      rfl

theorem nextItem_none {r' : Reader} (run : next.run r = (none, r')) :
    nextItem.run r = (none, r') := by
  apply loop_done
  simp only [run_bind, run]
  rfl

section Silent

variable {α β : Type} {x : Reading α}

/-- Nothing but tokens is read. -/
def Silent (x : Reading α) : Prop :=
  ∀ r, (x.run r).2.tree = r.tree ∧ (x.run r).2.language = r.language

theorem Silent.pure (a : α) : Silent (pure a) :=
  fun _ => ⟨rfl, rfl⟩

theorem Silent.bind {k : α → Reading β} (first : Silent x) (next : ∀ a, Silent (k a)) : Silent (x >>= k) := by
  intro r
  have first := first r
  have next := next (x.run r).1 (x.run r).2
  rw [run_bind]
  exact ⟨next.1.trans first.1, next.2.trans first.2⟩

theorem Silent.loop {step : α → Reading (Turn α)} (steps : ∀ a, Silent (step a)) (a : α) :
    Silent (loop step a) := by
  intro r
  refine loop_invariant (S := fun _ r' => r'.tree = r.tree ∧ r'.language = r.language) ⟨rfl, rfl⟩ ?_
    fun _ _ same => same
  rintro a r' ⟨tree, language⟩
  have turn := steps a r'
  exact ⟨turn.1.trans tree, turn.2.trans language⟩

theorem Silent.bounded (silent : Silent x) : Silent (bounded x) := by
  intro r
  have inner := silent { r with source := .bounded ⟨r.depth, false, false, none⟩ }
  show ((Reading.bounded x).run r).2.tree = _ ∧ ((Reading.bounded x).run r).2.language = _
  unfold Reading.bounded within
  simp only [run_bind]
  split <;> exact inner

theorem next_silent : Silent next := by
  have pulled : ∀ r : Reader, r.pull.2.tree = r.tree ∧ r.pull.2.language = r.language := by
    intro r
    unfold Reader.pull
    split
    · exact ⟨rfl, rfl⟩
    · split <;> exact ⟨rfl, rfl⟩
  intro r
  have pulled := pulled r
  rw [run_next]
  unfold Reader.next
  split
  · exact pulled
  · split
    · exact ⟨rfl, rfl⟩
    · split
      · exact ⟨rfl, rfl⟩
      · generalize r.pull = out at pulled
        obtain ⟨found, r'⟩ := out
        cases found <;> exact pulled

theorem pushBack_silent : Silent pushBack := by
  intro r
  rw [run_pushBack]
  split <;> exact ⟨rfl, rfl⟩

theorem nextItem_silent : Silent nextItem := .loop (fun _ => .bind next_silent fun found => by
  cases found with
  | none => exact .pure _
  | some t =>
    dsimp only
    split <;> exact .pure _) _

end Silent

end Reading
end ScoreText
