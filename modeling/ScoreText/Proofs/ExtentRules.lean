import ScoreText.Proofs.Extent

/-! Rules for how far a reading goes: from where a reader stands to where it stands behind what it read. -/
namespace ScoreText

/-- What holds where a turn is the last one, and where it is not. -/
def Turn.Meets {α : Type} (P Q : α → Prop) : Turn α → Prop
  | done a => P a
  | more a => Q a

/-- From where a reader stands a reading leads to where it stands then, with what it gives. -/
def Leads {α : Type} (P : Stand → Prop) (act : Reading α) (Q : α → Stand → Prop) : Prop :=
  ∀ r : Reader, P r.stand → Q (act.run r).1 (act.run r).2.stand

/-- The place among the tokens and the source are left alone. -/
def Still {α : Type} (act : Reading α) : Prop :=
  ∀ r, (act.run r).2.stand = r.stand

namespace Still

variable {α β : Type} {x : Reading α}

theorem pure (a : α) : Still (Pure.pure a) := fun _ => rfl

theorem bind {k : α → Reading β} (first : Still x) (next : ∀ a, Still (k a)) : Still (x >>= k) :=
  fun r => (next _ _).trans (first r)

theorem get {k : Reader → Reading β} (next : ∀ r, Still (k r)) : Still (MonadState.get >>= k) :=
  fun r => next r r

theorem free (still : Still x) : Still (Reading.free x) := by
  intro r
  have same := still { r with source := .free }
  exact congrArg (fun s : Stand => { s with source := r.source }) same

end Still

/-- A reading that does not read from the source of the reader. -/
def Blind {α : Type} (act : Reading α) : Prop :=
  ∀ r source, act.run { r with source } = ((act.run r).1, { (act.run r).2 with source })

namespace Blind

variable {α β : Type} {x : Reading α}

theorem pure (a : α) : Blind (Pure.pure a) := fun _ _ => rfl

theorem bind {k : α → Reading β} (first : Blind x) (next : ∀ a, Blind (k a)) : Blind (x >>= k) := by
  intro r source
  rw [Reading.run_bind, first r source, next]
  rfl

theorem free (x : Reading α) : Blind (Reading.free x) := fun _ _ => rfl

theorem pushBack : Blind Reading.pushBack := by
  intro r source
  rw [Reading.run_pushBack, Reading.run_pushBack]
  dsimp only
  split <;> rfl

theorem free_eq (blind : Blind x) : Reading.free x = x := by
  funext r
  show ((x.run { r with source := .free }).1, { (x.run { r with source := .free }).2 with source := r.source }) = _
  rw [blind r .free]
  exact (blind r r.source).symm

end Blind

namespace Leads

variable {α β : Type} {P P' : Stand → Prop} {x : Reading α} {Q R : α → Stand → Prop} {S : β → Stand → Prop}

theorem pure {a : α} (answer : ∀ s, P s → Q a s) : Leads P (Pure.pure a) Q :=
  fun r here => answer r.stand here

theorem bind {k : α → Reading β} (first : Leads P x Q) (next : ∀ a, Leads (Q a) (k a) S) :
    Leads P (x >>= k) S :=
  fun r here => next _ _ (first r here)

theorem mono (leads : Leads P x Q) (weaker : ∀ a s, Q a s → R a s) : Leads P x R :=
  fun r here => weaker _ _ (leads r here)

theorem before (leads : Leads P x Q) (stronger : ∀ s, P' s → P s) : Leads P' x Q :=
  fun r here => leads r (stronger _ here)

theorem still (still : Still x) : Leads P x fun _ => P := by
  intro r here
  rw [still r]
  exact here

theorem still_bind {k : α → Reading β} (first : Still x) (next : ∀ a, Leads P (k a) S) :
    Leads P (x >>= k) S :=
  bind (still first) next

theorem tree {k : Tree → Reading β} (next : ∀ t, Leads P (k t) S) : Leads P (Reading.tree >>= k) S :=
  fun r here => next r.tree r here

theorem get {k : Reader → Reading β} (next : ∀ r, Leads P (k r) S) : Leads P (MonadState.get >>= k) S :=
  fun r here => next r r here

theorem loop {step : α → Reading (Turn α)} {I : α → Stand → Prop} {a : α}
    (steps : ∀ a, Leads (I a) (step a) fun turn => I turn.value) : Leads (I a) (Reading.loop step a) I := by
  intro r start
  exact Reading.loop_invariant (S := fun a r => I a r.stand) start (fun a r => steps a r) fun _ _ known => known

theorem loop_ended {step : α → Reading (Turn α)} {I : α → Stand → Prop} {a : α}
    (known : ∀ a s, I a s → s.pushed = true → s.current.isSome)
    (steps : ∀ a m, Leads (fun s => I a s ∧ s.ahead.length ≤ m) (step a) fun turn s =>
      turn.Meets (Q · s) fun b => I b s ∧ s.ahead.length < m) : Leads (I a) (Reading.loop step a) Q := by
  intro r start
  rw [Reading.run_loop]
  induction a, r using Reader.repeated.induct step with
  | case1 a r b after done =>
    have ended := steps a _ r ⟨start, Nat.le_refl _⟩
    rw [done] at ended
    rw [Reader.repeated, done]
    exact ended
  | case2 a r b after ran fewer ih =>
    have kept := steps a _ r ⟨start, Nat.le_refl _⟩
    rw [ran] at kept
    rw [Reader.repeated, ran]
    simp only [fewer, if_true]
    exact ih kept.1
  | case3 a r b after ran fewer =>
    have kept := steps a _ r ⟨start, Nat.le_refl _⟩
    rw [ran] at kept
    have less : after.stand.ahead.length < r.stand.ahead.length := kept.2
    rw [← r.left_eq (known a _ start), ← after.left_eq (known b _ kept.1)] at less
    exact absurd less fewer

theorem free (leads : ∀ source, Leads (fun s => s.source = .free ∧ P { s with source }) x fun a s =>
    Q a { s with source }) : Leads P (Reading.free x) Q :=
  fun r here => leads r.source { r with source := .free } ⟨rfl, here⟩

theorem bounded (leads : ∀ source, Leads (fun s => s.source = .bounded ⟨s.depth, false, false, none⟩ ∧
    P { s with source }) x fun a s => Q a { s with source }) :
    Leads P (Reading.bounded x) fun out => Q out.1 := by
  intro r here
  have inner := leads r.source r.entering ⟨rfl, here⟩
  obtain ⟨last, run⟩ : ∃ last, (Reading.bounded x).run r =
      (((x.run r.entering).1, last), { (x.run r.entering).2 with source := r.source }) := Reading.bounded_run rfl
  rw [run]
  exact inner

end Leads

section Next

variable {limit : Option Nat} {rest : List ScannedToken} {m : Nat} {u : ScannedToken} {s : Stand} {r : Reader}

/-- A source that goes on ends where the region does, or with the text. -/
theorem Reader.next_at_end (goesOn : r.source.GoesOn limit)
    (started : ∀ b, r.source = .bounded b → b.started = true ∨ Within limit r.depth)
    (pushed : r.pushed = false) (spent : r.ahead = [] ∨ ¬ Within limit r.depth) :
    r.next = (none, r) ∨ ∃ b : Bound, r.next = (none, { r with source := .bounded { b with finished := true } }) := by
  cases source : r.source with
  | free =>
    rw [source] at goesOn
    cases limit with
    | some d => exact goesOn.elim
    | none =>
      have ahead : r.ahead = [] := spent.resolve_right fun outside => outside fun _ => nofun
      left
      simp only [Reader.next, source, Reader.pull_spent pushed ahead]
  | bounded b =>
    rw [source] at goesOn
    cases limit with
    | none => exact goesOn.elim
    | some d =>
      obtain ⟨unfinished, rfl⟩ := goesOn
      refine .inr ⟨b, ?_⟩
      -- if the source does not notice the end, it has not begun, and nothing is left of the text
      cases ends : r.atEnd b with
      | true => simp only [Reader.next, source, unfinished, ends, Bool.false_eq_true, if_false, if_true]
      | false =>
        have ahead : r.ahead = [] := by
          refine spent.resolve_right fun outside => ?_
          have begun : b.started = true := (started b source).resolve_right outside
          have lower : r.depth < b.depth := by
            refine Nat.lt_of_not_le fun deep => outside ?_
            rintro _ ⟨⟩
            exact deep
          simp [Reader.atEnd, begun, lower, pushed] at ends
        simp only [Reader.next, source, unfinished, ends, Reader.pull_spent pushed ahead, Bool.false_eq_true,
          if_false]

namespace Stand

theorem UpTo.ended (place : s.UpTo limit rest m) (pushed : s.pushed = false)
    (spent : s.ahead = [] ∨ ¬ Within limit s.depth) : s.Ended rest := by
  have leaves := place.leaves
  cases current : s.current with
  | none =>
    obtain ⟨_, rfl⟩ := place.known current
    have ahead : s.ahead = [] := spent.resolve_right fun outside => outside fun _ => nofun
    have nothing : rest = [] := by simpa [facing, pushed, current, ahead, leaving] using leaves.symm
    subst nothing
    exact ⟨pushed, ahead, by simp⟩
  | some u =>
    rw [facing_of_current pushed current] at leaves
    by_cases inside : Within limit u.depth
    · have ahead : s.ahead = [] := by
        refine spent.resolve_right fun outside => outside ?_
        rwa [depth_of_current current]
      rw [leaving_cons_of_within inside, ahead] at leaves
      subst leaves
      exact ⟨pushed, ahead, by simp [leaving]⟩
    · rw [leaving_cons_of_not inside] at leaves
      subst leaves
      refine ⟨pushed, rfl, ?_⟩
      rintro _ ⟨⟩
      exact current

theorem In.at_end (here : r.stand.In limit rest m) (pushed : r.pushed = false)
    (spent : r.ahead = [] ∨ ¬ Within limit r.depth) :
    Got limit rest m (Reader.next r).1 (Reader.next r).2.stand := by
  have stays : ∀ source, Serves limit (Reader.stand { r with source }) →
      Got limit rest m none (Reader.stand { r with source }) := fun source serves =>
    ⟨⟨here.place.switch source, serves⟩, (here.place.switch source).ended pushed spent⟩
  cases here.source with
  | spent b source finished _ _ =>
    have source : r.source = .bounded b := source
    simp only [Reader.next, source, finished, if_true]
    exact stays r.source (.spent b source finished pushed spent)
  | going goesOn started =>
    rcases Reader.next_at_end goesOn started pushed spent with run | ⟨b, run⟩
    · rw [run]
      exact stays r.source here.source
    · rw [run]
      exact stays _ (.spent _ rfl rfl pushed spent)

theorem In.goes_on {ts : List ScannedToken} (here : r.stand.In limit rest m) (ahead : r.ahead = u :: ts)
    (inside : r.pushed = true ∨ Within limit r.depth) :
    Got limit rest m (Reader.next r).1 (Reader.next r).2.stand := by
  have known : r.pushed = true → r.current?.isSome := by
    intro pushed
    cases current : r.current? with
    | some v => rfl
    | none =>
      have unpushed : r.pushed = false := (here.place.known current).1
      simp [pushed] at unpushed
  have goesOn : r.source.GoesOn limit := by
    cases here.source with
    | going goesOn _ => exact goesOn
    | spent b _ _ pushed spent =>
      have pushed : r.pushed = false := pushed
      rcases spent with spent | outside
      · cases ahead.symm.trans spent
      · exact absurd (inside.resolve_left (by simp [pushed])) outside
  obtain ⟨r', run, took, _⟩ := Reading.next_ready (r := r) ⟨ahead, known, goesOn, inside⟩
  have run : Reader.next r = (some u.token, r') := run
  have behind : r'.stand.ahead = ts := took.ahead
  have facing' : r'.stand.facing = u :: ts := behind ▸ facing_of_current took.pushed took.current
  -- the tokens from the new one on are calm, and they leave the region where they did
  have tokens : (∃ last, Within limit last ∧ Calm limit last (u :: ts)) ∧ leaving limit (u :: ts) = rest := by
    have calm := here.place.calm
    have leaves := here.place.leaves
    cases pushed : r.pushed with
    | true =>
      have same : r.stand.facing = u :: ts := by simpa [facing, Reader.stand, pushed] using ahead
      exact ⟨same ▸ calm, same ▸ leaves⟩
    | false =>
      cases current : r.current? with
      | none =>
        have same : r.stand.facing = u :: ts := by simpa [facing, Reader.stand, pushed, current] using ahead
        exact ⟨same ▸ calm, same ▸ leaves⟩
      | some v =>
        have same : r.stand.facing = v :: u :: ts := ahead ▸ facing_of_current pushed current
        have within : Within limit v.depth := by
          have within := inside.resolve_left (by simp [pushed])
          rwa [Reader.depth, current] at within
        rw [same] at calm leaves
        obtain ⟨_, _, calm⟩ := calm
        exact ⟨⟨v.depth, within, calm.2.2.2 within⟩, (leaving_cons_of_within within).symm.trans leaves⟩
  have short : r.stand.ahead.length ≤ m := here.place.short
  rw [show r.stand.ahead = u :: ts from ahead, List.length_cons] at short
  have current : r'.stand.current = some u := took.current
  rw [run]
  refine ⟨u, ts.length, rfl, short, took.pushed, current, ⟨by simp [current], ?_, ?_, ?_⟩, took.goesOn, took.started⟩
  · exact facing' ▸ tokens.1
  · exact facing' ▸ tokens.2
  · rw [behind]

end Stand

namespace Reading

open Stand

theorem next_leads : Leads (In limit rest m) next (Got limit rest m) := by
  intro r here
  by_cases ends : r.pushed = false ∧ (r.ahead = [] ∨ ¬ Within limit r.depth)
  · exact here.at_end ends.1 ends.2
  · have inside : r.pushed = true ∨ Within limit r.depth := by
      cases pushed : r.pushed with
      | true => exact .inl rfl
      | false => exact .inr (Decidable.not_not.mp fun outside => ends ⟨pushed, .inr outside⟩)
    cases ahead : r.ahead with
    | cons u ts => exact here.goes_on ahead inside
    | nil =>
      have pushed : r.pushed = false := by
        cases pushed : r.pushed with
        | false => rfl
        | true =>
          cases current : r.current? with
          | none => exact pushed.symm.trans (here.place.known current).1
          | some v => simp [Reader.ahead, pushed, current] at ahead
      exact here.at_end pushed (.inl ahead)

/-- A token that is given back does not change what the reader faces. -/
theorem pushBack_place (place : r.stand.UpTo limit rest m) (pushed : r.pushed = false)
    (current : r.current? = some u) :
    (pushBack.run r).2.stand.UpTo limit rest (m + 1) ∧ (pushBack.run r).2.source = r.source := by
  have behind : 0 < r.index := by
    unfold Reader.current? at current
    split at current
    · cases current
    · omega
  have run : (pushBack.run r).2 = r.giveBack := if_pos behind
  have again : r.giveBack.current? = some u := current
  have ahead : r.giveBack.stand.ahead = u :: r.stand.ahead := by
    show r.giveBack.current?.toList ++ r.tokens.toList.drop r.index = u :: r.stand.ahead
    simp [again, Reader.stand, Reader.ahead, pushed]
  have facing : r.giveBack.stand.facing = r.stand.facing := by
    have before : r.stand.facing = u :: r.stand.ahead := facing_of_current pushed current
    rw [before]
    exact ahead
  rw [run]
  refine ⟨⟨by simp [Reader.stand, again], facing ▸ place.calm, facing ▸ place.leaves, ?_⟩, rfl⟩
  rw [ahead]
  exact Nat.succ_le_succ place.short

theorem pushBack_leads : Leads (Taken limit rest m u) pushBack fun _ => In limit rest (m + 1) := by
  intro r taken
  obtain ⟨place, source⟩ := pushBack_place taken.place taken.pushed taken.current
  have source : (pushBack.run r).2.stand.source = r.source := source
  refine ⟨place, .going (source ▸ taken.goesOn) fun b same => .inl (taken.started b ?_)⟩
  exact source.symm.trans same

theorem next_free_none (free : r.source = .free) (pushed : r.pushed = false) (ahead : r.ahead = []) :
    next.run r = (none, r) := by
  rw [run_next]
  simp [Reader.next, free, Reader.pull_spent pushed ahead]

/-- A token behind one in the region is taken whatever the source. -/
theorem next_free_some {v : ScannedToken} {vs : List ScannedToken} {source : Source} (free : r.source = .free)
    (taken : Taken limit rest m u { r.stand with source }) (inside : Within limit u.depth)
    (ahead : r.ahead = v :: vs) : ∃ r', next.run r = (some v.token, r') ∧ r'.source = .free ∧
      Taken limit rest vs.length v { r'.stand with source } ∧ r'.ahead = vs := by
  have pushed : r.pushed = false := taken.pushed
  obtain ⟨r', pull, behind, kept, current, same, _⟩ :=
    Reader.pull_ahead ahead fun given_back => by simp [pushed] at given_back
  obtain ⟨calm, leaves⟩ := taken.more inside
  have calm : Calm limit u.depth r.ahead := calm
  have leaves : leaving limit r.ahead = rest := leaves
  have facing : Stand.facing { r'.stand with source } = r.ahead := by
    have front : r'.stand.ahead = vs := behind
    rw [facing_of_current (u := v) kept current, ahead]
    exact congrArg (v :: ·) front
  refine ⟨r', ?_, same.trans free, ⟨kept, current, ⟨?_, ?_, ?_, ?_⟩, taken.goesOn, taken.started⟩, behind⟩
  · rw [run_next]
    simp [Reader.next, free, pull]
  · simp [Reader.stand, current]
  · exact ⟨u.depth, inside, facing ▸ calm⟩
  · exact facing ▸ leaves
  · exact Nat.le_of_eq (congrArg List.length behind)

theorem free_next_leads (opens : u.token.opens) :
    Leads (Taken limit rest m u) (free next) (Got limit rest m) := by
  refine .free fun source r ⟨free, taken⟩ => ?_
  have inside := taken.within opens
  cases ahead : r.ahead with
  | nil =>
    rw [next_free_none free taken.pushed ahead]
    exact taken.spent inside ahead
  | cons v vs =>
    obtain ⟨r', run, _, next, _⟩ := next_free_some free taken inside ahead
    have short : r.ahead.length ≤ m := taken.place.short
    rw [ahead, List.length_cons] at short
    rw [run]
    exact ⟨v, vs.length, rfl, short, next⟩

/-- Blanks in the region are left out whatever the source. -/
theorem nextItem_free {source : Source} (free : r.source = .free)
    (taken : Taken limit rest m u { r.stand with source }) (inside : Within limit u.depth)
    (blanks : ∀ x ∈ r.ahead.takeWhile (·.isBlank), Within limit x.depth) :
    Got limit rest m (nextItem.run r).1 { (nextItem.run r).2.stand with source } := by
  generalize ahead : r.ahead = ts at blanks
  induction ts generalizing r u m with
  | nil =>
    rw [nextItem_none (next_free_none free taken.pushed ahead)]
    exact taken.spent inside ahead
  | cons v vs ih =>
    obtain ⟨r', run, free', next, behind⟩ := next_free_some free taken inside ahead
    have short : r.ahead.length ≤ m := taken.place.short
    rw [ahead, List.length_cons] at short
    cases blank : v.isBlank with
    | false =>
      have found : nextItem.run r = (some v.token, r') := by
        apply loop_done
        rw [run_bind, run]
        have blank : (v.token.kind.isSpace || v.token.kind.isComment) = false := blank
        simp only [blank, Bool.false_eq_true, if_false]
        rfl
      rw [found]
      exact ⟨v, vs.length, rfl, short, next⟩
    | true =>
      have fewer : r'.left < r.left := by
        have pushed : r.pushed = false := taken.pushed
        have pushed' : r'.pushed = false := next.pushed
        rw [r.left_eq (by simp [Reader.stand, pushed]), r'.left_eq (by simp [Reader.stand, pushed'])]
        show r'.ahead.length < r.ahead.length
        rw [ahead, behind]
        exact Nat.lt_succ_self _
      have again : nextItem.run r = nextItem.run r' := by
        refine loop_more ?_ fewer
        rw [run_bind, run]
        have blank : (v.token.kind.isSpace || v.token.kind.isComment) = true := blank
        simp only [blank, if_true]
        rfl
      rw [List.takeWhile_cons, if_pos blank] at blanks
      rw [again]
      refine Got.mono (ih free' next (blanks v (by simp)) behind fun x member => ?_) (Nat.le_of_lt short)
      exact blanks x (by simp [member])

/-- Behind a token that looks ahead the next item is in the region, or it is the token that leaves it. -/
theorem free_nextItem_leads (opens : u.token.opens) (looks : u.token.looksAhead) :
    Leads (Taken limit rest m u) (free nextItem) (Got limit rest m) := by
  refine .free fun source r ⟨free, taken⟩ => ?_
  have inside := taken.within opens
  obtain ⟨_, _, calm⟩ := taken.place.calm
  rw [facing_of_current taken.pushed taken.current] at calm
  exact nextItem_free free taken inside fun x member => inside.trans (calm.2.2.1 looks x member)

end Reading

end Next

section Rules

open Stand

variable {α : Type} {limit : Option Nat} {rest : List ScannedToken} {m j : Nat} {u : ScannedToken}
  {source : Source} {x : Reading α}

namespace Leads

theorem got {k : Option Token → Reading α} {Q : α → Stand → Prop}
    (none : Leads (fun s => s.In limit rest m ∧ s.Ended rest) (k none) Q)
    (some : ∀ v j, j < m → Leads (Taken limit rest j v) (k (some v.token)) Q) (found : Option Token) :
    Leads (Got limit rest m found) (k found) Q := by
  cases found with
  | none => exact none
  | some t =>
    rintro r ⟨v, j, rfl, less, taken⟩
    exact some v j less r taken

theorem next {k : Option Token → Reading α} {Q : α → Stand → Prop}
    (none : Leads (fun s => s.In limit rest m ∧ s.Ended rest) (k none) Q)
    (some : ∀ v j, j < m → Leads (Taken limit rest j v) (k (some v.token)) Q) :
    Leads (In limit rest m) (Reading.next >>= k) Q :=
  .bind Reading.next_leads (.got none some)

/-- A loop that asks for a token in each turn. What is known of its state is known for fewer tokens, too. -/
theorem asking {ask : Reading (Option Token)} {k : α → Option Token → Reading (Turn α)} {a : α}
    {I : α → Nat → Prop} {Q : α → Stand → Prop} (asks : ∀ m, Leads (In limit rest m) ask (Got limit rest m))
    (start : I a m) (fewer : ∀ a i j, i ≤ j → I a j → I a i)
    (none : ∀ a j, j ≤ m → I a j → Leads (fun s => s.In limit rest j ∧ s.Ended rest) (k a none) fun turn s =>
      turn.Meets (Q · s) fun _ => False)
    (some : ∀ a v j, j < m → Leads (Taken limit rest j v) (k a (some v.token)) fun turn s =>
      turn.Meets (Q · s) fun b => I b j ∧ s.In limit rest j) :
    Leads (In limit rest m) (Reading.loop (fun a => ask >>= k a) a) Q := by
  refine .before (P := fun s => ∃ j ≤ m, I a j ∧ s.In limit rest j) ?_ fun s here =>
    ⟨m, Nat.le_refl m, start, here⟩
  refine .loop_ended (I := fun a s => ∃ j ≤ m, I a j ∧ s.In limit rest j)
    (fun _ _ ⟨_, _, _, here⟩ => here.place.known_pushed) fun a n => ?_
  rintro r ⟨⟨j, le, known, here⟩, short⟩
  have close : r.stand.In limit rest (min j n) := here.bound (Nat.le_min.mpr ⟨here.place.short, short⟩)
  refine Leads.bind (asks _) (.got (Q := fun (turn : Turn α) s => turn.Meets (Q · s) fun b =>
    (∃ j ≤ m, I b j ∧ s.In limit rest j) ∧ s.ahead.length < n) ?_ fun v i less => ?_) r close
  · refine (none a _ (Nat.le_trans (Nat.min_le_left j n) le) (fewer a _ j (Nat.min_le_left j n) known)).mono ?_
    intro turn s ended
    cases turn with
    | done b => exact ended
    | more b => exact ended.elim
  · have below := Nat.lt_min.mp less
    refine (some a v i (Nat.lt_of_lt_of_le below.1 le)).mono fun turn s more => ?_
    cases turn with
    | done b => exact more
    | more b =>
      have least : i ≤ m := Nat.le_of_lt (Nat.lt_of_lt_of_le below.1 le)
      exact ⟨⟨i, least, more⟩, Nat.lt_of_le_of_lt more.2.place.short below.2⟩

theorem through {ask : Reading (Option Token)} {k : α → Option Token → Reading (Turn α)} {a : α}
    (asks : ∀ m, Leads (In limit rest m) ask (Got limit rest m)) (ended : ∀ a, ∃ b, k a none = Pure.pure (.done b))
    (steps : ∀ a v j, j < m → Leads (Taken limit rest j v) (k a (some v.token)) fun turn s =>
      turn.Meets (fun _ => False) fun _ => s.In limit rest j) :
    Leads (In limit rest m) (Reading.loop (fun a => ask >>= k a) a) fun _ s =>
      s.In limit rest m ∧ s.Ended rest := by
  refine asking (I := fun _ _ => True) asks trivial (fun _ _ _ _ _ => trivial) (fun a j le _ => ?_)
    fun a v j less => (steps a v j less).mono fun turn s more => ?_
  · obtain ⟨b, same⟩ := ended a
    rw [same]
    exact .pure fun s here => ⟨here.1.mono le, here.2⟩
  · cases turn with
    | done b => exact more.elim
    | more b => exact ⟨trivial, more⟩

end Leads

theorem Reading.nextItem_leads : Leads (In limit rest m) Reading.nextItem (Got limit rest m) := by
  refine .asking (I := fun _ _ => True) (fun _ => Reading.next_leads) trivial (fun _ _ _ _ _ => trivial)
    (fun _ j le _ => .pure fun s here => ⟨here.1.mono le, here.2⟩) fun _ v j less => ?_
  dsimp only
  split
  · exact .pure fun s taken => ⟨trivial, taken.in⟩
  · exact .pure fun s taken => ⟨v, j, rfl, less, taken⟩

namespace Leads

theorem nextItem {k : Option Token → Reading α} {Q : α → Stand → Prop}
    (none : Leads (fun s => s.In limit rest m ∧ s.Ended rest) (k none) Q)
    (some : ∀ v j, j < m → Leads (Taken limit rest j v) (k (some v.token)) Q) :
    Leads (In limit rest m) (Reading.nextItem >>= k) Q :=
  .bind Reading.nextItem_leads (.got none some)

theorem within {P : Stand → Prop} (leads : Leads P x fun _ => In limit rest j) (le : j ≤ m) :
    Leads P x fun _ => In limit rest m :=
  leads.mono fun _ _ here => here.mono le

theorem pushBack {k : Unit → Reading α} {Q : α → Stand → Prop} (less : j < m)
    (more : Leads (In limit rest m) (k ()) Q) : Leads (Taken limit rest j u) (Reading.pushBack >>= k) Q :=
  .bind Reading.pushBack_leads fun _ => more.before fun _ here => here.mono less

theorem pushBack_last (less : j < m) : Leads (Taken limit rest j u) Reading.pushBack fun _ => In limit rest m :=
  Reading.pushBack_leads.within less

theorem tame {Q : α → Stand → Prop} (leads : u.token.isTame → Leads (Taken limit rest m u) x Q) :
    Leads (Taken limit rest m u) x Q :=
  fun r taken => leads taken.tame r taken

theorem idle (still : Still x) : Leads (Taken limit rest m u) x fun _ => In limit rest m :=
  (Leads.still still).mono fun _ _ taken => taken.in

/-- What is read from a source that is bounded by the region of a token. -/
theorem bounded_in {Q : α → Stand → Prop} (inner : ∀ source, Leads (In (some u.depth) rest m) x fun a s =>
    Q a { s with source }) :
    Leads (Apart rest m u source) (Reading.bounded x) fun out s => Q out.1 s ∧ s.source = source := by
  refine .bounded (Q := fun a s => Q a s ∧ s.source = source) fun outer r ⟨entered, apart⟩ => ?_
  have same : outer = source := apart.source
  subst same
  have current : r.stand.current = some u := apart.current
  have depth := depth_of_current current
  refine ⟨inner outer r ⟨apart.place.switch r.source, .going ?_ fun b _ => .inr ?_⟩, rfl⟩
  · rw [entered, depth]
    exact ⟨rfl, rfl⟩
  · rw [depth]
    exact within_self u

theorem free_apart (leads : Leads (Apart rest m u .free) x fun _ => Done rest m u .free) :
    Leads (Apart rest m u source) (Reading.free x) fun _ => Done rest m u source := by
  refine .free fun outer r ⟨free, apart⟩ => ?_
  have same : outer = source := apart.source
  have done := leads r ⟨apart.pushed, apart.current, apart.place.switch r.stand.source, free⟩
  exact ⟨done.place.switch outer, same⟩

/-- A region that a token has opened is read up to its end, or not as far. -/
theorem region (inner : Leads (In (some u.depth) rest m) x fun _ => In (some u.depth) rest m) :
    Leads (Apart rest m u source) (Reading.bounded x) fun _ => Done rest m u source :=
  (bounded_in (Q := fun _ => UpTo (some u.depth) rest m) fun source =>
    inner.mono fun _ _ here => here.place.switch source).mono fun _ _ done => ⟨done.1, done.2⟩

theorem whole_region (inner : Leads (In (some u.depth) rest m) x fun _ s =>
    s.In (some u.depth) rest m ∧ s.Ended rest) :
    Leads (Apart rest m u source) (Reading.bounded x) fun _ s => s.Done rest m u source ∧ s.Ended rest :=
  (bounded_in (Q := fun _ s => s.UpTo (some u.depth) rest m ∧ s.Ended rest) fun source =>
    inner.mono fun _ _ here => ⟨here.1.place.switch source, here.2.pushed, here.2.ahead, here.2.current⟩).mono
    fun _ _ done => ⟨⟨done.1.1, done.2⟩, done.1.2⟩

/-- What reads a region that a token has opened stays in the region of the source. -/
theorem enclosed (opens : u.token.opens)
    (reads : ∀ rest source, Leads (Apart rest m u source) x fun _ => Done rest m u source) :
    Leads (Taken limit rest m u) x fun _ => In limit rest m := by
  intro r taken
  have inside := taken.within opens
  exact taken.resume inside (reads _ _ r (taken.apart inside))

end Leads

end Rules

section Edit

open Reading

variable {id : ItemId}

theorem add_still {kind : ItemKind} {position : Nat} {token : Option Token} : Still (add kind position token) :=
  fun _ => rfl

theorem addFor_still {kind : ItemKind} {t : Token} : Still (addFor kind t) :=
  fun _ => rfl

theorem update_still {f : Item → Item} : Still (update id f) :=
  fun _ => rfl

theorem setTokens_still {tokens : List Token} : Still (setTokens id tokens) :=
  fun _ => rfl

theorem addToken_still {token : Option Token} : Still (addToken id token) :=
  fun _ => rfl

theorem setDetails_still {details : Details} : Still (setDetails id details) :=
  fun _ => rfl

theorem append_still {child : ItemId} : Still (append id child) :=
  fun _ => rfl

theorem appendIf_still {child : Option ItemId} : Still (appendIf id child) := by
  cases child with
  | none => exact .pure ()
  | some c => exact append_still

theorem appendAll_still {children : List ItemId} : Still (appendAll id children) := by
  induction children with
  | nil => exact .pure ()
  | cons c children ih => exact .bind append_still fun _ => ih

end Edit

end ScoreText
