import ScoreText.Proofs.Gathering

/-! How far a reading goes. A token that lowers the number of open regions leaves some of them, and what is
read from a source that is bounded by one of these regions ends there. What is read on the way stays in the
region, too, as long as each token of it only reads from its own source or from a region that it opens. -/
namespace ScoreText

namespace Token

/-- Whether an item that starts with a token reads no more than its source has: it does not look for a value
in all tokens that remain. -/
def isTame (t : Token) : Bool :=
  match t.kind with
  | .lily .name | .lily .contextProperty | .lily .paperVariable | .lily .layoutVariable
  | .lily .headerVariable | .lily .override | .lily .tweak | .lily .lyricMode | .lily .noteMode
  | .lily .chordMode | .lily .drumMode | .lily .figureMode => false
  | .lily .command | .lily .pitchCommand | .lily .keyword | .lily .userCommand =>
    !(["\\appendToTag", "\\pushToTag", "\\tag", "\\keepWithTag", "\\removeWithTag", "\\partCombine",
      "\\partcombine"].contains t.text)
  | _ => true

/-- Whether what starts with a token looks at the token behind it, whatever the source. -/
def looksAhead (t : Token) : Bool :=
  t.kind == .lily .direction || t.kind == .lily .simultaneousOrSequentialCommand

/-- Whether a token of LilyPond input starts something that goes on to the end of a region, or looks ahead. -/
def opensLily (k : Lily.Kind) (t : Token) : Bool :=
  match k with
  | .openBracket | .sequentialStart | .openSimultaneous | .simultaneousStart | .chordStart
  | .stringQuotedStart | .schemeStart | .chordSeparator | .tremoloColon | .direction
  | .simultaneousOrSequentialCommand | .unset | .revert | .new | .context | .change | .tempo | .markup
  | .markupLines | .markupList | .markupScore | .openBracketMarkup => true
  | .markupCommand => Lily.Words.markupArguments? (Lily.commandName t.text.toList) != some 0
  | _ => false

/-- Whether what starts with a token goes on to the end of a region, or looks ahead. -/
def opens (t : Token) : Bool :=
  match t.kind with
  | .lily k => t.opensLily k
  | .scheme .quote | .scheme .openParen | .scheme .vectorStart | .scheme .stringQuotedStart
  | .scheme .lilyPondStart => true
  | _ => false

end Token

def ScannedToken.isBlank (t : ScannedToken) : Bool :=
  t.token.kind.isSpace || t.token.kind.isComment

instance (limit : Option Nat) (depth : Nat) : Decidable (Within limit depth) :=
  inferInstanceAs (Decidable (∀ d ∈ limit, d ≤ depth))

/-- The tokens from the one on that leaves the region of a limit. -/
def leaving (limit : Option Nat) (ts : List ScannedToken) : List ScannedToken :=
  ts.dropWhile fun t => decide (Within limit t.depth)

/-- The tokens in a region, up to the one that leaves it, only read on in regions. The first of them stands
behind a token with `last` open regions. A token that leaves regions does not open another one. -/
def Calm (limit : Option Nat) : Nat → List ScannedToken → Prop
  | _, [] => True
  | last, t :: ts => t.token.isTame ∧ (t.depth < last → t.token.opens = false) ∧
      (t.token.looksAhead → ∀ x ∈ ts.takeWhile (·.isBlank), t.depth ≤ x.depth) ∧
      (Within limit t.depth → Calm limit t.depth ts)

section Calm

variable {limit : Option Nat} {d last : Nat} {u v : ScannedToken} {ts us vs : List ScannedToken}

theorem leaving_cons_of_within (inside : Within limit u.depth) : leaving limit (u :: us) = leaving limit us := by
  simp [leaving, inside]

theorem leaving_cons_of_not (outside : ¬ Within limit u.depth) : leaving limit (u :: us) = u :: us := by
  simp [leaving, outside]

theorem Within.trans (outer : Within limit d) (inner : d ≤ last) : Within limit last :=
  fun e member => Nat.le_trans (outer e member) inner

/-- What leaves an inner region last leaves the outer one. -/
theorem leaving_leaving (outer : Within limit d) (ts : List ScannedToken) :
    leaving limit (leaving (some d) ts) = leaving limit ts := by
  induction ts with
  | nil => rfl
  | cons t ts ih =>
    by_cases inside : Within (some d) t.depth
    · have within : Within limit t.depth := outer.trans (inside d rfl)
      rw [leaving_cons_of_within inside, leaving_cons_of_within within, ih]
    · rw [leaving_cons_of_not inside]

theorem Calm.inner (calm : Calm limit last ts) (outer : Within limit d) : Calm (some d) last ts := by
  induction ts generalizing last with
  | nil => trivial
  | cons t ts ih =>
    obtain ⟨tame, steady, ahead, more⟩ := calm
    exact ⟨tame, steady, ahead, fun inside => ih (more (outer.trans (inside d rfl)))⟩

theorem Calm.behind (calm : Calm limit last ts) (outer : Within limit d)
    (left : leaving (some d) ts = u :: us) (goes_on : Within limit u.depth) : Calm limit u.depth us := by
  induction ts generalizing last with
  | nil => cases left
  | cons t ts ih =>
    obtain ⟨_, _, _, more⟩ := calm
    by_cases inside : Within (some d) t.depth
    · exact ih (more (outer.trans (inside d rfl))) ((leaving_cons_of_within inside).symm.trans left)
    · rw [leaving_cons_of_not inside] at left
      cases left
      exact more goes_on

/-- An inner region is calm within an outer one if the outer one is calm behind it. -/
theorem Calm.outer (calm : Calm (some d) last ts) (behind : ∀ u us, leaving (some d) ts = u :: us →
    Within limit u.depth → Calm limit u.depth us) : Calm limit last ts := by
  induction ts generalizing last with
  | nil => trivial
  | cons t ts ih =>
    obtain ⟨tame, steady, ahead, more⟩ := calm
    refine ⟨tame, steady, ahead, fun within => ?_⟩
    by_cases inside : Within (some d) t.depth
    · exact ih (more inside) fun u us left => behind u us ((leaving_cons_of_within inside).trans left)
    · exact behind t ts (leaving_cons_of_not inside) within

end Calm

/-- Where a reader stands: the tokens ahead of it, the one that it took last, and its source. -/
structure Stand where
  ahead : List ScannedToken
  pushed : Bool
  current : Option ScannedToken
  source : Source

def Reader.stand (r : Reader) : Stand :=
  ⟨r.ahead, r.pushed, r.current?, r.source⟩

theorem Reader.left_eq (r : Reader) (known : r.stand.pushed = true → r.stand.current.isSome) :
    r.left = r.stand.ahead.length := by
  show r.left = r.ahead.length
  cases pushed : r.pushed with
  | false => simp [Reader.ahead, Reader.left, pushed]
  | true =>
    obtain ⟨t, current⟩ := Option.isSome_iff_exists.mp (known pushed)
    have current : r.current? = some t := current
    simp [Reader.ahead, Reader.left, pushed, current]

namespace Stand

variable {limit : Option Nat} {rest : List ScannedToken} {m n : Nat} {u : ScannedToken} {source : Source}
  {s s' : Stand}

def depth (s : Stand) : Nat :=
  (s.current.map (·.depth)).getD 1

/-- The tokens from the one on that was taken last. -/
def facing (s : Stand) : List ScannedToken :=
  if s.pushed then s.ahead else s.current.toList ++ s.ahead

/-- In a region or just behind it, with no more than `m` tokens to come. The rest begins with the token that
leaves the region. -/
structure UpTo (limit : Option Nat) (rest : List ScannedToken) (m : Nat) (s : Stand) : Prop where
  known : s.current = none → s.pushed = false ∧ limit = none
  calm : ∃ last, Within limit last ∧ Calm limit last s.facing
  leaves : leaving limit s.facing = rest
  short : s.ahead.length ≤ m

/-- The source of a reader goes on up to a limit, or it has come to its end. -/
inductive Serves (limit : Option Nat) (s : Stand) : Prop
  | going (goesOn : s.source.GoesOn limit)
      (started : ∀ b, s.source = .bounded b → b.started = true ∨ Within limit s.depth)
  | spent (b : Bound) (source : s.source = .bounded b) (finished : b.finished = true)
      (pushed : s.pushed = false) (spent : s.ahead = [] ∨ ¬ Within limit s.depth)

/-- Reading from a source that is bounded by a region. -/
structure In (limit : Option Nat) (rest : List ScannedToken) (m : Nat) (s : Stand) : Prop where
  place : s.UpTo limit rest m
  source : s.Serves limit

/-- A token has just been taken from a source that is bounded by a region. -/
structure Taken (limit : Option Nat) (rest : List ScannedToken) (m : Nat) (u : ScannedToken) (s : Stand) :
    Prop where
  pushed : s.pushed = false
  current : s.current = some u
  place : s.UpTo limit rest m
  goesOn : s.source.GoesOn limit
  started : ∀ b, s.source = .bounded b → b.started = true

/-- A token has just been taken from some source. -/
structure Apart (rest : List ScannedToken) (m : Nat) (u : ScannedToken) (source : Source) (s : Stand) :
    Prop where
  pushed : s.pushed = false
  current : s.current = some u
  place : s.UpTo (some u.depth) rest m
  source : s.source = source

/-- Behind what was read of the region that a token has opened. -/
structure Done (rest : List ScannedToken) (m : Nat) (u : ScannedToken) (source : Source) (s : Stand) :
    Prop where
  place : s.UpTo (some u.depth) rest m
  source : s.source = source

/-- Nothing of a region is left: its last token has just been taken, or there are no more tokens. -/
structure Ended (rest : List ScannedToken) (s : Stand) : Prop where
  pushed : s.pushed = false
  ahead : s.ahead = rest.tail
  current : ∀ u ∈ rest.head?, s.current = some u

/-- What is known of a token that was asked for. -/
def Got (limit : Option Nat) (rest : List ScannedToken) (m : Nat) : Option Token → Stand → Prop
  | none, s => s.In limit rest m ∧ s.Ended rest
  | some t, s => ∃ u k, u.token = t ∧ k < m ∧ s.Taken limit rest k u

theorem UpTo.bound (place : s.UpTo limit rest m) (short : s.ahead.length ≤ n) : s.UpTo limit rest n :=
  ⟨place.known, place.calm, place.leaves, short⟩

theorem UpTo.known_pushed (place : s.UpTo limit rest m) : s.pushed = true → s.current.isSome := by
  intro pushed
  cases current : s.current with
  | some u => rfl
  | none => exact absurd (place.known current).1 (by simp [pushed])

theorem UpTo.switch (place : s.UpTo limit rest m) (source : Source) : UpTo limit rest m { s with source } :=
  ⟨place.known, place.calm, place.leaves, place.short⟩

theorem In.bound (here : s.In limit rest m) (short : s.ahead.length ≤ n) : s.In limit rest n :=
  ⟨here.place.bound short, here.source⟩

theorem In.mono (here : s.In limit rest m) (le : m ≤ n) : s.In limit rest n :=
  here.bound (Nat.le_trans here.place.short le)

theorem Taken.mono (taken : s.Taken limit rest m u) (le : m ≤ n) : s.Taken limit rest n u :=
  { taken with place := taken.place.bound (Nat.le_trans taken.place.short le) }

theorem Got.mono {found : Option Token} (got : Got limit rest m found s) (le : m ≤ n) :
    Got limit rest n found s := by
  cases found with
  | none => exact ⟨got.1.mono le, got.2⟩
  | some t =>
    obtain ⟨u, k, same, less, taken⟩ := got
    exact ⟨u, k, same, Nat.lt_of_lt_of_le less le, taken⟩

theorem facing_of_current (pushed : s.pushed = false) (current : s.current = some u) :
    s.facing = u :: s.ahead := by
  simp [facing, pushed, current]

theorem depth_of_current (current : s.current = some u) : s.depth = u.depth := by
  simp [depth, current]

theorem within_self (u : ScannedToken) : Within (some u.depth) u.depth := by
  rintro _ ⟨⟩
  exact Nat.le_refl _

theorem Taken.in (taken : s.Taken limit rest m u) : s.In limit rest m where
  place := taken.place
  source := .going taken.goesOn fun b same => .inl (taken.started b same)

/-- A token that opens a region does not leave the one of the source. -/
theorem Taken.within (taken : s.Taken limit rest m u) (opens : u.token.opens) : Within limit u.depth := by
  obtain ⟨last, outer, calm⟩ := taken.place.calm
  rw [facing_of_current taken.pushed taken.current] at calm
  obtain ⟨_, steady, _⟩ := calm
  by_cases leaves : u.depth < last
  · simp [steady leaves] at opens
  · exact outer.trans (Nat.le_of_not_lt leaves)

theorem Taken.tame (taken : s.Taken limit rest m u) : u.token.isTame := by
  obtain ⟨_, _, calm⟩ := taken.place.calm
  rw [facing_of_current taken.pushed taken.current] at calm
  exact calm.1

theorem Taken.more (taken : s.Taken limit rest m u) (inside : Within limit u.depth) :
    Calm limit u.depth s.ahead ∧ leaving limit s.ahead = rest := by
  obtain ⟨_, _, calm⟩ := taken.place.calm
  have leaves := taken.place.leaves
  rw [facing_of_current taken.pushed taken.current] at calm leaves
  exact ⟨calm.2.2.2 inside, (leaving_cons_of_within inside).symm.trans leaves⟩

theorem Taken.apart (taken : s.Taken limit rest m u) (inside : Within limit u.depth) :
    s.Apart (leaving (some u.depth) s.facing) m u s.source := by
  refine ⟨taken.pushed, taken.current, ⟨by simp [taken.current], ⟨u.depth, within_self u, ?_⟩, rfl,
    taken.place.short⟩, rfl⟩
  obtain ⟨_, _, calm⟩ := taken.place.calm
  rw [facing_of_current taken.pushed taken.current] at calm ⊢
  obtain ⟨tame, _, looks, more⟩ := calm
  exact ⟨tame, fun lower => absurd lower (Nat.lt_irrefl _), looks, fun _ => (more inside).inner inside⟩

theorem Taken.resume (taken : s.Taken limit rest m u) (inside : Within limit u.depth)
    (done : s'.Done (leaving (some u.depth) s.facing) n u s.source) : s'.In limit rest n := by
  have goesOn : s'.source.GoesOn limit := done.source.symm ▸ taken.goesOn
  have started : ∀ b, s'.source = .bounded b → b.started = true := fun b same =>
    taken.started b (done.source.symm.trans same)
  obtain ⟨last, deep, quiet⟩ := done.place.calm
  obtain ⟨outer, _, calm⟩ := taken.place.calm
  refine ⟨⟨fun none => ?_, ⟨last, inside.trans (deep u.depth rfl), ?_⟩, ?_, done.place.short⟩,
    .going goesOn fun b same => .inl (started b same)⟩
  · exact absurd (done.place.known none).2 (by simp)
  · exact quiet.outer fun v vs left goes_on => calm.behind inside (done.place.leaves ▸ left) goes_on
  · rw [← leaving_leaving inside, done.place.leaves, leaving_leaving inside]
    exact taken.place.leaves

theorem Taken.spent (taken : s.Taken limit rest m u) (inside : Within limit u.depth) (ahead : s.ahead = []) :
    Got limit rest m none s := by
  have nothing : rest = [] := by
    rw [← (taken.more inside).2, ahead]
    rfl
  subst nothing
  exact ⟨taken.in, taken.pushed, ahead, by simp⟩

end Stand

end ScoreText
