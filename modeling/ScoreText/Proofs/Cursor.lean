import ScoreText.Proofs.Ahead
import ScoreText.Proofs.Lengths
import ScoreText.Proofs.Succession

/-! The reader goes along the tokens and never back behind what has been read. All items end where the
tokens that are in use end, so an item that starts with the next token lies behind all of them. -/
namespace ScoreText

/-- Where the tokens in front of one end. -/
def stopBefore (tokens : Array ScannedToken) : Nat → Nat
  | 0 => 0
  | k + 1 => (tokens[k]?.map (·.token.stop)).getD 0

/-- Tokens that stand one behind the other, none of them empty. -/
def InOrder (tokens : Array ScannedToken) : Prop :=
  ∀ k s, tokens[k]? = some s → stopBefore tokens k ≤ s.token.start ∧ s.token.start < s.token.stop

theorem stopBefore_succ {tokens : Array ScannedToken} {k : Nat} {s : ScannedToken}
    (found : tokens[k]? = some s) : stopBefore tokens (k + 1) = s.token.stop := by
  rw [stopBefore, found]
  rfl

theorem InOrder.stopBefore_le {tokens : Array ScannedToken} (order : InOrder tokens) {j k : Nat}
    (le : j ≤ k) (inside : k ≤ tokens.size) : stopBefore tokens j ≤ stopBefore tokens k := by
  induction k with
  | zero =>
    obtain rfl := Nat.le_zero.mp le
    exact Nat.le_refl _
  | succ k ih =>
    rcases Nat.lt_or_eq_of_le le with lt | rfl
    · have found : tokens[k]? = some tokens[k] := Array.getElem?_eq_getElem inside
      have before := ih (Nat.le_of_lt_succ lt) (Nat.le_of_lt inside)
      have here := order k _ found
      rw [stopBefore_succ found]
      omega
    · exact Nat.le_refl _

/-- The last token that was taken from a bounded source. -/
def Source.last? : Source → Option Token
  | .free => none
  | .bounded b => b.last

/-- Whether a source knows that it has come to its end. -/
def Source.Finished : Source → Prop
  | .free => True
  | .bounded b => b.finished = true

namespace Reader

variable {whole : Prop} {n lo m : Nat} {fills other : Option ItemId} {id : ItemId} {o r r' : Reader}
  {t : Token}

/-- Where the tokens in use end. -/
def reach (r : Reader) : Nat :=
  stopBefore r.tokens r.used

/-- Where the tokens taken end, one that was given back included. -/
def edge (r : Reader) : Nat :=
  stopBefore r.tokens r.index

/-- A reader with what it has read so far. If no item is left out because it is nested too deep, the
number of tokens to come is limited. -/
structure Sound (whole : Prop) (n : Nat) (r : Reader) : Prop where
  order : InOrder r.tokens
  pushed : r.pushed = true → 0 < r.index
  room : whole → r.left ≤ n
  laid : r.tree.Laid whole r.reach
  timely : r.Timely
  successive : r.tree.Successive

theorem Sound.left_eq (sound : r.Sound whole n) : r.left = r.tokens.size - r.used := by
  have inside := r.inside
  have pushed := sound.pushed
  unfold left used
  split
  · rename_i back
    have := pushed back
    omega
  · rfl

/-- The source does not know a token behind those that were taken. When it has come to its end, all
that it has given is in use. -/
def SourceOk (r : Reader) : Prop :=
  ∀ s ∈ r.source.last?, s.stop ≤ r.edge ∧ (r.source.Finished → s.stop ≤ r.reach)

structure Stable (whole : Prop) (n : Nat) (r : Reader) : Prop extends r.Sound whole n where
  source : r.SourceOk

/-- An item that was there and is being filled. -/
structure Filling (lo : Nat) (o r : Reader) (id : ItemId) : Prop where
  old : id < o.tree.size
  opened : r.tree.Open id
  starts : (r.tree.item id).position ≤ lo

theorem Filling.same_tree (filling : Filling lo o r id) (same : r'.tree = r.tree) : Filling lo o r' id where
  old := filling.old
  opened := same ▸ filling.opened
  starts := by rw [same]; exact filling.starts

/-- From one reader to a later one, whatever the sources. -/
structure Went (whole : Prop) (n : Nat) (fills : Option ItemId) (lo : Nat) (o r : Reader) : Prop where
  sound : r.Sound whole n
  tokens : r.tokens = o.tokens
  index : o.index ≤ r.index
  used : o.used ≤ r.used
  low : lo ≤ r.reach
  grown : Tree.Grown fills lo o.tree r.tree
  filling : ∀ id ∈ fills, Filling lo o r id

/-- From one reader to a later one with the same source. -/
structure Moved (whole : Prop) (n : Nat) (fills : Option ItemId) (lo : Nat) (o r : Reader) : Prop where
  went : Went whole n fills lo o r
  source : r.SourceOk
  last : ∀ s ∈ r.source.last?, s ∈ o.source.last? ∨ o.reach ≤ s.start ∧ s.start < s.stop

theorem Went.reach_le (went : Went whole n fills lo o r) : o.reach ≤ r.reach := by
  unfold reach
  rw [← went.tokens]
  exact went.sound.order.stopBefore_le went.used r.used_le_size

theorem Went.edge_le (went : Went whole n fills lo o r) : o.edge ≤ r.edge := by
  unfold edge
  rw [← went.tokens]
  exact went.sound.order.stopBefore_le went.index r.inside

theorem Went.left_le (went : Went whole n fills lo o r) : r.left ≤ o.left := by
  have used := went.used
  rw [went.sound.left_eq, went.tokens]
  unfold left
  unfold Reader.used at *
  split at used <;> split <;> simp_all <;> omega

theorem Went.trans (first : Went whole n fills lo o r) (later : Went whole n other m r r')
    (low : lo ≤ m) (same : ∀ id ∈ other, fills = some id ∨ o.tree.size ≤ id) :
    Went whole n fills lo o r' where
  sound := later.sound
  tokens := later.tokens.trans first.tokens
  index := Nat.le_trans first.index later.index
  used := Nat.le_trans first.used later.used
  low := Nat.le_trans low later.low
  grown := first.grown.trans later.grown low same
  filling id member := by
    obtain ⟨old, opened, starts⟩ := first.filling id member
    refine ⟨old, later.grown.opened opened, ?_⟩
    rw [later.grown.position opened.inside]
    exact starts

/-- Two readers at one place in the tokens, with one tree. -/
structure Abreast (r r' : Reader) : Prop where
  tokens : r'.tokens = r.tokens
  index : r'.index = r.index
  pushed : r'.pushed = r.pushed
  tree : r'.tree = r.tree

theorem Abreast.used (same : Abreast r r') : r'.used = r.used := by
  unfold Reader.used
  rw [same.index, same.pushed]

theorem Abreast.reach (same : Abreast r r') : r'.reach = r.reach := by
  unfold Reader.reach
  rw [same.used, same.tokens]

theorem Abreast.left (same : Abreast r r') : r'.left = r.left := by
  unfold Reader.left
  rw [same.tokens, same.index, same.pushed]

theorem Sound.abreast (sound : r.Sound whole n) (same : Abreast r r') (timely : r'.Timely) :
    r'.Sound whole n where
  order := same.tokens ▸ sound.order
  pushed back := by
    rw [same.index]
    exact sound.pushed (same.pushed ▸ back)
  room w := same.left ▸ sound.room w
  laid := by
    rw [same.tree, same.reach]
    exact sound.laid
  timely := timely
  successive := same.tree ▸ sound.successive

/-- What a reader has besides the tokens and the tree does not matter here. -/
theorem Went.abreast (went : Went whole n fills lo o r) (same : Abreast r r') (timely : r'.Timely) :
    Went whole n fills lo o r' where
  sound := went.sound.abreast same timely
  tokens := same.tokens.trans went.tokens
  index := same.index ▸ went.index
  used := same.used ▸ went.used
  low := same.reach ▸ went.low
  grown := same.tree ▸ went.grown
  filling id member := (went.filling id member).same_tree same.tree

theorem Went.switch (went : Went whole n fills lo o r) (source : Source) :
    Went whole n fills lo o { r with source } :=
  went.abreast ⟨rfl, rfl, rfl, rfl⟩ went.sound.timely

theorem Moved.stable (moved : Moved whole n fills lo o r) : r.Stable whole n :=
  ⟨moved.went.sound, moved.source⟩

theorem Moved.laid (moved : Moved whole n fills lo o r) : r.tree.Laid whole r.reach :=
  moved.went.sound.laid

theorem Moved.timely (moved : Moved whole n fills lo o r) : r.tree.Timely :=
  moved.went.sound.timely.2

theorem Moved.successive (moved : Moved whole n fills lo o r) : r.tree.Successive :=
  moved.went.sound.successive

theorem Moved.trans (first : Moved whole n fills lo o r) (later : Moved whole n other m r r')
    (low : lo ≤ m) (same : ∀ id ∈ other, fills = some id ∨ o.tree.size ≤ id) :
    Moved whole n fills lo o r' where
  went := first.went.trans later.went low same
  source := later.source
  last s member := by
    rcases later.last s member with before | ⟨behind, some_text⟩
    · exact first.last s before
    · exact .inr ⟨Nat.le_trans first.went.reach_le behind, some_text⟩

theorem Stable.here (stable : r.Stable whole n) (low : lo ≤ r.reach)
    (filling : ∀ id ∈ fills, Filling lo r r id) : Moved whole n fills lo r r where
  went := ⟨stable.toSound, rfl, Nat.le_refl _, Nat.le_refl _, low, .refl _ _ _, filling⟩
  source := stable.source
  last _ member := .inl member

theorem Stable.start (stable : r.Stable whole n) : Moved whole n none r.reach r r :=
  stable.here (Nat.le_refl _) fun _ => nofun

theorem Moved.restore (moved : Moved whole n fills lo o r) (r' : Reader) {source source' : Source}
    (inner : Went whole n other m { r with source } { r' with source := source' }) (low : lo ≤ m)
    (same : ∀ id ∈ other, fills = some id ∨ o.tree.size ≤ id) :
    Moved whole n fills lo o { r' with source := r.source } := by
  have inner : Went whole n other m r { r' with source := r.source } :=
    { inner.switch r.source with
      filling := fun id member => ⟨(inner.filling id member).old, (inner.filling id member).opened,
        (inner.filling id member).starts⟩ }
  refine ⟨moved.went.trans inner low same, fun s member => ?_, moved.last⟩
  obtain ⟨taken, ended⟩ := moved.source s member
  exact ⟨Nat.le_trans taken inner.edge_le, fun finished => Nat.le_trans (ended finished) inner.reach_le⟩

/-- The source is of no importance as long as it has given nothing. -/
theorem Moved.switch (moved : Moved whole n fills lo o r) (source : Source) (bare : source.last? = none) :
    Moved whole n fills lo { r with source } { r with source } := by
  have went := moved.went.switch source
  refine Stable.here ⟨went.sound, fun s member => ?_⟩ went.low fun id member => ?_
  · rw [show ({ r with source } : Reader).source.last? = none from bare] at member
    cases member
  · obtain ⟨_, opened, starts⟩ := went.filling id member
    exact ⟨opened.inside, opened, starts⟩

theorem Moved.aside (moved : Moved whole n fills lo o r) (language : String) (inChord : Bool)
    {duration : Duration} (fits : duration.Fits) :
    Moved whole n fills lo o { r with language, inChord, duration } := by
  exact ⟨moved.went.abreast ⟨rfl, rfl, rfl, rfl⟩ ⟨fits, moved.timely⟩, moved.source, moved.last⟩

theorem Went.stall (went : Went whole n fills lo o r) : Went whole n fills lo o r.stall :=
  went.abreast ⟨rfl, rfl, rfl, rfl⟩ went.sound.timely

theorem Moved.stall (moved : Moved whole n fills lo o r) : Moved whole n fills lo o r.stall :=
  ⟨moved.went.stall, moved.source, moved.last⟩

section Next

/-- A reader that has one more token in use. -/
def advance (r : Reader) (more : r.used < r.tokens.size) : Reader :=
  { r with index := r.used + 1, inside := more, pushed := false }

theorem Sound.pull_cases (sound : r.Sound whole n) :
    r.pull = (none, r) ∧ r.pushed = false ∨
      ∃ more : r.used < r.tokens.size, r.pull = (some r.tokens[r.used].token, r.advance more) := by
  obtain ⟨tokens, index, inside, pushed, source, tree, language, inChord, duration, course⟩ := r
  cases pushed with
  | true =>
    have positive : 0 < index := sound.pushed rfl
    have back : index - 1 + 1 = index := by omega
    refine .inr ⟨show index - 1 < tokens.size by omega, ?_⟩
    simp [pull, current?, advance, used, back, Nat.ne_of_gt positive]
  | false =>
    by_cases more : index < tokens.size
    · exact .inr ⟨more, by simp [pull, more, advance, used]⟩
    · exact .inl ⟨by simp [pull, more], rfl⟩

/-- What comes of asking the source for a token. -/
inductive Next (r : Reader) : Option Token × Reader → Prop
  | ended (source : Source) : source.Finished → source.last? = r.source.last? →
      (r.source.Finished ∨ r.pushed = false) → Next r (none, { r with source })
  | token (source : Source) (more : r.used < r.tokens.size) :
      (∀ t ∈ source.last?, t = r.tokens[r.used].token ∧ ¬ source.Finished) →
      Next r (some r.tokens[r.used].token, { r.advance more with source })

theorem Sound.next (sound : r.Sound whole n) : Next r r.next := by
  unfold Reader.next
  split
  · rename_i source
    rcases sound.pull_cases with ⟨pulled, back⟩ | ⟨more, pulled⟩
    · rw [pulled]
      exact .ended r.source (by rw [source]; trivial) rfl (.inr back)
    · rw [pulled]
      refine .token r.source more fun t member => ?_
      rw [source] at member
      cases member
  · rename_i b source
    split
    · rename_i finished
      exact .ended r.source (by rw [source]; exact finished) rfl
        (.inl (by rw [source]; exact finished))
    · rename_i unfinished
      split
      · rename_i atEnd
        refine .ended _ rfl ?_ (.inr ?_)
        · rw [source]
          rfl
        · simp only [Reader.atEnd, Bool.and_eq_true, Bool.not_eq_true'] at atEnd
          exact atEnd.2
      · rcases sound.pull_cases with ⟨pulled, back⟩ | ⟨more, pulled⟩
        · rw [pulled]
          refine .ended _ rfl ?_ (.inr back)
          rw [source]
          rfl
        · rw [pulled]
          refine .token _ more fun t member => ?_
          exact ⟨(Option.mem_some_iff.mp member).symm, unfinished⟩

/-- A token was taken that no item uses. It can be given back. -/
structure Picked (whole : Prop) (n : Nat) (fills : Option ItemId) (lo : Nat) (o r : Reader) (t : Token)
    (r' : Reader) : Prop where
  moved : Moved whole n fills lo o r'
  taken : 0 < r'.index
  back : Moved whole n fills lo o r'.giveBack
  low : lo ≤ t.start
  after : r.reach ≤ t.start
  some_text : t.start < t.stop
  stop : t.stop ≤ r'.reach
  laid : r'.tree.Laid whole t.start
  room : whole → r'.left < n
  fewer : r'.left < r.left
  tree : r'.tree = r.tree
  kept : r.reach ≤ r'.giveBack.reach
  current : r'.current?.map (·.token) = some t

/-- A token that was picked, or none, and how reading ended then. -/
def Given (whole : Prop) (n : Nat) (fills : Option ItemId) (lo : Nat) (o r : Reader)
    (ended : Reader → Prop) : Option Token → Reader → Prop
  | none, r' => ended r'
  | some t, r' => Picked whole n fills lo o r t r'

/-- What was got from a source: a token, or nothing at its end. -/
def Taken (whole : Prop) (n : Nat) (fills : Option ItemId) (lo : Nat) (o r : Reader) :
    Option Token → Reader → Prop :=
  Given whole n fills lo o r fun r' => r'.source.Finished ∧ ∃ source, r' = { r with source }

theorem Picked.stall (took : Picked whole n fills lo o r t r') :
    Picked whole n fills lo o r t r'.stall :=
  { took with
    moved := took.moved.stall
    back := took.back.stall }

theorem Picked.reach_le (took : Picked whole n fills lo o r t r') : r.reach ≤ r'.reach :=
  Nat.le_trans took.after (Nat.le_trans (Nat.le_of_lt took.some_text) took.stop)

theorem Taken.reach_le {found : Option Token} (taken : Taken whole n fills lo o r found r') :
    r.reach ≤ r'.reach := by
  cases found with
  | none =>
    obtain ⟨_, _, rfl⟩ := taken
    exact Nat.le_refl _
  | some t => exact Picked.reach_le taken

theorem Sound.reach_advance (sound : r.Sound whole n) (more : r.used < r.tokens.size) :
    r.reach ≤ r.tokens[r.used].token.start ∧
      r.tokens[r.used].token.start < r.tokens[r.used].token.stop ∧
      (r.advance more).reach = r.tokens[r.used].token.stop := by
  have found := Array.getElem?_eq_getElem more
  obtain ⟨behind, some_text⟩ := sound.order _ _ found
  exact ⟨behind, some_text, stopBefore_succ found⟩

theorem Moved.finish (moved : Moved whole n fills lo o r) {source : Source}
    (last : source.last? = r.source.last?) (kept : r.source.Finished ∨ r.pushed = false) :
    Moved whole n fills lo o { r with source } := by
  refine ⟨moved.went.switch source, fun s member => ?source, fun s member => ?last⟩
  case source =>
    have member : s ∈ r.source.last? := last ▸ member
    obtain ⟨taken, ended⟩ := moved.source s member
    refine ⟨taken, fun _ => ?_⟩
    rcases kept with before | back
    · exact ended before
    · -- nothing was given back, so all that was taken is in use
      have all : r.reach = r.edge := by
        unfold reach edge used
        rw [back]
        rfl
      show s.stop ≤ r.reach
      rw [all]
      exact taken
  case last => exact moved.last s (last ▸ member)

theorem index_le_used_succ (r : Reader) : r.index ≤ r.used + 1 := by
  unfold used
  split <;> omega

section Advance

variable {source : Source} {more : r.used < r.tokens.size}

/-- The source knows the token it has just given, whether or not that is given back. -/
theorem Moved.source_advance (moved : Moved whole n fills lo o r)
    (given : ∀ t ∈ source.last?, t = r.tokens[r.used].token ∧ ¬ source.Finished) :
    ∀ t ∈ source.last?, t.stop ≤ (r.advance more).edge ∧ ¬ source.Finished ∧
      (t ∈ o.source.last? ∨ o.reach ≤ t.start ∧ t.start < t.stop) := by
  intro t member
  obtain ⟨rfl, unfinished⟩ := given t member
  obtain ⟨behind, some_text, reach⟩ := moved.went.sound.reach_advance more
  exact ⟨Nat.le_of_eq reach.symm, unfinished, .inr ⟨Nat.le_trans moved.went.reach_le behind, some_text⟩⟩

theorem Moved.advance (moved : Moved whole n fills lo o r)
    (given : ∀ t ∈ source.last?, t = r.tokens[r.used].token ∧ ¬ source.Finished) :
    Moved whole n fills lo o { r.advance more with source } := by
  have went := moved.went
  have sound := went.sound
  have on := sound.reach_advance more
  have known := moved.source_advance given
  refine ⟨⟨⟨sound.order, nofun, fun w => ?room, ?laid, sound.timely, sound.successive⟩, went.tokens,
    Nat.le_trans went.index r.index_le_used_succ, Nat.le_trans went.used (Nat.le_succ _), ?low, went.grown,
    fun id member => (went.filling id member).same_tree rfl⟩, fun t member => ?source,
    fun t member => (known t member).2.2⟩
  case room =>
    have room := sound.room w
    have left := sound.left_eq
    show r.tokens.size - (r.used + 1) + 0 ≤ n
    omega
  case laid =>
    show r.tree.Laid whole (r.advance more).reach
    exact sound.laid.mono (by omega)
  case low =>
    have low := went.low
    show lo ≤ (r.advance more).reach
    omega
  case source =>
    obtain ⟨stop, unfinished, _⟩ := known t member
    exact ⟨stop, fun finished => absurd finished unfinished⟩

theorem Moved.advance_giveBack (moved : Moved whole n fills lo o r)
    (given : ∀ t ∈ source.last?, t = r.tokens[r.used].token ∧ ¬ source.Finished) :
    Moved whole n fills lo o (giveBack { r.advance more with source }) := by
  have went := moved.went
  have sound := went.sound
  have known := moved.source_advance given
  refine ⟨⟨⟨sound.order, fun _ => Nat.succ_pos _, fun w => ?room, sound.laid, sound.timely, sound.successive⟩,
    went.tokens, Nat.le_trans went.index r.index_le_used_succ, went.used, went.low, went.grown,
    fun id member => (went.filling id member).same_tree rfl⟩, fun t member => ?source,
    fun t member => (known t member).2.2⟩
  case room =>
    have room := sound.room w
    have left := sound.left_eq
    show r.tokens.size - (r.used + 1) + 1 ≤ n
    omega
  case source =>
    obtain ⟨stop, unfinished, _⟩ := known t member
    exact ⟨stop, fun finished => absurd finished unfinished⟩

end Advance

theorem Moved.taken (moved : Moved whole n fills lo o r) {found : Option Token}
    (next : Next r (found, r')) :
    Moved whole n fills lo o r' ∧ Taken whole n fills lo o r found r' := by
  have sound := moved.went.sound
  cases next with
  | ended source finished last kept => exact ⟨moved.finish last kept, finished, source, rfl⟩
  | token source more given =>
    have now := moved.advance given
    have back := moved.advance_giveBack given
    obtain ⟨behind, some_text, reach⟩ := sound.reach_advance more
    have left : r.left = r.tokens.size - r.used := sound.left_eq
    have fewer : r.tokens.size - (r.used + 1) + 0 < r.left := by omega
    refine ⟨now, now, Nat.succ_pos _, back, Nat.le_trans moved.went.low behind, behind, some_text,
      Nat.le_of_eq reach.symm, sound.laid.mono behind, fun w => Nat.lt_of_lt_of_le fewer (sound.room w), fewer,
      rfl, Nat.le_refl _, ?current⟩
    case current =>
      rw [current?_eq]
      show (if r.used + 1 = 0 then none else r.tokens[r.used + 1 - 1]?).map (·.token) =
        some r.tokens[r.used].token
      rw [if_neg (Nat.succ_ne_zero _), Nat.add_sub_cancel, Array.getElem?_eq_getElem more]
      rfl

end Next

end Reader

end ScoreText
