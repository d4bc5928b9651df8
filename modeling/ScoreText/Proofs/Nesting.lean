import ScoreText.Proofs.Descent
import ScoreText.Proofs.GradingScore

/-! How deep items are nested. Each step down from the root leads to a lower level, but for the items that are
read at the level of their parents. These are the only ones that a limit of the levels does not count. -/
namespace ScoreText

namespace Tree

variable {t : Tree} {whole : Prop} {b : Nat} {id p c : ItemId} {g : Graded}

/-- Whether an item is a part of lyrics: only lists are between it and a mode of lyrics. -/
def inLyrics (t : Tree) (id : ItemId) : Bool :=
  ((t.ancestors id).find? (t.kind · != .musicList)).any fun p => (t.kind p).isLyricMode

/-- Whether an item is read at the level of its parent. -/
def sharesLevel (t : Tree) (id : ItemId) : Bool :=
  (t.parent id).any fun p => (t.item id).joins (t.item p) || (t.kind id).isSung && t.inLyrics id

/-- The items above an item and itself that are read at the levels of their parents. -/
def sharing (t : Tree) (id : ItemId) : Nat :=
  (id :: t.ancestors id).countP t.sharesLevel

theorem Laid.inLyrics_of_parent (laid : t.Laid whole b) (above : t.parent id = some p) :
    t.inLyrics id = if t.kind p = .musicList then t.inLyrics p else (t.kind p).isLyricMode := by
  rw [inLyrics, laid.ancestors_of_parent above, List.find?_cons]
  by_cases list : t.kind p = .musicList
  · simp [list, inLyrics]
  · have other : (t.kind p != .musicList) = true := by simpa using list
    simp [list, other]

theorem Laid.sharing_of_parent (laid : t.Laid whole b) (above : t.parent id = some p) :
    t.sharing id = t.sharing p + if t.sharesLevel id then 1 else 0 := by
  rw [sharing, laid.ancestors_of_parent above, List.countP_cons, sharing]

/-- What holds lyrics is a mode of lyrics, or a list in one. -/
theorem Laid.inLyrics_of_hosts (laid : t.Laid whole b) (graded : g.tree = t)
    (top : (g.grade root).hold ≠ .lyrics) (reached : Relation.ReflTransGen t.Under p root)
    (hosts : HostsLyrics t g.grade p) (above : t.parent c = some p) : t.inLyrics c := by
  induction reached using Relation.ReflTransGen.head_induction_on generalizing c with
  | refl =>
    rw [laid.inLyrics_of_parent above]
    have mode := hosts.resolve_right top
    split
    · rename_i list
      simp [list, ItemKind.isLyricMode] at mode
    · exact mode
  | @head p q under _ ih =>
    rw [laid.inLyrics_of_parent above]
    rcases hosts with mode | lyrics
    · split
      · rename_i list
        simp [list, ItemKind.isLyricMode] at mode
      · exact mode
    · have fits := g.fits q p (graded ▸ laid.under_iff.mp under)
      obtain ⟨list, hosts⟩ := fits.lyrics lyrics
      rw [graded] at list hosts
      rw [if_pos list]
      exact ih hosts under

/-- Levels fall on the way down, save where they are shared. -/
theorem Laid.level_ancestors (laid : t.Laid whole b) (graded : g.tree = t)
    (top : (g.grade root).hold ≠ .lyrics) (reached : Relation.ReflTransGen t.Under id root) :
    (t.ancestors id).length + (g.grade id).level ≤ (g.grade root).level + t.sharing id := by
  induction reached using Relation.ReflTransGen.head_induction_on with
  | refl => simp [laid.ancestors_of_top laid.linked.root]
  | @head id p under reached ih =>
    have fits := g.fits p id (graded ▸ laid.under_iff.mp under)
    rw [graded] at fits
    rw [laid.ancestors_of_parent under, laid.sharing_of_parent under, List.length_cons]
    rcases fits.level with lower | ⟨same, shared⟩
    · omega
    · have shares : t.sharesLevel id := by
        rw [sharesLevel, show t.parent id = some p from under]
        rcases shared with ⟨_, joins⟩ | ⟨hosts, sung⟩
        · simp [joins]
        · simp [sung, laid.inLyrics_of_hosts graded top reached hosts under]
      rw [if_pos shares]
      omega

end Tree

/-- The limit bounds the number of items above an item, not counting those that are read at the levels of
their parents: in lyrics, lists and words; elsewhere alternatives, the item for the grace notes behind music,
and Scheme expressions that settings and repeats read themselves. -/
theorem ancestors_bounded (options : Options) (text : String) (filename : Option String)
    (includedFrom : Option (DocumentId × ItemId)) {id : ItemId} :
    let t := (Document.ofText options text filename includedFrom).tree
    id ∈ t.descendants Tree.root →
      (t.ancestors id).length ≤ options.maxNestingDepth + 1 + t.sharing id := by
  intro t reached
  obtain ⟨b, laid⟩ := Document.ofText_laid options text filename includedFrom
  obtain ⟨g, graded, top⟩ := Tree.ofTokens_graded (scanMusic text) options.language options.maxNestingDepth
  have under := (laid.forest.mem_descendants Tree.root id).mp reached
  have bound := laid.level_ancestors graded (by simp [top]) under.to_reflTransGen
  rw [top] at bound
  exact Nat.le_trans (Nat.le_add_right ..) bound

def Options.shallow : Options :=
  { Options.standard with maxNestingDepth := 1 }

/-- Lists of lyrics that are nested past the limit. -/
theorem ancestors_bounded_lyrics :
    let t := (Document.ofText .shallow "\\lyricmode \x7b \x7b \x7b \x7b a \x7d \x7d \x7d \x7d" none none).tree
    6 ∈ t.descendants Tree.root ∧ (t.ancestors 6).length = 6 ∧ t.sharing 6 = 5 ∧
      (t.ancestors 6).length ≤ Options.shallow.maxNestingDepth + 1 + t.sharing 6 := by
  intro t
  obtain ⟨reached, above, sharing⟩ :
      6 ∈ t.descendants Tree.root ∧ (t.ancestors 6).length = 6 ∧ t.sharing 6 = 5 := by
    decide +kernel
  exact ⟨reached, above, sharing, ancestors_bounded _ _ _ _ reached⟩

/-- Lists of lyrics are read however deep they are nested. -/
theorem lyrics_past_limit :
    let t := (Document.ofText .shallow "\\lyricmode \x7b \x7b \x7b \x7b a \x7d \x7d \x7d \x7d" none none).tree
    ∃ id ∈ t.descendants Tree.root, Options.shallow.maxNestingDepth + 2 < (t.ancestors id).length := by
  intro t
  obtain ⟨reached, long⟩ : 6 ∈ t.descendants Tree.root ∧
      Options.shallow.maxNestingDepth + 2 < (t.ancestors 6).length := by decide +kernel
  exact ⟨6, reached, long⟩

end ScoreText
