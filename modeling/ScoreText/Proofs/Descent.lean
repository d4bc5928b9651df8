import ScoreText.Proofs.DocumentOrder
import ScoreText.Proofs.Levels

/-! The levels at an item in music. Nothing in which the item lies ends at its position, so no level on
the way up to the outermost music is dropped, and each one names what is played in front of the item. -/
namespace ScoreText

theorem ItemKind.isDurable_of_isMusic {k : ItemKind} (music : k.isMusic = true) : k.isDurable = false := by
  cases k <;> simp_all [isMusic, isDurable]

namespace Tree

variable {t : Tree} {whole : Prop} {b n m position : Nat} {id p c child top target : ItemId}
  {front back : List ItemId} {levels : List Level} {rank : ItemId → Nat}

section Ancestors

/-- Where all ranks on the way up fit in, the number of steps makes no difference. -/
theorem Ranked.climb_eq (ranked : t.Ranked rank) (laid : t.Laid whole b) (one : t.size ≤ n + rank id)
    (other : t.size ≤ m + rank id) : t.climb n id = t.climb m id := by
  induction n generalizing id m with
  | zero =>
    have small := ranked.lt_size id
    omega
  | succ n ih =>
    have small := ranked.lt_size id
    obtain ⟨m, rfl⟩ : ∃ k, m = k + 1 := ⟨m - 1, by omega⟩
    rw [climb, climb]
    cases above : t.parent id with
    | none => rfl
    | some p =>
      have lower := ranked.held p id (laid.holds_of_under above)
      have rest : t.climb n p = t.climb m p := ih (by omega) (by omega)
      simp only [rest]

theorem Laid.ancestors_of_parent (laid : t.Laid whole b) (above : t.parent id = some p) :
    t.ancestors id = p :: t.ancestors p := by
  obtain ⟨rank, ranked⟩ := laid.exists_ranked
  obtain ⟨k, size⟩ : ∃ k, t.size = k + 1 := ⟨t.size - 1, by have := laid.inhabited; omega⟩
  have lower := ranked.held p id (laid.holds_of_under above)
  have rest : t.climb k p = t.ancestors p := ranked.climb_eq laid (by omega) (by omega)
  rw [ancestors, size, climb, above]
  dsimp only
  rw [rest]

theorem Laid.ancestors_of_top (laid : t.Laid whole b) (top : t.parent id = none) : t.ancestors id = [] := by
  obtain ⟨k, size⟩ : ∃ k, t.size = k + 1 := ⟨t.size - 1, by have := laid.inhabited; omega⟩
  rw [ancestors, size, climb, top]

end Ancestors

section Stop

theorem Laid.lt_stop (laid : t.Laid True b) (held : t.Holds p id) : (t.item id).position < t.stop id := by
  induction laid.ends id generalizing p with
  | @of id _ _ _ _ ih =>
    rcases laid.occupied p id held with token | children | ⟨no, _⟩
    · exact Nat.lt_of_lt_of_le ((laid.placed id).lt_ownEnd token) (ownEnd_le_stopWithin ..)
    · obtain ⟨c, child⟩ := List.exists_mem_of_ne_nil _ children
      have inside := laid.below id c child
      have lasts := ih c (.inl child) (.inl child)
      have within := laid.stop_child_le child
      omega
    · exact absurd trivial no

theorem innermostBelow_child (t : Tree) (position n : Nat) (id : ItemId) :
    t.innermostBelow position n id = id ∨ ∃ p, t.innermostBelow position n id ∈ t.children p := by
  induction n generalizing id with
  | zero => exact .inl rfl
  | succ n ih =>
    rw [innermostBelow]
    cases found : t.childAt? id position with
    | none => exact .inl rfl
    | some c =>
      have child : c ∈ t.children id := (List.takeWhile_prefix _).subset (List.mem_of_getLast? found)
      dsimp only
      split
      · exact .inr ⟨id, child⟩
      · rcases ih c with same | held
        · rw [same]
          exact .inr ⟨id, child⟩
        · exact .inr held

end Stop

section Played

/-- Whether the children of an item start at the same time. -/
def startsTogether (t : Tree) (id : ItemId) : Bool :=
  match t.kind id, (t.item id).details with
  | .musicList, .list true | .partCombine, _ => true
  | _, _ => false

/-- The children of an item that are played: of a tagged one only the last, which is the music. -/
def played (t : Tree) (id : ItemId) : List ItemId :=
  if t.kind id = .tag then (t.children id).getLast?.toList else t.children id

theorem takeWhile_front (different : (front ++ child :: back).Nodup) :
    ((front ++ child :: back).takeWhile fun c => some c != some child) = front := by
  have apart : ∀ c ∈ front, c ≠ child := by
    intro c member same
    exact (List.nodup_append.mp different).2.2 c member child List.mem_cons_self same
  rw [List.takeWhile_append_of_pos (by simpa using apart)]
  simp

/-- The items at a level in front of a child are those that are played before it. -/
theorem Laid.level_items (laid : t.Laid whole b) (inTurn : t.startsTogether id = false)
    (split : t.played id = front ++ child :: back) : (t.level id (some child)).items = front := by
  have different : (t.children id).Nodup := (laid.sorted id).imp fun before same => by
    rw [same] at before
    exact Nat.lt_irrefl _ before.starts
  unfold startsTogether at inTurn
  unfold played at split
  unfold level
  dsimp only
  split
  · simp [*] at inTurn
  · rename_i tagged
    -- the music is the only child of a tag that is played
    rw [if_pos tagged] at split
    have single : (front ++ child :: back).length ≤ 1 := split ▸ Option.length_toList_le
    simp only [List.length_append, List.length_cons] at single
    exact (List.eq_nil_of_length_eq_zero (by omega)).symm
  · simp [*] at inTurn
  all_goals
    have all : t.kind id ≠ .tag := by simp_all
    rw [if_neg all] at split
    rw [split] at different ⊢
    exact takeWhile_front different

theorem level_items_together (together : t.startsTogether id = true) (child : Option ItemId) :
    (t.level id child).items = [] := by
  unfold startsTogether at together
  unfold level
  dsimp only
  split <;> simp_all

theorem ownScaling_together (together : t.startsTogether id = true) : t.ownScaling id = 1 := by
  unfold startsTogether at together
  unfold ownScaling
  split <;> simp_all

end Played

section Descent

/-- Levels that go down from music to an item in it. -/
inductive Descent (t : Tree) (target : ItemId) : ItemId → List Level → Prop
  | here : Descent t target target [⟨target, [], 1⟩]
  | within {id child : ItemId} {levels : List Level} : (t.kind id).isMusic = true →
      t.parent child = some id → Descent t target child levels →
      Descent t target id (t.level id (some child) :: levels)

theorem Descent.ne_nil (descent : t.Descent target id levels) : levels ≠ [] := by
  cases descent with
  | here => exact List.cons_ne_nil _ _
  | within _ _ _ => exact List.cons_ne_nil _ _

theorem Descent.levelsAbove (descent : t.Descent target id levels) (laid : t.Laid whole b)
    (before : position < t.stop target) : position < t.stop id ∧
    t.levelsAbove position (t.ancestors target) target true [⟨target, [], 1⟩] =
      t.levelsAbove position (t.ancestors id) id true levels := by
  induction descent with
  | here => exact ⟨before, rfl⟩
  | @within id child levels music above _ ih =>
    obtain ⟨before, same⟩ := ih
    have ends := laid.stop_child_le (laid.under_iff.mp above)
    refine ⟨by omega, ?_⟩
    rw [same, laid.ancestors_of_parent above, Tree.levelsAbove]
    simp only [music, if_true]
    rw [if_neg (by omega), if_neg (by omega)]

/-- The chord of a note, and any other item itself. -/
def asPlayed (t : Tree) (id : ItemId) : ItemId :=
  ((t.parent id).filter (t.kind · == .chord)).getD id

theorem asPlayed_cases (t : Tree) (id : ItemId) :
    t.asPlayed id = id ∨ t.parent id = some (t.asPlayed id) ∧ t.kind (t.asPlayed id) = .chord := by
  unfold asPlayed
  cases found : (t.parent id).filter (t.kind · == .chord) with
  | none => exact .inl rfl
  | some p =>
    obtain ⟨above, chord⟩ := Option.filter_eq_some_iff.mp found
    exact .inr ⟨above, by simpa using chord⟩

/-- The levels at the position of an item go down from the outermost music. What holds that music may
be in front of them, without items. -/
theorem Laid.levels_eq (laid : t.Laid True b) (document : t.kind root = .document)
    (found : t.innermost (t.item id).position none = id) (timed : (t.kind id).isTimed = true)
    (descent : t.Descent (t.asPlayed id) top levels)
    (outermost : ∀ q, t.parent top = some q → (t.kind q).isMusic = false) :
    t.levels (t.item id).position = levels ∨
      ∃ q, t.levels (t.item id).position = ⟨q, [], 1⟩ :: levels := by
  have held : ∃ p, id ∈ t.children p := by
    rcases innermostBelow_child t (t.item id).position t.size root with same | held
    · have here : id = root := found.symm.trans same
      rw [here, document] at timed
      cases timed
    · exact (show t.innermostBelow _ _ _ = id from found) ▸ held
  obtain ⟨p, child⟩ := held
  have here := laid.lt_stop (.inl child)
  have before : (t.item id).position < t.stop (t.asPlayed id) ∧ (t.kind (t.asPlayed id)).isTimed = true := by
    rcases t.asPlayed_cases id with same | ⟨above, chord⟩
    · rw [same]
      exact ⟨here, timed⟩
    · have within := laid.stop_child_le (laid.under_iff.mp above)
      rw [chord]
      exact ⟨by omega, rfl⟩
  have plain : t.assignsMusic id = false := by
    have other : t.kind id ≠ .assignment := by
      intro same
      rw [same] at timed
      cases timed
    simp [assignsMusic, other]
  obtain ⟨inside, same⟩ := descent.levelsAbove laid before.1
  -- the position is in front of where the item ends, so the way down starts at the item that is played
  rw [Tree.levels]
  simp only [found, plain, Bool.false_eq_true, if_false]
  rw [← asPlayed, before.2, if_pos rfl, same]
  cases above : t.parent top with
  | none =>
    rw [laid.ancestors_of_top above]
    exact .inl rfl
  | some q =>
    have ends := laid.stop_child_le (laid.under_iff.mp above)
    rw [laid.ancestors_of_parent above, Tree.levelsAbove]
    simp only [outermost q above, Bool.false_eq_true, if_false, Bool.not_true]
    rw [if_neg (by omega), if_neg (by omega)]
    exact .inr ⟨q, rfl⟩

end Descent

end Tree

end ScoreText
