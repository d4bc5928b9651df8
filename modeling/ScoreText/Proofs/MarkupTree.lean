import ScoreText.Proofs.MarkupExpression
import ScoreText.Proofs.Still

/-! Mirrors of markup in a tree that goes on changing. -/
namespace ScoreText

open ScoreText.Tree

section Kept

variable {lo : Nat} {t u : Tree}

mutual

theorem Markup.MirroredBy.kept {m : Markup} {id : ItemId} (same : StillFrom lo t u)
    (inside : lo ≤ id ∧ id < t.size) (mirrored : m.MirroredBy t id) : m.MirroredBy u id := by
  obtain ⟨held, still⟩ := same.still id inside.1 inside.2
  cases m with
  | word w =>
    simp only [Markup.MirroredBy, kind, children, still, Item.text] at mirrored ⊢
    exact mirrored
  | quoted q =>
    simp only [Markup.MirroredBy, kind, children, unquoted, still] at mirrored ⊢
    exact mirrored
  | number n =>
    rw [Markup.MirroredBy] at mirrored
    obtain ⟨scheme, value, only, item, text, none_below⟩ := mirrored
    have there := same.child inside.1 (c := value) (by simp [only])
    obtain ⟨holder, value_still⟩ := same.still value there.1 there.2
    rw [Markup.MirroredBy, kind, children, still]
    refine ⟨scheme, value, only, ?_⟩
    simp only [kind, children, value_still, Item.text] at item text none_below ⊢
    exact ⟨item, text, none_below⟩
  | list items =>
    rw [Markup.MirroredBy] at mirrored
    rw [Markup.MirroredBy, kind, children, still]
    exact ⟨mirrored.1, mirrored.2.kept same fun c member => same.child inside.1 member⟩
  | command c arguments =>
    rw [Markup.MirroredBy] at mirrored
    rw [Markup.MirroredBy, kind, children, still]
    exact ⟨mirrored.1, mirrored.2.1, mirrored.2.2.kept same fun c member => same.child inside.1 member⟩

theorem Markups.MirroredBy.kept {n : Nat} {ms : Markups n} {ids : List ItemId} (same : StillFrom lo t u)
    (inside : ∀ c ∈ ids, lo ≤ c ∧ c < t.size) (mirrored : ms.MirroredBy t ids) : ms.MirroredBy u ids := by
  cases ms with
  | nil => exact mirrored
  | cons m ms =>
    rw [Markups.MirroredBy] at mirrored ⊢
    obtain ⟨id, others, rfl, first, rest⟩ := mirrored
    exact ⟨id, others, rfl, first.kept same (inside id List.mem_cons_self),
      rest.kept same fun c member => inside c (List.mem_cons_of_mem _ member)⟩

end

theorem Markup.endures (m : Markup) : Endures fun u id => m.MirroredBy u id :=
  fun _ _ _ _ same inside mirrored => mirrored.kept same inside

end Kept

end ScoreText
