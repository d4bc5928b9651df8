import ScoreText.Proofs.Branching

/-! The order of notes and strings. When one is added, all that was added before it started in front of it. So
the order in which they were added is the order in which they stand in the text. -/
namespace ScoreText

/-- Notes and strings are added when nothing behind their token has been read. -/
def ItemKind.isPrompt : ItemKind → Bool
  | .note | .string => true
  | _ => false

namespace Tree

variable {t u : Tree} {whole : Prop} {b : Nat} {p c : ItemId}

/-- A note or a string starts behind the tokens of all items that were added before it. -/
def Successive (t : Tree) : Prop :=
  ∀ i j, i < j → (t.kind j).isPrompt → ∀ s ∈ (t.item i).token, s.start < (t.item j).position

theorem start_successive : start.Successive := by
  intro i j order prompt
  have bare : start.kind j = .document := by
    cases j <;> rfl
  rw [bare] at prompt
  cases prompt

theorem Successive.push (successive : t.Successive) {kind : ItemKind} {position : Nat} {token : Option Token}
    (behind : kind.isPrompt → ∀ i, ∀ s ∈ (t.item i).token, s.start < position) :
    (t.push (.single kind position token)).Successive := by
  intro i j order prompt
  rw [Tree.kind] at prompt
  by_cases new : j = t.size
  · rw [item_push t _ j, if_pos new] at prompt ⊢
    rw [item_push, if_neg (new ▸ Nat.ne_of_lt order)]
    exact behind prompt i
  · rw [item_push t _ j, if_neg new] at prompt ⊢
    have inside : j < t.size := Nat.lt_of_not_le fun outside => by
      rw [item_of_size_le outside] at prompt
      cases prompt
    rw [item_push, if_neg (Nat.ne_of_lt (Nat.lt_trans order inside))]
    exact successive i j order prompt

theorem Successive.same_heads (successive : t.Successive) (kind : ∀ i, u.kind i = t.kind i)
    (token : ∀ i, (u.item i).token = (t.item i).token)
    (position : ∀ i, (u.item i).position = (t.item i).position) : u.Successive := by
  intro i j order prompt
  rw [token, position]
  exact successive i j order (kind j ▸ prompt)

theorem Successive.update (successive : t.Successive) {f : Item → Item} (same : ∀ i, SamePlace i (f i)) :
    (t.update p f).Successive :=
  have place := place_update same t p
  successive.same_heads (fun i => (place i).kind) (fun i => (place i).token) fun i => (place i).position

theorem Successive.append (successive : t.Successive) (p c : ItemId) : (t.append p c).Successive :=
  successive.same_heads (fun i => by rw [Tree.kind, item_moved]; rfl) (fun i => by rw [item_moved]) fun i => by
    rw [item_moved]

theorem Successive.appendAll (successive : t.Successive) (p : ItemId) (ids : List ItemId) :
    (t.appendAll p ids).Successive := by
  induction ids generalizing t with
  | nil => exact successive
  | cons c ids ih => exact ih (successive.append p c)

/-- All tokens that start items start in front of where the items end. -/
theorem Laid.starts_before (laid : t.Laid whole b) (i : ItemId) : ∀ s ∈ (t.item i).token, s.start < b := by
  intro s leads
  have stop := (laid.ends i).marks s (by simp [Item.marks, Option.mem_def.mp leads])
  exact Nat.lt_of_lt_of_le ((laid.placed i).leading s leads).2 stop

end Tree

end ScoreText
