import ScoreText.Proofs.Expression
import ScoreText.Proofs.Still

/-! Mirrors of music in a tree that goes on changing. An item mirrors an expression as long as the items
from it on stay alike; what holds it does not matter. -/
namespace ScoreText

open ScoreText.Tree

variable {t u : Tree} {names : Naming} {lo : Nat}

/-- Items from a place on have later ones as children, and in another tree they are alike. -/
structure Tree.AlikeFrom (lo : Nat) (t u : Tree) : Prop where
  below : ∀ i, lo ≤ i → ∀ c ∈ t.children i, i < c ∧ c < t.size
  alike : ∀ i, lo ≤ i → i < t.size → Alike (t.item i) (u.item i)

theorem Tree.StillFrom.alikeFrom (same : StillFrom lo t u) : AlikeFrom lo t u where
  below := same.below
  alike i inside there := by
    obtain ⟨_, still⟩ := same.still i inside there
    rw [still]
    exact ⟨rfl, rfl, rfl, rfl⟩

/-- An item from the place on. -/
def Tree.From (lo : Nat) (t : Tree) (id : ItemId) : Prop :=
  lo ≤ id ∧ id < t.size

theorem Tree.Gains.alikeFrom {v : Tree} {ids others : List ItemId} (first : Gains t u ids)
    (later : Gains u v others) : AlikeFrom t.size u v where
  below := first.below
  alike i _ there := later.kept i there ▸ .refl _

theorem Tree.Gains.from {ids : List ItemId} (gains : Gains t u ids) {id : ItemId} (member : id ∈ ids) :
    From t.size u id :=
  ⟨(gains.loose id member).1, (gains.loose id member).2.1⟩

theorem Tree.Gains.putFrom {v : Tree} {p : ItemId} {ids : List ItemId} (gains : Gains t u [p])
    (more : Gains u v ids) : AlikeFrom (p + 1) v (ids.foldl (·.append p) v) where
  below i later :=
    (gains.trans more).below i (Nat.le_trans (gains.from List.mem_cons_self).1 (Nat.le_of_lt later))
  alike i later _ := (gains.putAll more).2.2.2 i (Nat.ne_of_gt later)

namespace Tree.AlikeFrom

variable {id : ItemId}

theorem from_child (same : AlikeFrom lo t u) (inside : From lo t id) {c : ItemId}
    (member : c ∈ t.children id) : From lo t c :=
  ⟨Nat.le_of_lt (Nat.lt_of_le_of_lt inside.1 (same.below id inside.1 c member).1),
    (same.below id inside.1 c member).2⟩

theorem kind (same : AlikeFrom lo t u) (inside : From lo t id) : u.kind id = t.kind id :=
  (same.alike id inside.1 inside.2).kind

theorem details (same : AlikeFrom lo t u) (inside : From lo t id) :
    (u.item id).details = (t.item id).details :=
  (same.alike id inside.1 inside.2).details

theorem duration (same : AlikeFrom lo t u) (inside : From lo t id) :
    (u.item id).duration = (t.item id).duration :=
  (same.alike id inside.1 inside.2).duration

theorem children (same : AlikeFrom lo t u) (inside : From lo t id) : u.children id = t.children id :=
  (same.alike id inside.1 inside.2).children

end Tree.AlikeFrom

section Kept

variable {id : ItemId} (same : AlikeFrom lo t u) (inside : From lo t id)
include same inside

theorem Tone.MirroredBy.kept {tone : Tone} (mirrored : tone.MirroredBy t names id) :
    tone.MirroredBy u names id := by
  unfold Tone.MirroredBy at mirrored ⊢
  rwa [same.kind inside, same.details inside]

theorem WrittenBy.kept {written : Option Length} {ids : List ItemId} (known : WrittenBy t written ids)
    (children : ∀ c ∈ ids, c ∈ t.children id) : WrittenBy u written ids := by
  cases written with
  | none => exact known
  | some l =>
    obtain ⟨c, rfl, kind⟩ := known
    exact ⟨c, rfl, by rw [same.kind (same.from_child inside (children c (by simp))), kind]⟩

omit inside in
theorem notes_kept {ids : List ItemId} {tones : List Tone} (inside : ∀ c ∈ ids, From lo t c)
    (mirrored : List.Forall₂ (fun id tone => tone.MirroredBy t names id ∧ t.children id = []) ids tones) :
    List.Forall₂ (fun id tone => tone.MirroredBy u names id ∧ u.children id = []) ids tones := by
  refine ((List.forall₂_and_left ..).mpr ⟨inside, mirrored⟩).imp fun c tone known => ?_
  exact ⟨known.2.1.kept same known.1, (same.children known.1).trans known.2.2⟩

theorem Leaf.MirroredBy.kept {leaf : Leaf} {written : Option Length}
    (mirrored : leaf.MirroredBy t names written id) : leaf.MirroredBy u names written id := by
  cases leaf with
  | note tone =>
    refine ⟨mirrored.1.kept same inside, ?_⟩
    rw [same.children inside]
    exact mirrored.2.kept same inside fun c member => member
  | rest =>
    refine ⟨(same.kind inside).trans mirrored.1, ?_⟩
    rw [same.children inside]
    exact mirrored.2.kept same inside fun c member => member
  | chord first others =>
    obtain ⟨kind, notes, ids, children, tones, known⟩ := mirrored
    refine ⟨(same.kind inside).trans kind, notes, ids, (same.children inside).trans children, ?_, ?_⟩
    · exact notes_kept same (fun c member => same.from_child inside (by simp [children, member])) tones
    · exact known.kept same inside fun c member => by simp [children, member]

end Kept

mutual

theorem Music.MirroredBy.kept {last : Length} {m : Music} {id : ItemId} (same : AlikeFrom lo t u)
    (inside : From lo t id) (mirrored : m.MirroredBy t names last id) :
    m.MirroredBy u names last id := by
  cases m with
  | leaf l written =>
    simp only [Music.MirroredBy] at mirrored ⊢
    exact ⟨mirrored.1.kept same inside, (same.duration inside).trans mirrored.2⟩
  | list b items =>
    simp only [Music.MirroredBy] at mirrored ⊢
    obtain ⟨kind, details, all⟩ := mirrored
    rw [same.kind inside, same.details inside, same.children inside]
    exact ⟨kind, details, all.kept same fun c member => same.from_child inside member⟩
  | tuplet p b items =>
    simp only [Music.MirroredBy] at mirrored ⊢
    obtain ⟨kind, details, number, list, children, number_kind, list_kind, list_details, all⟩ := mirrored
    have number_there := same.from_child inside (c := number) (by simp [children])
    have list_there := same.from_child inside (c := list) (by simp [children])
    rw [same.kind inside, same.details inside, same.children inside]
    refine ⟨kind, details, number, list, children, (same.kind number_there).trans number_kind,
      (same.kind list_there).trans list_kind, (same.details list_there).trans list_details, ?_⟩
    rw [same.children list_there]
    exact all.kept same fun c member => same.from_child list_there member

theorem Music.AllMirroredBy.kept {last : Length} {ms : List Music} {ids : List ItemId}
    (same : AlikeFrom lo t u) (inside : ∀ c ∈ ids, From lo t c)
    (mirrored : AllMirroredBy t names last ms ids) : AllMirroredBy u names last ms ids := by
  cases ms with
  | nil => simpa [Music.AllMirroredBy] using mirrored
  | cons m ms =>
    simp only [Music.AllMirroredBy] at mirrored ⊢
    obtain ⟨id, others, rfl, first, rest⟩ := mirrored
    exact ⟨id, others, rfl, first.kept same (inside id List.mem_cons_self),
      rest.kept same fun c member => inside c (List.mem_cons_of_mem _ member)⟩

end

end ScoreText
