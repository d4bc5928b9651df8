import ScoreText.Document.Output
import ScoreText.Proofs.TimeApart

/-! Questions about the documents of a family, in any order. Whatever is asked, no more is found out than
what items include, one item after the other. -/
namespace ScoreText

/-- A question about a document whose answer may need further documents to be read. -/
inductive Question where
  /-- which document an item includes -/
  | inclusion (id : ItemId)
  /-- the toplevel items in front of an item, with those of included documents -/
  | itemsInFront (id : ItemId)
  | variableValue (id : ItemId)
  | markupDefinition (id : ItemId)
  /-- whether an item makes a page -/
  | page (id : ItemId)
  | length (id : ItemId)
  /-- where a walk along an item ends that starts at a time -/
  | walk (c : Counting) (id : ItemId) (time scaling : Fraction)
  | timeAt (position : Nat)
  | timeApart (a b : Nat)

structure Query where
  document : DocumentId
  question : Question

namespace Family

/-- The family after a question about a document. -/
def answering (f : Family) (d : DocumentId) : Question → Family
  | .inclusion id => ((included d id).run f).2
  | .itemsInFront id => ((expandedToplevelItems d id).run f).2
  | .variableValue id => ((variableValue? d id).run f).2
  | .markupDefinition id => ((markupDefinition? d id).run f).2
  | .page id => ((makesPage d id).run f).2
  | .length id => ((lengthOf d id).run f).2
  | .walk c id time scaling => ((timed (timeAfter c d id time scaling)).run f).2
  | .timeAt position => ((timeAt? d position).run f).2
  | .timeApart a b => ((timeApart? d a b).run f).2

/-- The family after a query. Only a document that is there can be asked about. -/
def asked (f : Family) (q : Query) : Family :=
  if q.document < f.documents.size then f.answering q.document q.question else f

/-- The family after queries one after the other. -/
def askedAll (f : Family) (queries : List Query) : Family :=
  queries.foldl asked f

section Output

/-- A search that finds out no more than what items include, whatever it has seen before. -/
def Searches {α : Type} (act : Searching α) : Prop :=
  ∀ seen (f : Family), f.Later ((act.run seen).run f).2

namespace Searches

variable {α β : Type}

theorem pure (a : α) : Searches (Pure.pure a) :=
  fun _ _ => .refl

theorem bind {x : Searching α} {k : α → Searching β} (first : Searches x)
    (next : ∀ a, Searches (k a)) : Searches (x >>= k) :=
  fun seen f => (first seen f).trans (next _ _ _)

theorem included (d : DocumentId) (id : ItemId) : Searches (liftM (included d id)) :=
  fun _ _ => .asked d id .refl

theorem anyM {test : β → Searching Bool} (tests : ∀ b, Searches (test b)) (items : List β) :
    Searches (items.anyM test) := by
  induction items with
  | nil => exact .pure false
  | cons b items ih =>
    apply Searches.bind (tests b)
    intro yes
    cases yes with
    | true => exact .pure true
    | false => exact ih

end Searches

theorem outputBelow_searches {enter : DocumentId → Searching Bool} (entered : ∀ d, Searches (enter d))
    (d : DocumentId) (tree : Tree) (n : Nat) (id : ItemId) :
    Searches (outputBelow enter d tree n id) := by
  induction n generalizing id with
  | zero => exact .pure false
  | succ n ih =>
    unfold outputBelow
    split
    on_goal 1 => refine .bind (fun _ _ => .refl) fun _ => ?_
    -- Whether or not the document is marked as seen, its children are searched next.
    all_goals
      refine .anyM (fun c => ?_) (tree.children id)
      split
      · exact .pure true
      · exact ih c
      · exact ih c
      · exact ih c
      · apply Searches.bind (.included d c)
        intro found
        cases found with
        | none => exact .pure false
        | some inner =>
          apply Searches.bind (x := get) fun _ _ => .refl
          intro seen
          split
          · exact .pure false
          · exact entered inner
      · exact .pure _

theorem outputWithin_searches (n : Nat) (d : DocumentId) (id : ItemId) :
    Searches (outputWithin n d id) := by
  induction n generalizing d id with
  | zero => exact .pure false
  | succ n ih =>
    apply Searches.bind (x := getThe Family) fun _ _ => .refl
    intro f
    exact outputBelow_searches (fun inner => ih inner Tree.root) d _ _ id

end Output

variable {f : Family} {d : DocumentId}

theorem lengthOf_later (sound : f.Sound) (there : d < f.documents.size) (id : ItemId) :
    f.Later ((lengthOf d id).run f).2 := by
  unfold lengthOf
  rw [run_get_bind]
  dsimp only
  split
  · exact .refl
  · split
    · exact (walk_lasts _ _ _ sound there id 0 1 false).later
    · exact .refl

theorem markupDefinition_later (sound : f.Sound) (there : d < f.documents.size) (id : ItemId) :
    f.Later ((markupDefinition? d id).run f).2 := by
  unfold markupDefinition?
  rw [run_get_bind]
  split
  · exact .refl
  · exact (definition_lasting _ sound there id).later

theorem makesPage_later (f : Family) (d : DocumentId) (id : ItemId) :
    f.Later ((makesPage d id).run f).2 :=
  outputWithin_searches (f.files.depthLimit + 1) d id [] f

theorem answering_later (sound : f.Sound) (there : d < f.documents.size) (q : Question) :
    f.Later (f.answering d q) := by
  have keeps {α : Type} (visitor : Visitor α) : Keeps visitor fun _ _ => True :=
    ⟨fun _ _ => trivial, fun _ _ _ _ => trivial⟩
  cases q with
  | inclusion id => exact .asked d id .refl
  | itemsInFront id => exact (visitToplevel_lasting (keeps _) sound there id trivial).later
  | variableValue id => exact (variableValue_lasting sound there id).later
  | markupDefinition id => exact markupDefinition_later sound there id
  | page id => exact makesPage_later f d id
  | length id => exact lengthOf_later sound there id
  | walk c id time scaling => exact (walk_lasts _ _ _ sound there id time scaling false).later
  | timeAt position => exact (timeAt_lasting sound there position).later
  | timeApart a b => exact (timeBetween_lasting sound there _ _).later

theorem asked_later (sound : f.Sound) (q : Query) : f.Later (f.asked q) := by
  unfold asked
  split
  · rename_i there
    exact answering_later sound there q.question
  · exact .refl

theorem askedAll_later (sound : f.Sound) (queries : List Query) : f.Later (f.askedAll queries) := by
  induction queries generalizing f with
  | nil => exact .refl
  | cons q queries ih =>
    have first := asked_later sound q
    exact first.trans (ih (first.kept sound).2)

end Family
end ScoreText
