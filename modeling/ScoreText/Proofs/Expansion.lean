import Mathlib.Data.List.Perm.Subperm
import Mathlib.Data.Finset.Card
import ScoreText.Document.Variable
import ScoreText.Proofs.Inclusions

/-! The toplevel items in front of an item, inclusions replaced by what they include. Their order is
told by a relation that no limit and no visitor occurs in. With texts at finitely many paths the limit on
documents opened within each other is never met, and a visitor sees the items in that order until it is
done. -/
namespace ScoreText.Family

/-- What items of a document come to, where some documents are open. An inclusion is replaced by the
toplevel items of its document, the last first, but by nothing if it leads nowhere or to a document that
is open. -/
inductive Expands (f : Family) :
    List DocumentId → DocumentId → List ItemId → List (DocumentId × ItemId) → Prop
  | nil {opened : List DocumentId} {d : DocumentId} : Expands f opened d [] []
  | item {opened : List DocumentId} {d : DocumentId} {item : ItemId} {items : List ItemId}
      {out : List (DocumentId × ItemId)} : (f.document d).tree.kind item ≠ .inclusion →
      Expands f opened d items out → Expands f opened d (item :: items) ((d, item) :: out)
  | left {opened : List DocumentId} {d : DocumentId} {item : ItemId} {items : List ItemId}
      {out : List (DocumentId × ItemId)} {found : Option DocumentId} :
      (f.document d).tree.kind item = .inclusion → (included d item).run f = (found, f) →
      (∀ inner ∈ found, inner ∈ opened) → Expands f opened d items out →
      Expands f opened d (item :: items) out
  | opens {opened : List DocumentId} {d inner : DocumentId} {item : ItemId} {items : List ItemId}
      {under out : List (DocumentId × ItemId)} :
      (f.document d).tree.kind item = .inclusion → (included d item).run f = (some inner, f) →
      inner ∉ opened →
      Expands f (inner :: opened) inner ((f.document inner).tree.children Tree.root).reverse under →
      Expands f opened d items out → Expands f opened d (item :: items) (under ++ out)

/-- What stands in front of a toplevel item, then in front of the item that includes its document as long
as that one is toplevel. The documents on the way up stay open. -/
inductive Above (f : Family) :
    List DocumentId → DocumentId → ItemId → List (DocumentId × ItemId) → Prop
  | last {opened : List DocumentId} {d : DocumentId} {node : ItemId}
      {out : List (DocumentId × ItemId)} :
      (∀ above item, (f.document d).includedFrom = some (above, item) →
        (f.document above).tree.parent item ≠ some Tree.root) →
      Expands f (d :: opened) d ((f.document d).tree.before node) out → Above f opened d node out
  | next {opened : List DocumentId} {d above : DocumentId} {node item : ItemId}
      {out rest : List (DocumentId × ItemId)} :
      (f.document d).includedFrom = some (above, item) →
      (f.document above).tree.parent item = some Tree.root →
      Expands f (d :: opened) d ((f.document d).tree.before node) out →
      Above f (d :: opened) above item rest → Above f opened d node (out ++ rest)

/-- The toplevel items in front of an item in their order, none if the item lies in no toplevel item. -/
inductive InFront (f : Family) (d : DocumentId) (id : ItemId) : List (DocumentId × ItemId) → Prop
  | nowhere : (f.document d).tree.toplevel? id = none → InFront f d id []
  | under {node : ItemId} {out : List (DocumentId × ItemId)} :
      (f.document d).tree.toplevel? id = some node → Above f [] d node out → InFront f d id out

section Unique

variable {f : Family} {opened : List DocumentId} {d : DocumentId} {items : List ItemId}
  {out other : List (DocumentId × ItemId)}

theorem Expands.unique (expands : f.Expands opened d items out)
    (others : f.Expands opened d items other) : out = other := by
  induction expands generalizing other with
  | nil =>
    cases others
    rfl
  | item kind _ ih =>
    cases others with
    | item _ rest => rw [ih rest]
    | left inclusion => exact absurd inclusion kind
    | opens inclusion => exact absurd inclusion kind
  | left inclusion answer within _ ih =>
    cases others with
    | item kind => exact absurd inclusion kind
    | left _ _ _ rest => exact ih rest
    | opens _ second outside =>
      cases answer.symm.trans second
      exact absurd (within _ rfl) outside
  | opens inclusion answer outside _ _ ih_under ih =>
    cases others with
    | item kind => exact absurd inclusion kind
    | left _ second within =>
      cases answer.symm.trans second
      exact absurd (within _ rfl) outside
    | opens _ second _ under rest =>
      cases answer.symm.trans second
      rw [ih_under under, ih rest]

theorem Above.unique {node : ItemId} (above : f.Above opened d node out)
    (others : f.Above opened d node other) : out = other := by
  induction above generalizing other with
  | last top expands =>
    cases others with
    | last _ rest => exact expands.unique rest
    | next up toplevel => exact absurd toplevel (top _ _ up)
  | next up toplevel expands _ ih =>
    cases others with
    | last top => exact absurd toplevel (top _ _ up)
    | next second _ rest upper =>
      cases up.symm.trans second
      rw [expands.unique rest, ih upper]

theorem InFront.unique {id : ItemId} (front : f.InFront d id out) (others : f.InFront d id other) :
    out = other := by
  cases front with
  | nowhere outside =>
    cases others with
    | nowhere => rfl
    | under inside => cases outside.symm.trans inside
  | under inside above =>
    cases others with
    | nowhere outside => cases outside.symm.trans inside
    | under second rest =>
      cases inside.symm.trans second
      exact above.unique rest

end Unique

section Grown

variable {f g : Family} {opened : List DocumentId} {d : DocumentId} {items : List ItemId}
  {out : List (DocumentId × ItemId)}

theorem included_settled (sound : f.Sound) (there : d < f.documents.size) {id : ItemId}
    {found : Option DocumentId} (answer : (included d id).run f = (found, f)) (grown : f.Grows g) :
    (included d id).run g = (found, g) := by
  have again := (included_lasting sound there id).again g
  rw [answer] at again
  exact again grown

theorem included_inside (sound : f.Sound) (there : d < f.documents.size) {id : ItemId}
    {inner : DocumentId} (answer : (included d id).run f = (some inner, f)) :
    inner < f.documents.size := by
  have inside := (included_lasting sound there id).answer
  rw [answer] at inside
  exact inside inner rfl

theorem Expands.grown (expands : f.Expands opened d items out) (sound : f.Sound)
    (there : d < f.documents.size) (grown : f.Grows g) : g.Expands opened d items out := by
  induction expands with
  | nil => exact .nil
  | item kind _ ih =>
    apply Expands.item _ (ih there)
    rw [grown.documents _ there]
    exact kind
  | left inclusion answer within _ ih =>
    apply Expands.left _ (included_settled sound there answer grown) within (ih there)
    rw [grown.documents _ there]
    exact inclusion
  | opens inclusion answer outside _ _ ih_under ih =>
    have inside := included_inside sound there answer
    apply Expands.opens _ (included_settled sound there answer grown) outside _ (ih there)
    · rw [grown.documents _ there]
      exact inclusion
    · rw [grown.documents _ inside]
      exact ih_under inside

theorem Expands.cons {item : ItemId} {first : List (DocumentId × ItemId)}
    (one : f.Expands opened d [item] first) (others : f.Expands opened d items out) :
    f.Expands opened d (item :: items) (first ++ out) := by
  cases one with
  | item kind nothing =>
    cases nothing
    exact .item kind others
  | left inclusion answer within nothing =>
    cases nothing
    exact .left inclusion answer within others
  | opens inclusion answer outside under nothing =>
    cases nothing
    rw [List.append_nil]
    exact .opens inclusion answer outside under others

end Grown

/-- A visitor's way through items until it is done. -/
def visited {α : Type} (visitor : Visitor α) (f : Family) : List (DocumentId × ItemId) → α → Turn α
  | [], a => .more a
  | (d, item) :: rest, a =>
    match visitor d (f.document d) item a with
    | .done a => .done a
    | .more a => visited visitor f rest a

/-- A walk that takes each visitor over the same items. One that goes on to the end leaves the same
family behind. -/
structure Walks (f g : Family) (out : List (DocumentId × ItemId))
    (walk : {α : Type} → Visitor α → α → Resolving (Turn α)) : Prop where
  later : f.Later g
  inside : ∀ p ∈ out, p.1 < g.documents.size
  more : ∀ {α : Type} (visitor : Visitor α) (a b : α), visited visitor g out a = .more b →
    (walk visitor a).run f = (.more b, g)
  done : ∀ {α : Type} (visitor : Visitor α) (a b : α), visited visitor g out a = .done b →
    ((walk visitor a).run f).1 = .done b

section Visited

variable {α : Type} {visitor : Visitor α} {f g : Family} {out : List (DocumentId × ItemId)}

theorem visited_grown (grown : f.Grows g) (inside : ∀ p ∈ out, p.1 < f.documents.size) (a : α) :
    visited visitor g out a = visited visitor f out a := by
  induction out generalizing a with
  | nil => rfl
  | cons p out ih =>
    simp only [List.forall_mem_cons] at inside
    simp only [visited, grown.documents p.1 inside.1]
    split
    · rfl
    · exact ih inside.2 _

theorem visited_append (visitor : Visitor α) (f : Family) (out rest : List (DocumentId × ItemId)) (a : α) :
    visited visitor f (out ++ rest) a =
      match visited visitor f out a with
      | .done a => .done a
      | .more a => visited visitor f rest a := by
  induction out generalizing a with
  | nil => rfl
  | cons p out ih =>
    simp only [List.cons_append, visited]
    split
    · rfl
    · exact ih _

end Visited

namespace Walks

variable {f g h : Family} {out rest : List (DocumentId × ItemId)}

theorem nil (f : Family) : Walks f f [] fun _ a => Pure.pure (.more a) where
  later := .refl
  inside := by simp
  more _ _ _ same := by
    cases same
    rfl
  done _ _ _ same := by cases same

theorem append (sound : f.Sound) {first second : {α : Type} → Visitor α → α → Resolving (Turn α)}
    (one : Walks f g out first) (two : Walks g h rest second) :
    Walks f h (out ++ rest) (fun v a => do
      match ← first v a with
      | .done a => return .done a
      | .more a => second v a) := by
  have grown := (two.later.kept (one.later.kept sound).2).1
  constructor
  · exact one.later.trans two.later
  · intro p mem
    rcases List.mem_append.mp mem with mem | mem
    · exact Nat.lt_of_lt_of_le (one.inside p mem) grown.size
    · exact two.inside p mem
  · intro α v a c same
    rw [visited_append, visited_grown grown one.inside] at same
    split at same
    · cases same
    · rename_i b going
      rw [run_bind, one.more v a b going]
      exact two.more v b c same
  · intro α v a c same
    rw [visited_append, visited_grown grown one.inside] at same
    split at same
    · rename_i b stopped
      cases same
      rw [run_bind, one.done v a c stopped]
      rfl
    · rename_i b going
      rw [run_bind, one.more v a b going]
      exact two.done v b c same

theorem one {d : DocumentId} (there : d < f.documents.size) (item : ItemId) :
    Walks f f [(d, item)] fun v a => Pure.pure (v d (f.document d) item a) where
  later := .refl
  inside := by simpa using there
  more v a b same := by
    simp only [visited] at same
    split at same
    · cases same
    · rename_i going
      cases same
      exact congrArg (·, f) going
  done v a b same := by
    simp only [visited] at same
    split at same
    · rename_i stopped
      cases same
      exact stopped
    · cases same

theorem after {walk start : {α : Type} → Visitor α → α → Resolving (Turn α)} (later : f.Later g)
    (same : ∀ {α : Type} (v : Visitor α) (a : α), (start v a).run f = (walk v a).run g)
    (walks : Walks g h out walk) : Walks f h out start where
  later := later.trans walks.later
  inside := walks.inside
  more v a b going := by rw [same, walks.more v a b going]
  done v a b stopped := by rw [same, walks.done v a b stopped]

end Walks

section Visit

/-- No more documents are ever read. -/
def Bounded (f : Family) (most : Nat) : Prop :=
  ∀ g, f.Later g → g.documents.size ≤ most

theorem Bounded.later {f g : Family} {most : Nat} (bounded : f.Bounded most) (later : f.Later g) :
    g.Bounded most :=
  fun h further => bounded h (later.trans further)

/-- How many documents there can be beside those that are open. -/
def closed (most : Nat) (opened : List DocumentId) : Nat :=
  (Finset.range most \ opened.toFinset).card

theorem closed_cons {most : Nat} {opened : List DocumentId} {inner : DocumentId}
    (outside : inner ∉ opened) (inside : inner < most) :
    closed most (inner :: opened) < closed most opened := by
  apply Finset.card_lt_card
  constructor
  · intro e
    simp +contextual
  · intro same
    have mem : inner ∈ Finset.range most \ (inner :: opened).toFinset := same (by simp [outside, inside])
    simp at mem

theorem closed_lt {most : Nat} (opened : List DocumentId) {d : DocumentId} (inside : d < most) :
    closed most (d :: opened) < most := by
  have fewer : closed most (d :: opened) < (Finset.range most).card := by
    apply Finset.card_lt_card
    constructor
    · exact Finset.sdiff_subset
    · intro same
      have mem := same (Finset.mem_range.mpr inside)
      simp at mem
  rwa [Finset.card_range] at fewer

variable {f : Family} {opened : List DocumentId} {d : DocumentId} {most : Nat}

theorem takeTurns_walks {turn : {α : Type} → Visitor α → ItemId → α → Resolving (Turn α)}
    (sound : f.Sound) (there : d < f.documents.size)
    (turns : ∀ g, f.Later g → ∀ item, ∃ out h, h.Expands opened d [item] out ∧
      Walks g h out fun v a => turn v item a) (items : List ItemId) :
    ∃ out g, g.Expands opened d items out ∧ Walks f g out fun v a => takeTurns (turn v) items a := by
  induction items generalizing f with
  | nil => exact ⟨[], f, .nil, .nil f⟩
  | cons item items ih =>
    obtain ⟨first, g, expands, walks⟩ := turns f .refl item
    obtain ⟨grown, after⟩ := walks.later.kept sound
    have inside := Nat.lt_of_lt_of_le there grown.size
    obtain ⟨rest, h, others, walks_on⟩ := ih after inside fun h later => turns h (walks.later.trans later)
    have last := (walks_on.later.kept after).1
    exact ⟨first ++ rest, h, (expands.grown after inside last).cons others, walks.append sound walks_on⟩

section Run

variable {α : Type} {visitor : Visitor α} {g : Family} {n : Nat} {item : ItemId}

theorem run_visit_item (kind : (f.document d).tree.kind item ≠ .inclusion) (a : α) :
    (visit visitor (n + 1) opened d item a).run f = (visitor d (f.document d) item a, f) := by
  rw [visit, run_get_bind, if_pos (by simpa using kind)]
  rfl

theorem run_visit_left {found : Option DocumentId}
    (inclusion : (f.document d).tree.kind item = .inclusion)
    (answer : (included d item).run f = (found, g)) (within : ∀ inner ∈ found, inner ∈ opened) (a : α) :
    (visit visitor (n + 1) opened d item a).run f = (.more a, g) := by
  rw [visit, run_get_bind, if_neg (by simp [inclusion]), run_bind, answer]
  cases found with
  | none => rfl
  | some inner =>
    dsimp only
    rw [if_pos (by simpa using within inner rfl)]
    rfl

theorem run_visit_opens {inner : DocumentId} (inclusion : (f.document d).tree.kind item = .inclusion)
    (answer : (included d item).run f = (some inner, g)) (outside : inner ∉ opened) (a : α) :
    (visit visitor (n + 1) opened d item a).run f =
      (takeTurns (visit visitor n (inner :: opened) inner)
        ((g.document inner).tree.children Tree.root).reverse a).run g := by
  rw [visit, run_get_bind, if_neg (by simp [inclusion]), run_bind, answer]
  simp [outside]

end Run

/-- A visit to an item takes each visitor over what the item comes to. The induction is on the limit,
which is larger than the number of documents that are not open. -/
theorem visit_walks (n : Nat) (sound : f.Sound) (bounded : f.Bounded most)
    (there : d < f.documents.size) (enough : closed most opened < n) (item : ItemId) :
    ∃ out g, g.Expands opened d [item] out ∧
      Walks f g out fun v a => visit v n opened d item a := by
  induction n generalizing f opened d item with
  | zero => exact absurd enough (Nat.not_lt_zero _)
  | succ n ih =>
    by_cases inclusion : (f.document d).tree.kind item = .inclusion
    · have lasting := included_lasting sound there item
      obtain ⟨grown, after⟩ := lasting.kept sound
      have again := lasting.again _ (.refl _)
      have later := lasting.later
      have found_inside := lasting.answer
      generalize asked : (included d item).run f = answer at *
      obtain ⟨found, g⟩ := answer
      have settled : (g.document d).tree.kind item = .inclusion := by
        rw [grown.documents d there, inclusion]
      by_cases within : ∀ inner ∈ found, inner ∈ opened
      · refine ⟨[], g, .left settled again within .nil, ?_⟩
        exact (Walks.nil g).after later fun v a => run_visit_left inclusion asked within a
      · obtain ⟨inner, rfl, outside⟩ : ∃ inner, found = some inner ∧ inner ∉ opened := by
          simpa using within
        have inside : inner < g.documents.size := found_inside inner rfl
        -- entering a document leaves one less that is not open, so the limit may go down by one
        have fewer := closed_cons outside (Nat.lt_of_lt_of_le inside (bounded g later))
        have turns (h : Family) (further : g.Later h) (item : ItemId) := by
          obtain ⟨grown, sound⟩ := further.kept after
          exact ih sound (bounded.later (later.trans further)) (Nat.lt_of_lt_of_le inside grown.size)
            (Nat.lt_of_lt_of_le fewer (Nat.le_of_lt_succ enough)) item
        obtain ⟨out, h, expands, walks⟩ := takeTurns_walks after inside turns
          ((g.document inner).tree.children Tree.root).reverse
        have last := (walks.later.kept after).1
        have inside_g := Nat.lt_of_lt_of_le there grown.size
        refine ⟨out ++ [], h, .opens ?_ (included_settled after inside_g again last) outside ?_ .nil, ?_⟩
        · rw [last.documents d inside_g, settled]
        · rw [last.documents inner inside]
          exact expands
        · rw [List.append_nil]
          exact walks.after later fun v a => run_visit_opens inclusion asked outside a
    · refine ⟨[(d, item)], f, .item inclusion .nil, ?_⟩
      exact (Walks.one there item).after .refl fun v a => run_visit_item inclusion a

/-- The items in front of a toplevel item and of the inclusions above. -/
theorem visitAbove_walks (opened : List DocumentId) (n : Nat) (sound : f.Sound) (bounded : f.Bounded f.files.depthLimit)
    (there : d < f.documents.size) (enough : d < n) (node : ItemId) :
    ∃ out g, g.Above opened d node out ∧
      Walks f g out fun v a => visitAbove v (f.stationsFrom n d node) opened a := by
  induction n generalizing f opened d node with
  | zero => exact absurd enough (Nat.not_lt_zero d)
  | succ n ih =>
    have fewer : closed f.files.depthLimit (d :: opened) < f.files.depthLimit :=
      closed_lt opened (Nat.lt_of_lt_of_le there (bounded f .refl))
    have turns (g : Family) (later : f.Later g) (item : ItemId) := by
      obtain ⟨grown, sound⟩ := later.kept sound
      exact visit_walks f.files.depthLimit sound (bounded.later later)
        (Nat.lt_of_lt_of_le there grown.size) fewer item
    obtain ⟨out, g, expands, walks⟩ := takeTurns_walks sound there turns ((f.document d).tree.before node)
    obtain ⟨grown, after⟩ := walks.later.kept sound
    have start {α : Type} (v : Visitor α) (above : List (DocumentId × ItemId)) (a : α) :
        (visitAbove v ((d, node) :: above) opened a).run f = (do
          match ← takeTurns (visit v f.files.depthLimit (d :: opened) d)
            ((f.document d).tree.before node) a with
          | .done a => return .done a
          | .more a => visitAbove v above (d :: opened) a : Resolving (Turn α)).run f :=
      rfl
    rw [← grown.documents d there] at expands
    by_cases up : ∃ above item, (f.document d).includedFrom = some (above, item) ∧
        (f.document above).tree.parent item = some Tree.root
    · obtain ⟨above, item, from_above, toplevel⟩ := up
      -- a document is included from an earlier one, so its number goes down on the way up
      have smaller := sound.above d above item from_above
      have above_there := Nat.lt_trans smaller there
      have above_enough := Nat.lt_of_lt_of_le smaller (Nat.le_of_lt_succ enough)
      obtain ⟨rest, h, others, walks_on⟩ := ih (d :: opened) after
        (by rw [grown.files]; exact bounded.later walks.later)
        (Nat.lt_of_lt_of_le above_there grown.size) above_enough item
      have last := (walks_on.later.kept after).1
      have inside_g := Nat.lt_of_lt_of_le there grown.size
      have all := grown.trans last
      rw [(stationsFrom_grown sound grown above_there item above_enough above_enough).1] at walks_on
      refine ⟨out ++ rest, h, .next ?_ ?_ ?_ others, ?_⟩
      · rw [all.documents d there, from_above]
      · rw [all.documents above above_there, toplevel]
      · rw [last.documents d inside_g]
        exact expands.grown after inside_g last
      · apply (walks.append sound walks_on).after .refl
        intro α v a
        rw [stationsFrom, from_above]
        simp only [toplevel, BEq.rfl, if_true]
        exact start v _ a
    · refine ⟨out, g, .last ?_ expands, ?_⟩
      · intro above item from_above toplevel
        rw [grown.documents d there] at from_above
        have smaller := sound.above d above item from_above
        rw [grown.documents above (Nat.lt_trans smaller there)] at toplevel
        exact up ⟨above, item, from_above, toplevel⟩
      · have alone : f.stationsFrom (n + 1) d node = [(d, node)] := by
          rw [stationsFrom]
          split
          · rename_i above item from_above
            rw [if_neg]
            intro toplevel
            exact up ⟨above, item, from_above, by simpa using toplevel⟩
          · rfl
        rw [alone]
        rw [← List.append_nil out]
        apply (walks.append sound (.nil g)).after .refl
        intro α v a
        exact start v [] a

end Visit

section Files

variable {f : Family} {paths : List String} {text? : String → Option String}

/-- Documents beside the root are at paths that there are, no two at one. -/
theorem Linked.size_le (linked : f.Linked) (files : f.files = .within paths text?) :
    f.documents.size ≤ paths.length + 1 := by
  let partsOf (d : DocumentId) : List (List Char) := Path.parts ((f.document (d + 1)).filename.getD "")
  have nodup : ((List.range (f.documents.size - 1)).map partsOf).Nodup := by
    apply List.Nodup.map_on _ List.nodup_range
    intro d d_mem e e_mem same
    rw [List.mem_range] at d_mem e_mem
    obtain ⟨p, _, d_read⟩ := linked.read (d + 1) (Nat.succ_ne_zero d) (Nat.add_lt_of_lt_sub d_mem)
    obtain ⟨q, _, e_read⟩ := linked.read (e + 1) (Nat.succ_ne_zero e) (Nat.add_lt_of_lt_sub e_mem)
    simp only [partsOf, d_read.filename, e_read.filename, Option.getD_some] at same
    have equal := linked.once (d + 1) (e + 1) p q (Nat.succ_ne_zero d) (Nat.succ_ne_zero e)
      d_read.filename e_read.filename ((Path.same_iff p q).mpr same)
    exact Nat.succ.inj equal
  have subset : ((List.range (f.documents.size - 1)).map partsOf) ⊆ paths.map Path.parts := by
    intro parts mem
    obtain ⟨d, d_mem, rfl⟩ := List.mem_map.mp mem
    rw [List.mem_range] at d_mem
    obtain ⟨p, _, read⟩ := linked.read (d + 1) (Nat.succ_ne_zero d) (Nat.add_lt_of_lt_sub d_mem)
    have text := read.text
    rw [files, Files.within] at text
    dsimp only at text
    split at text
    · rename_i there
      obtain ⟨path, path_mem, same⟩ := List.any_eq_true.mp there
      apply List.mem_map.mpr
      refine ⟨path, path_mem, ?_⟩
      simp only [partsOf, read.filename, Option.getD_some]
      exact ((Path.same_iff p path).mp same).symm
    · cases text
  have fewer := (nodup.subperm subset).length_le
  simp only [List.length_map, List.length_range] at fewer
  exact Nat.le_add_of_sub_le fewer

theorem Linked.bounded (linked : f.Linked) (sound : f.Sound) (files : f.files = .within paths text?) :
    f.Bounded f.files.depthLimit := by
  intro g later
  have grown := (later.kept sound).1
  rw [files]
  exact (later.linked sound linked).size_le (grown.files.trans files)

end Files

theorem start_toplevel (id : ItemId) : Tree.start.toplevel? id = none := by
  have alone (id : ItemId) : Tree.start.parent id = none := by cases id <;> rfl
  rw [Tree.toplevel?, Tree.ancestors, show Tree.start.size = 1 from rfl, Tree.climb, alone]
  simp [alone]

/-- A walk along the toplevel items in front of an item sees them in their order. -/
theorem visitToplevel_walks {f : Family} (sound : f.Sound) (bounded : f.Bounded f.files.depthLimit)
    (d : DocumentId) (id : ItemId) :
    ∃ out g, g.InFront d id out ∧
      Walks f g out fun v a => visitAbove v (f.stations d id) [] a := by
  unfold stations
  cases top : (f.document d).tree.toplevel? id with
  | none => exact ⟨[], f, .nowhere top, .nil f⟩
  | some node =>
    have there : d < f.documents.size := by
      by_contra outside
      rw [document_of_size_le (Nat.le_of_not_lt outside), start_toplevel] at top
      cases top
    obtain ⟨out, g, above, walks⟩ := visitAbove_walks [] f.documents.size sound bounded there there
      node
    refine ⟨out, g, .under ?_ above, walks⟩
    rw [(walks.later.kept sound).1.documents d there, top]

section Answers

variable {α : Type} {f g : Family} {out : List (DocumentId × ItemId)}

theorem visited_collect (f : Family) (out seen : List (DocumentId × ItemId)) :
    visited (fun d _ item items => .more ((d, item) :: items)) f out seen = .more (out.reverse ++ seen) := by
  induction out generalizing seen with
  | nil => rfl
  | cons p out ih =>
    simp only [visited, ih]
    simp

/-- A visitor that looks for a value finds that of the first item that counts. -/
theorem visited_find (counts : Document → ItemId → Bool) (value? : Document → ItemId → Option ItemId)
    (f : Family) (out : List (DocumentId × ItemId)) :
    (visited (fun d doc item _ =>
      match if counts doc item then some (value? doc item) else none with
      | some value => .done (value.map fun v => (d, v))
      | none => .more none) f out none).value =
      (out.find? fun p => counts (f.document p.1) p.2).bind fun p =>
        (value? (f.document p.1) p.2).map fun v => (p.1, v) := by
  induction out with
  | nil => rfl
  | cons p out ih =>
    rw [List.find?_cons, visited]
    cases counts (f.document p.1) p.2 with
    | true => rfl
    | false => exact ih

theorem Walks.value {walk : {α : Type} → Visitor α → α → Resolving (Turn α)}
    (walks : Walks f g out walk) (visitor : Visitor α) (a : α) :
    ((walk visitor a).run f).1.value = (visited visitor g out a).value := by
  cases reached : visited visitor g out a with
  | more b => rw [walks.more visitor a b reached]
  | done b => rw [walks.done visitor a b reached]

end Answers

/-- With texts at finitely many paths, whatever was asked before: the toplevel items in front of an item
are those of the order told by `InFront`, and there is just one such list. The value that a command
calls is that of the first assignment with its name in this list. -/
theorem itemsInFront_ordered (options : Options) (paths : List String) (text? : String → Option String)
    (text : String) (filename : Option String) (queries : List Query) (d : DocumentId) (id : ItemId) :
    let f := (ofText options (.within paths text?) text filename).askedAll queries
    let answer := (expandedToplevelItems d id).run f
    answer.2.InFront d id answer.1 ∧
      (∀ other, answer.2.InFront d id other → other = answer.1) ∧
      ((variableValue? d id).run f).1 =
        match (f.document d).calledName? id with
        | none => none
        | some name =>
          (answer.1.find? fun p => (answer.2.document p.1).assigns name p.2).bind fun p =>
            ((answer.2.document p.1).assignedValue? p.2).map fun value => (p.1, value) := by
  obtain ⟨sound, linked, files⟩ := ofText_askedAll options (.within paths text?) text filename queries
  intro f answer
  obtain ⟨out, g, front, walks⟩ := visitToplevel_walks sound (linked.bounded sound files) d id
  have collected : answer = (out, g) := by
    let collector : Visitor (List (DocumentId × ItemId)) := fun d _ item items => .more ((d, item) :: items)
    have run : answer =
        let walked := (visitAbove collector (f.stations d id) [] []).run f
        (walked.1.value.reverse, walked.2) := rfl
    rw [run, walks.more collector [] _ (visited_collect g out [])]
    simp [Turn.value]
  rw [collected]
  constructor
  · exact front
  · constructor
    · intro other others
      exact others.unique front
    · rw [variableValue?, run_get_bind]
      cases called : (f.document d).calledName? id with
      | none => rfl
      | some name =>
        have same := walks.value (fun d doc item _ =>
          match if doc.assigns name item then some (doc.assignedValue? item) else none with
          | some value => .done (value.map fun v => (d, v))
          | none => .more none) none
        rw [visited_find fun doc => doc.assigns name] at same
        exact same

end ScoreText.Family
