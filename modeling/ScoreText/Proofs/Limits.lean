import ScoreText.Document.Output
import ScoreText.Proofs.Nesting
import ScoreText.Proofs.OutlineReading
import ScoreText.Proofs.ScoreLayout

/-! What a limit for the nesting of items leaves of a score. The toplevel items of a score with an outline
start with the tokens of the outline, so they stand at the same places whatever the limit is. -/
namespace ScoreText

open Reading

namespace Tree

variable {t : Tree} {p c : ItemId}

theorem mem_children_append_iff (there : p < t.size) {d : ItemId} :
    d ∈ (t.append p c).children p ↔ d ∈ t.children p ∨ d = c := by
  constructor
  · intro member
    exact (Tree.mem_children_append there member).imp_right And.right
  · intro either
    rw [children_append t there, if_pos rfl, List.mem_append, List.mem_singleton, children_detach]
    rcases either with before | added
    · by_cases same : d = c
      · exact .inr same
      · left
        split
        · exact List.mem_filter.mpr ⟨before, by simpa using same⟩
        · exact before
    · exact .inr added

theorem mem_children_foldl_append (there : p < t.size) (ids : List ItemId) :
    c ∈ (ids.foldl (·.append p) t).children p ↔ c ∈ t.children p ∨ c ∈ ids := by
  induction ids generalizing t with
  | nil => simp
  | cons d ids ih =>
    have larger : p < (t.append p d).size := by rwa [size_append]
    rw [List.foldl_cons, ih larger, mem_children_append_iff there, List.mem_cons, or_assoc]

theorem token_foldl_append (t : Tree) (p : ItemId) (ids : List ItemId) (id : ItemId) :
    ((ids.foldl (·.append p) t).item id).token = (t.item id).token := by
  induction ids generalizing t with
  | nil => rfl
  | cons c ids ih => exact (ih (t.append p c)).trans (Graded.start_append t p c id).token

end Tree

section Outline

variable {n m : Nat} {tokens items : List ScannedToken} {language : String}

theorem Reader.start_behind (language : String) (w : ScannedToken) :
    (Reader.start tokens.toArray language).stand.Behind none (w :: tokens) := by
  constructor
  · constructor
    · rfl
    · rfl
    · intro _ bounded
      cases bounded
  · trivial
  · intro b source
    cases source

/-- The items that are read one behind the other are put into the root. -/
theorem Reading.Gathers.ofTokens_eq {ids : List ItemId} {r : Reader}
    (gathers : Gathers (read n) (.start tokens.toArray language) ids r) :
    Tree.ofTokens tokens language n = ids.foldl (·.append Tree.root) r.tree := by
  rw [Tree.ofTokens, readScore, run_bind, gathers.readAll, appendAll_run]

theorem Reading.Gathers.mem_toplevel {ids : List ItemId} {r : Reader} {c : ItemId} (order : InOrder tokens.toArray)
    (gathers : Gathers (read n) (.start tokens.toArray language) ids r) :
    c ∈ (Tree.ofTokens tokens language n).children Tree.root ↔ c ∈ ids := by
  have grown := (readAll_lays (read_deep False n) (start_moved order language nofun).stable).moved.went.grown
  rw [gathers.readAll] at grown
  have empty : r.tree.item Tree.root = Tree.start.item Tree.root := grown.kept Tree.root Nat.one_pos nofun
  have inside : Tree.root < r.tree.size := grown.larger
  rw [gathers.ofTokens_eq, Tree.mem_children_foldl_append inside, Tree.children, empty]
  exact or_iff_right List.not_mem_nil

/-- The toplevel items of a score with an outline start where the tokens of the outline do. -/
theorem toplevel_outline (order : InOrder tokens.toArray) (some_level : 0 < n)
    (outlined : outline n tokens = some items) (position : Nat) :
    (∃ id ∈ (Tree.ofTokens tokens language n).children Tree.root,
      ((Tree.ofTokens tokens language n).item id).position = position) ↔
        ∃ u ∈ items, u.token.start = position := by
  -- a free source need not know the token that it stands behind
  have w : ScannedToken := ⟨⟨.space, 0, " "⟩, 1, .lily .global⟩
  obtain ⟨ids, r, gathers, _, named⟩ := outlineBy_gathers (read_spans n) outlined (u := w) (fun _ => nofun)
    (Reader.start_behind language w)
  obtain ⟨g, later, tree, names⟩ := named some_level (Graded.start n) rfl
  obtain ⟨_, laid⟩ : ∃ e, (Tree.ofTokens tokens language n).Laid False e :=
    Tree.ofTokens_laid order language nofun
  have places : List.Forall₂ (fun (id : ItemId) (u : ScannedToken) =>
      ((Tree.ofTokens tokens language n).item id).position = u.token.start) ids items := by
    refine names.imp fun id u names => ((laid.placed id).leading u.token ?_).1
    rw [gathers.ofTokens_eq, Tree.token_foldl_append, tree]
    exact names.token
  have same : ids.map (fun id => ((Tree.ofTokens tokens language n).item id).position) =
      items.map (·.token.start) := by
    rw [← List.forall₂_eq_eq_eq, List.forall₂_map_left_iff, List.forall₂_map_right_iff]
    exact places
  have member : position ∈ ids.map (fun id => ((Tree.ofTokens tokens language n).item id).position) ↔
      position ∈ items.map (·.token.start) := by
    rw [same]
  simpa [gathers.mem_toplevel order] using member

end Outline

/-- The nesting limit does not change where the toplevel items of a score start, if the score has an outline.
It has none where the value of a setting or of a command lies past the last level. -/
theorem toplevel_kept (options : Options) (text : String) (filename : Option String)
    (includedFrom : Option (DocumentId × ItemId)) {n m : Nat} (some_level : 0 < n) (le : n ≤ m)
    (low : (outline n (scanMusic text)).isSome) (high : (outline m (scanMusic text)).isSome) :
    let few := (Document.ofText { options with maxNestingDepth := n } text filename includedFrom).tree
    let many := (Document.ofText { options with maxNestingDepth := m } text filename includedFrom).tree
    ∀ c ∈ many.children Tree.root, ∃ d ∈ few.children Tree.root,
      (few.item d).position = (many.item c).position := by
  intro few many c toplevel
  have more_levels : 0 < m := Nat.lt_of_lt_of_le some_level le
  obtain ⟨us, low⟩ := Option.isSome_iff_exists.mp low
  obtain ⟨vs, high⟩ := Option.isSome_iff_exists.mp high
  obtain rfl := outline_eq some_level more_levels low high
  have order := scanMusic_inOrder text
  have found := (toplevel_outline order more_levels high (many.item c).position).mp ⟨c, toplevel, rfl⟩
  exact (toplevel_outline order some_level low (many.item c).position).mpr found

/-- A setting in front of a list. With the lower limit the list inside the value is left out. -/
theorem toplevel_kept_setting :
    let text := "a = \x7b \x7b c \x7d \x7d \x7b d \x7d"
    let few := (Document.ofText { Options.standard with maxNestingDepth := 2 } text none none).tree
    let many := (Document.ofText { Options.standard with maxNestingDepth := 3 } text none none).tree
    (outline 2 (scanMusic text)).isSome ∧ (outline 3 (scanMusic text)).isSome ∧ many.children Tree.root = [1, 4] ∧
      ∀ c ∈ many.children Tree.root, ∃ d ∈ few.children Tree.root,
        (few.item d).position = (many.item c).position := by
  intro text few many
  obtain ⟨low, high, toplevel⟩ : (outline 2 (scanMusic text)).isSome ∧ (outline 3 (scanMusic text)).isSome ∧
      many.children Tree.root = [1, 4] := by decide +kernel
  exact ⟨low, high, toplevel, toplevel_kept _ _ _ _ (by decide) (by decide) low high⟩

/-- A setting at the last level takes all that is left of the text while it looks for its value. -/
theorem settings_past_limit :
    let text := "a = \x7b c \x7d b = \x7b d \x7d"
    let few := (Document.ofText { Options.standard with maxNestingDepth := 1 } text none none).tree
    let many := (Document.ofText { Options.standard with maxNestingDepth := 2 } text none none).tree
    ∃ c ∈ many.children Tree.root, ∀ d ∈ few.children Tree.root,
      (few.item d).position ≠ (many.item c).position := by
  intro text few many
  obtain ⟨kept, lost⟩ : 3 ∈ many.children Tree.root ∧ ∀ d ∈ few.children Tree.root,
      (few.item d).position ≠ (many.item 3).position := by decide +kernel
  exact ⟨3, kept, lost⟩

end ScoreText
