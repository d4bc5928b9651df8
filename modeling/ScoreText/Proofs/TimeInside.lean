import ScoreText.Proofs.Descent
import ScoreText.Proofs.TimeApart

/-! Within a toplevel music expression there is a time, and where the expression ends the time is its
length. The way up from the cursor stops at the first music that lies in something else, so all the
music on the way has to lie in music. -/
namespace ScoreText

open Relation

namespace Tree

variable {t : Tree} {whole inMusic : Bool} {b n position : Nat} {id c top : ItemId}
  {levels : List Level}

section Cursor

/-- A cursor in toplevel music where no other toplevel item starts. -/
structure CursorIn (t : Tree) (top : ItemId) (position : Nat) : Prop where
  toplevel : t.parent top = some root
  music : (t.kind top).isMusic = true
  starts : (t.item top).position ≤ position
  stops : position ≤ t.stop top
  alone : ∀ c, t.parent c = some root → c ≠ top → (t.item c).position ≠ position

/-- The cursor is in a child that no other one starts behind. -/
theorem Laid.childAt_eq {whole : Prop} (laid : t.Laid whole b) (child : c ∈ t.children id)
    (starts : (t.item c).position ≤ position) (stops : position ≤ t.stop c)
    (alone : ∀ d ∈ t.children id, d ≠ c → (t.item d).position ≠ position) :
    t.childAt? id position = some c := by
  obtain ⟨front, back, split⟩ := List.append_of_mem child
  have sorted := laid.sorted id
  rw [split] at sorted alone
  obtain ⟨_, behind, before⟩ := List.pairwise_append.mp sorted
  have first : ∀ d ∈ front, (t.item d).position ≤ position := by
    intro d member
    have earlier := (before d member c List.mem_cons_self).starts
    omega
  have later : back.takeWhile (fun d => decide ((t.item d).position ≤ position)) = [] := by
    cases back with
    | nil => rfl
    | cons d back =>
      have after := (List.pairwise_cons.mp behind).1 d List.mem_cons_self
      have other : (t.item d).position ≠ position := by
        refine alone d (by simp) ?_
        rintro rfl
        exact Nat.lt_irrefl _ after.starts
      have apart : t.stop c ≤ (t.item d).position := after.ends.stopWithin_le _
      have later : ¬ (t.item d).position ≤ position := by omega
      simp [later]
  rw [childAt?, split, List.takeWhile_append_of_pos (by simpa using first),
    List.takeWhile_cons_of_pos (by simpa using starts), later]
  simp

theorem Laid.innermostBelow_under {whole : Prop} (laid : t.Laid whole b) (position n : Nat)
    (id : ItemId) : ReflTransGen t.Under (t.innermostBelow position n id) id := by
  induction n generalizing id with
  | zero => exact .refl
  | succ n ih =>
    rw [innermostBelow]
    cases found : t.childAt? id position with
    | none => exact .refl
    | some c =>
      have child : c ∈ t.children id := (List.takeWhile_prefix _).subset (List.mem_of_getLast? found)
      dsimp only
      split
      · exact .single (laid.under_iff.mpr child)
      · exact (ih c).tail (laid.under_iff.mpr child)

theorem CursorIn.innermost_under {whole : Prop} (cursor : t.CursorIn top position)
    (laid : t.Laid whole b) : ReflTransGen t.Under (t.innermost position none) top := by
  obtain ⟨k, size⟩ : ∃ k, t.size = k + 1 := ⟨t.size - 1, by have := laid.inhabited; omega⟩
  have found : t.childAt? root position = some top :=
    laid.childAt_eq (laid.under_iff.mp cursor.toplevel) cursor.starts cursor.stops
      fun c child => cursor.alone c (laid.under_iff.mpr child)
  rw [innermost, size, innermostBelow, found]
  dsimp only
  split
  · exact .refl
  · exact laid.innermostBelow_under position k top

end Cursor

section Climb

/-- A way up to music on which all music lies in music. An item at the start that takes time does, too. -/
inductive Climbs (t : Tree) (top : ItemId) : Bool → ItemId → Prop
  | here : Climbs t top true top
  | within {inMusic : Bool} {id p : ItemId} : t.parent id = some p →
      (inMusic = true → (t.kind p).isMusic = true) → Climbs t top (t.kind p).isMusic p →
      Climbs t top inMusic id

/-- The way up goes on as far as the music at its top. -/
theorem Climbs.levelsAbove {whole : Prop} (climbs : t.Climbs top inMusic id) (laid : t.Laid whole b)
    (position : Nat) (levels : List Level) :
    ∃ below, t.levelsAbove position (t.ancestors id) id inMusic levels =
      t.levelsAbove position (t.ancestors top) top true below := by
  induction climbs generalizing levels with
  | here => exact ⟨levels, rfl⟩
  | @within inMusic id p above inside _ ih =>
    rw [laid.ancestors_of_parent above, Tree.levelsAbove]
    cases music : (t.kind p).isMusic with
    | true =>
      rw [music] at ih
      simp only [if_true]
      exact ih _
    | false =>
      rw [music] at ih inside
      have outside : inMusic = false := by simpa using inside
      subst outside
      simp only [Bool.false_eq_true, if_false, Bool.not_false, if_true]
      exact ih levels

/-- What lies in toplevel music lies in no other toplevel item. -/
theorem Laid.assignsMusic_inside {whole : Prop} (laid : t.Laid whole b)
    (toplevel : t.parent top = some root) (music : (t.kind top).isMusic = true)
    (lower : ReflTransGen t.Under id top) : t.assignsMusic id = false := by
  unfold assignsMusic
  rcases ReflTransGen.cases_head lower with rfl | ⟨q, above, rest⟩
  · have other : t.kind id ≠ .assignment := by
      intro same
      rw [same] at music
      cases music
    simp [other]
  · have apart : t.parent id ≠ some root := by
      intro same
      cases same.symm.trans above
      exact laid.under_irrefl (TransGen.tail' rest toplevel)
    simp [apart]

/-- The levels at a cursor in toplevel music. At its end they are the music as a whole. -/
theorem CursorIn.levels_inside {whole : Prop} (cursor : t.CursorIn top position) (laid : t.Laid whole b)
    (document : t.kind root = .document)
    (climbs : t.Climbs top (t.kind (t.asPlayed (t.innermost position none))).isTimed
      (t.asPlayed (t.innermost position none))) :
    t.levels position ≠ [] ∧ (position = t.stop top → t.levels position = [⟨root, [top], 1⟩]) := by
  have stops := cursor.stops
  have plain := laid.assignsMusic_inside cursor.toplevel cursor.music (cursor.innermost_under laid)
  rw [Tree.levels]
  generalize t.innermost position none = node at climbs plain
  simp only [plain, Bool.false_eq_true, if_false]
  rw [← asPlayed]
  obtain ⟨below, same⟩ := climbs.levelsAbove laid position
    (if (t.kind (t.asPlayed node)).isTimed then [⟨t.asPlayed node, [], 1⟩] else [])
  rw [same, laid.ancestors_of_parent cursor.toplevel, Tree.levelsAbove]
  have other : (t.kind root).isMusic = false := by
    rw [document]
    rfl
  simp only [other, Bool.false_eq_true, if_false, Bool.not_true]
  rw [if_neg (by omega)]
  split
  · exact ⟨List.cons_ne_nil _ _, fun _ => rfl⟩
  · rename_i before
    exact ⟨List.cons_ne_nil _ _, fun ends => absurd ends before⟩

end Climb

end Tree

namespace Family

variable {f : Family} {d : DocumentId} {top : ItemId} {position : Nat}

/-- If a position is in music, there is a time unless something does not fit. -/
theorem timeAt_isSome (music : (f.document d).tree.levels position ≠ [])
    (fits : ((timed (walkTo f d ((f.document d).tree.levels position))).run f).1.2 = false) :
    ((timeAt? d position).run f).1.isSome = true := by
  rw [timeAt_run]
  split
  · rename_i none
    exact absurd none music
  · dsimp only
    rw [timed] at fits
    simp [fits]

/-- The time behind a whole item is its length. -/
theorem timeAt_whole (music : ((f.document d).tree.kind top).isMusic = true)
    (whole : (f.document d).tree.levels position = [⟨Tree.root, [top], 1⟩]) :
    (timeAt? d position).run f = (lengthOf d top).run f := by
  have silent := ItemKind.isDurable_of_isMusic music
  have walk : walkTo f d [⟨Tree.root, [top], 1⟩] = timeAfter f.options.counting d top 0 1 := by
    simp only [walkTo, Timing.entries, Timing.along, Timing.multiply_one (a := 1) (by decide), pure_bind,
      List.map_cons, List.map_nil, List.append_nil, List.foldlM_cons, List.foldlM_nil, bind_pure, walkWithin]
  unfold Tree.kind at music silent
  rw [timeAt_run, whole, lengthOf, run_get_bind]
  simp only [silent, music, walk, Bool.false_eq_true, if_false, if_true]
  rfl

end Family

/-- There is a time within toplevel music unless something does not fit, and where the music ends the
time is its length, if all music on the way up from the cursor lies in music. -/
theorem timeAt_inside {f : Family} {d : DocumentId} {top : ItemId} {position : Nat} (opened : f.Opened)
    (inside : d < f.documents.size) (cursor : (f.document d).tree.CursorIn top position)
    (climbs : let t := (f.document d).tree
      t.Climbs top (t.kind (t.asPlayed (t.innermost position none))).isTimed
        (t.asPlayed (t.innermost position none))) :
    (((Family.timed (Family.walkTo f d ((f.document d).tree.levels position))).run f).1.2 = false →
      ((Family.timeAt? d position).run f).1.isSome = true) ∧
    (position = (f.document d).tree.stop top →
      (Family.timeAt? d position).run f = (Family.lengthOf d top).run f) := by
  obtain ⟨text, filename, place, read⟩ := opened.read d inside
  have document : (f.document d).tree.kind Tree.root = .document := by
    rw [read]
    exact Tree.ofTokens_root (scanMusic_inOrder text) f.options.language _
  obtain ⟨b, laid⟩ : ∃ b, (f.document d).tree.Laid False b := by
    rw [read]
    exact Document.ofText_laid f.options text filename place
  obtain ⟨music, whole⟩ := cursor.levels_inside laid document climbs
  exact ⟨Family.timeAt_isSome music, fun ends => Family.timeAt_whole cursor.music (whole ends)⟩

/-- Behind the only toplevel item of a document there is no other one. -/
theorem Document.cursorIn_only (options : Options) (text : String) {t : Tree} {position : Nat}
    (same : (Document.ofText options text none none).tree = t) (only : t.children Tree.root = [1])
    (music : (t.kind 1).isMusic = true) (starts : (t.item 1).position ≤ position)
    (stops : position ≤ t.stop 1) : t.CursorIn 1 position := by
  obtain ⟨_, laid⟩ := Document.ofText_laid options text none none
  rw [same] at laid
  refine ⟨laid.under_iff.mpr (by simp [only]), music, starts, stops, fun c toplevel other => ?_⟩
  have child := laid.under_iff.mp toplevel
  rw [only, List.mem_singleton] at child
  exact absurd child other

/-- Behind the notes of a triplet. -/
theorem timeAt_inside_triplet :
    let f := Family.ofText .standard (.table []) "\\tuplet 3/2 \x7b c4 d \x7d" none
    let t := (f.document 0).tree
    t.CursorIn 1 20 ∧ t.stop 1 = 20 ∧ (Family.timeAt? 0 20).run f = (Family.lengthOf 0 1).run f ∧
      ((Family.lengthOf 0 1).run f).1 = some (1 / 3) := by
  intro f t
  obtain ⟨only, music, starts, stops, found, above, inner, above', length⟩ :
      t.children Tree.root = [1] ∧ (t.kind 1).isMusic = true ∧ (t.item 1).position ≤ 20 ∧ t.stop 1 = 20 ∧
        t.asPlayed (t.innermost 20 none) = 6 ∧ t.parent 6 = some 3 ∧ (t.kind 3).isMusic = true ∧
        t.parent 3 = some 1 ∧ ((Family.lengthOf 0 1).run f).1 = some (1 / 3) := by
    decide +kernel
  have cursor : t.CursorIn 1 20 :=
    Document.cursorIn_only _ _ rfl only music starts (Nat.le_of_eq stops.symm)
  have list : t.Climbs 1 (t.kind 3).isMusic 3 := .within above' (fun _ => music) (music ▸ .here)
  refine ⟨cursor, stops, ?_, length⟩
  refine (timeAt_inside ⟨_, _, _, _, .refl⟩ Nat.zero_lt_one cursor ?_).2 stops.symm
  dsimp only
  rw [found]
  exact .within above (fun _ => inner) list

/-- The note behind the slash of a chord lies in music, but not directly. Where the music ends, the way
up stops at that note, and there is no time. -/
theorem no_time_behind_slash :
    let f := Family.ofText .standard (.table []) "\\chordmode \x7b c/e \x7d" none
    let t := (f.document 0).tree
    t.CursorIn 1 18 ∧ t.stop 1 = 18 ∧ ((Family.timeAt? 0 18).run f).1 = none ∧
      ((Family.lengthOf 0 1).run f).1 = some (1 / 4) := by
  intro f t
  obtain ⟨only, music, starts, stops, asked, length⟩ :
      t.children Tree.root = [1] ∧ (t.kind 1).isMusic = true ∧ (t.item 1).position ≤ 18 ∧ t.stop 1 = 18 ∧
        ((Family.timeAt? 0 18).run f).1 = none ∧ ((Family.lengthOf 0 1).run f).1 = some (1 / 4) := by
    decide +kernel
  exact ⟨Document.cursorIn_only _ _ rfl only music starts (Nat.le_of_eq stops.symm), stops, asked, length⟩

end ScoreText
