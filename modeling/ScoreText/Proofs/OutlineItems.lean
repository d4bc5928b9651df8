import ScoreText.Proofs.ExtentScore
import ScoreText.Proofs.GradingScore
import ScoreText.Proofs.Outline
import ScoreText.Proofs.OutlineRules

/-! What starts with a token of a known shape is read as one new item, which keeps that token. -/
namespace ScoreText

open Reading Stand

/-- What a token is if what it starts has a shape. -/
inductive Token.HasShape (t : Token) : Shape → Prop
  | plain {k : Lily.Kind} {item : ItemKind} (kind : t.kind = .lily k) (plain : plainKind? k = some item) :
      HasShape t .alone
  | span {k : Lily.Kind} (kind : t.kind = .lily k) (plain : plainKind? k = none) (span : k.isSlur ∨ k.isBeam) :
      HasShape t .alone
  | user (kind : t.kind = .lily .userCommand) (text : t.text ≠ "\\partcombine") : HasShape t .alone
  | list (opens : opensList t.kind) : HasShape t .list
  | string (kind : t.kind = .lily .stringQuotedStart) : HasShape t .text
  | markup {k : Lily.Kind} (kind : t.kind = .lily k) (markup : k.isMarkupStart) : HasShape t .text
  | block {k : Lily.Kind} {item : ItemKind} (kind : t.kind = .lily k) (block : blockKind? k = some item)
      (other : k ≠ .withBlock) : HasShape t .block
  | assignment {k : Lily.Kind} (kind : t.kind = .lily k) (name : k = .name ∨ k = .contextProperty) :
      HasShape t .assignment
  | argument {k : Lily.Kind} {item : ItemKind} (kind : t.kind = .lily k)
      (command : k = .command ∨ k = .pitchCommand ∨ k = .keyword) (text : argumentKind? t.text = some item) :
      HasShape t .argument

theorem Token.hasShape {t : Token} {s : Shape} (shape : t.shape? = some s) : t.HasShape s := by
  have argument : ∀ {k : Lily.Kind}, t.kind = .lily k → (k = .command ∨ k = .pitchCommand ∨ k = .keyword) →
      (argumentKind? t.text).map (fun _ => Shape.argument) = some s → t.HasShape s := by
    intro k kind command found
    obtain ⟨item, text, rfl⟩ := Option.map_eq_some_iff.mp found
    exact .argument kind command text
  unfold shape? at shape
  split at shape
  -- the cases are the kinds in the order of `shape?`
  iterate 4
    rename_i kind
    cases shape
    exact .list (kind ▸ rfl)
  · rename_i kind
    cases shape
    exact .string kind
  iterate 3
    rename_i kind
    cases shape
    exact .markup kind rfl
  iterate 2
    rename_i kind
    cases shape
    exact .assignment kind (by simp)
  iterate 3
    rename_i kind
    exact argument kind (by simp) shape
  · rename_i kind
    split at shape
    · cases shape
    · rename_i text
      cases shape
      exact .user kind text
  · cases shape
  · rename_i k _ _ _ _ _ _ _ _ _ _ _ _ _ _ other kind
    split at shape
    · rename_i alone
      cases shape
      cases plain : plainKind? k with
      | some item => exact .plain kind plain
      | none => exact .span kind plain (by simpa [plain] using alone)
    · obtain ⟨item, block, rfl⟩ := Option.map_eq_some_iff.mp shape
      exact .block kind block other
  · cases shape

namespace Reading

section Equations

variable {deeper : Deeper} {t : Token} {k : Lily.Kind} {item : ItemKind}

theorem readItem_lily (kind : t.kind = .lily k) : readItem deeper t = readLily deeper k t := by
  unfold readItem
  rw [kind]

theorem readItem_alone (shape : t.HasShape .alone) (deeper : Deeper) :
    ∃ kind, ∃ fill : ItemId → Reading (Option ItemId), readItem deeper t = addFor kind t >>= fill ∧
      ∀ id, Still (fill id) ∧ (∀ r, ((fill id).run r).1 = some id) ∧ ∀ g, Builds g (fill id) Any := by
  have leaf : ∀ kind, ∃ other, ∃ fill : ItemId → Reading (Option ItemId),
      (addFor kind t >>= fun i => pure (some i)) = addFor other t >>= fill ∧ ∀ id, Still (fill id) ∧
        (∀ r, ((fill id).run r).1 = some id) ∧ ∀ g, Builds g (fill id) Any :=
    fun kind => ⟨kind, _, rfl, fun id => ⟨.pure _, fun _ => rfl, fun _ => .pure trivial⟩⟩
  have span : ∀ kind starts, ∃ other, ∃ fill : ItemId → Reading (Option ItemId),
      (addSpan kind t starts >>= fun i => pure (some i)) = addFor other t >>= fill ∧ ∀ id, Still (fill id) ∧
        (∀ r, ((fill id).run r).1 = some id) ∧ ∀ g, Builds g (fill id) Any :=
    fun kind starts => ⟨kind, fun id => do
      setDetails id (.span starts)
      return some id, rfl, fun id => ⟨.bind setDetails_still fun _ => .pure _, fun _ => rfl, fun _ =>
        .bind setDetails_builds fun _ _ _ _ => .pure trivial⟩⟩
  cases shape with
  | plain kind plain =>
    rw [readItem_lily kind]
    unfold readLily
    rw [plain]
    exact leaf _
  | user kind text =>
    rw [readItem_lily kind]
    simp only [readLily, plainKind?, blockKind?, inputKind?, beq_iff_eq, text, if_false]
    exact leaf _
  | span kind plain isSpan =>
    rw [readItem_lily kind]
    rcases isSpan with slur | beam
    · unfold Lily.Kind.isSlur at slur
      split at slur
      iterate 4 exact span _ _
      · cases plain
      · cases slur
    · unfold Lily.Kind.isBeam at beam
      split at beam
      iterate 4 exact span _ _
      cases beam

theorem readItem_list (opens : opensList t.kind) : readItem deeper t = (do
    let id ← addFor .musicList t
    setDetails id (.list (t.text == "<<"))
    addToken id none
    readRegionInto deeper id
    return some id) := by
  have bracket : readList deeper t = (do
      let id ← addFor .musicList t
      setDetails id (.list (t.text == "<<"))
      addToken id none
      readRegionInto deeper id
      return some id) := by
    unfold readList startList
    rw [if_pos opens]
    rfl
  rw [← bracket]
  unfold opensList at opens
  split at opens
  iterate 4
    rename_i kind
    exact readItem_lily kind
  cases opens

theorem readItem_markup (kind : t.kind = .lily k) (markup : k.isMarkupStart) :
    readItem deeper t = readWholeMarkup deeper t >>= fun i => pure (some i) := by
  rw [readItem_lily kind]
  unfold Lily.Kind.isMarkupStart at markup
  split at markup
  iterate 3 rfl
  cases markup

theorem readItem_block (kind : t.kind = .lily k) (block : blockKind? k = some item) (other : k ≠ .withBlock) :
    readItem deeper t = addFor item t >>= fun id => readBlockInto deeper id >>= fun _ => pure (some id) := by
  have plain : ∀ {item : ItemKind}, item ≠ .withBlock → (readBlock deeper item t >>= fun i => pure (some i)) =
      addFor item t >>= fun id => readBlockInto deeper id >>= fun _ => pure (some id) := by
    intro item other
    have other : (item == .withBlock) = false := beq_eq_false_iff_ne.mpr other
    simp only [readBlock, other, Bool.and_false, Bool.false_eq_true, if_false]
    rfl
  rw [readItem_lily kind]
  unfold blockKind? at block
  split at block
  iterate 7
    cases block
    exact plain nofun
  · exact absurd rfl other
  · cases block
    exact plain nofun
  · cases block

theorem readItem_assignment (kind : t.kind = .lily k) (name : k = .name ∨ k = .contextProperty) :
    readItem deeper t = readAssignment deeper t := by
  rw [readItem_lily kind]
  rcases name with rfl | rfl
  · rfl
  · rfl

theorem readItem_argument (kind : t.kind = .lily k) (command : k = .command ∨ k = .pitchCommand ∨ k = .keyword)
    (text : argumentKind? t.text = some item) :
    readItem deeper t = readArguments deeper item t 1 >>= fun i => pure (some i) := by
  have reads : readCommand deeper k t = readArguments deeper item t 1 := by
    unfold argumentKind? at text
    split at text
    iterate 7
      rename_i same
      cases text
      unfold readCommand
      rw [same]
      rfl
    cases text
  rw [readItem_lily kind, ← reads]
  rcases command with rfl | rfl | rfl
  iterate 3 rfl

end Equations

end Reading

/-- A reading adds an item, and this is the first one that is new. -/
def Adds {α : Type} (P : Stand → Prop) (act : Reading α) (given : ItemId → α) (Q : Stand → Prop) : Prop :=
  ∀ r : Reader, P r.stand → (act.run r).1 = given r.tree.size ∧ Q (act.run r).2.stand

namespace Adds

variable {α : Type} {P Q : Stand → Prop} {given : ItemId → α}

theorem addFor {kind : ItemKind} {t : Token} {k : ItemId → Reading α}
    (fill : ∀ id, Leads P (k id) fun a s => a = given id ∧ Q s) : Adds P (Reading.addFor kind t >>= k) given Q :=
  fun r here => fill r.tree.size { r with tree := r.tree.push (.single kind t.start (some t)) } here

theorem wrapped {act : Reading ItemId} (adds : Adds P act id Q) :
    Adds P (act >>= fun i => pure (some i)) some Q :=
  fun r here => ⟨congrArg some (adds r here).1, (adds r here).2⟩

end Adds

/-- An item with a token. -/
structure Graded.Names (g : Graded) (t : Token) (id : ItemId) : Prop where
  inside : id < g.tree.size
  token : (g.tree.item id).token = some t

theorem Graded.Names.later {g h : Graded} {t : Token} {id : ItemId} (names : g.Names t id) (later : g.Later h) :
    h.Names t id :=
  ⟨Nat.lt_of_lt_of_le names.inside later.larger, (later.start id names.inside).token.trans names.token⟩

section Names

open Builds

variable {deeper : Deeper} {g : Graded} {kind : ItemKind} {t : Token} {n : Nat} {α : Type}

theorem addFor_names (g : Graded) (kind : ItemKind) (t : Token) (grade : Grade)
    (scheme : kind = .scheme → 0 < grade.level) : Builds g (addFor kind t) fun id h =>
      h.Is kind grade id ∧ h.Names t g.tree.size ∧ id = g.tree.size := by
  intro r same
  obtain ⟨h, later, tree, is, token, _⟩ := add_builds g kind t.start (some t) grade scheme r same
  have first : ((addFor kind t).run r).1 = g.tree.size := congrArg Tree.size same
  exact ⟨h, later, tree, is, first ▸ ⟨is.inside, token⟩, first⟩

theorem filled_names {k : ItemId → Reading α} (fill : ∀ id h, h.Is kind ⟨n + 1, .plain⟩ id → Builds h (k id) Any) :
    Builds g (addFor kind t >>= k) fun _ h => h.Names t g.tree.size := by
  refine .bind (addFor_names g kind t ⟨n + 1, .plain⟩ fun _ => Nat.succ_pos n) fun id h _ ⟨is, names, _⟩ => ?_
  exact (fill id h is).mono fun _ _ later _ => names.later later

variable (deep : Deepens n deeper)
include deep

theorem readAssignment_names : Builds g (readAssignment deeper t) fun _ h => h.Names t g.tree.size := by
  refine filled_names (n := n) fun id h is => .loop_any fun _ k later => .bind (.free nextItem_builds)
    fun found l further _ => ?_
  have is := is.later (later.trans further)
  cases found with
  | none => exact .pure trivial
  | some s =>
    dsimp only
    split
    · exact .bind setTokens_builds fun _ m behind _ =>
        readInto_low (is.later behind).above (.free (readOne_builds deep)) fun _ _ => .pure trivial
    · split
      · refine .tree ?_
        split
        · exact .bind pushBack_builds fun _ _ _ _ => .pure trivial
        · refine (appendScheme_builds deep is s ?_).any
          intro s i scheme holder
          simp [Item.joins, scheme, holder]
      · exact .bind pushBack_builds fun _ _ _ _ => .pure trivial

theorem readItem_names {s : Shape} (shape : t.HasShape s) :
    Builds g (readItem deeper t) fun _ h => h.Names t g.tree.size := by
  have wrapped : ∀ {act : Reading ItemId}, Builds g act (fun _ h => h.Names t g.tree.size) →
      Builds g (act >>= fun i => Pure.pure (some i)) fun _ h => h.Names t g.tree.size :=
    fun builds => .bind builds fun _ _ _ names => .pure names
  -- what is read alone is filled the same way, whatever it is
  have alone : t.HasShape .alone → Builds g (readItem deeper t) fun _ h => h.Names t g.tree.size := by
    intro shape
    obtain ⟨kind, fill, reads, fills⟩ := readItem_alone shape deeper
    rw [reads]
    exact filled_names (n := 0) fun id h _ => (fills id).2.2 h
  cases shape with
  | plain kind plain => exact alone (.plain kind plain)
  | span kind plain span => exact alone (.span kind plain span)
  | user kind text => exact alone (.user kind text)
  | list opens =>
    rw [readItem_list opens]
    refine filled_names (n := n) fun id h is => .bind setDetails_builds fun _ k later _ => ?_
    refine .bind addToken_builds fun _ l further _ => ?_
    exact .bind (readRegionInto_builds deep (is.later (later.trans further)).above) fun _ _ _ _ => .pure trivial
  | string kind =>
    rw [readItem_lily kind]
    refine wrapped (filled_names (n := 0) fun id h _ => ?_)
    refine .bind (.bounded (.loop_any fun ts h _ => .bind next_builds fun found _ _ _ => ?_)) fun _ _ _ _ => ?_
    · cases found <;> exact .pure trivial
    · exact .bind setTokens_builds fun _ _ _ _ => .pure trivial
  | markup kind markup =>
    rw [readItem_markup kind markup]
    refine wrapped (filled_names (n := n) fun id h is => ?_)
    exact .bind (readMarkupsInto_builds deep is.above false) fun _ _ _ _ => .pure trivial
  | block kind block other =>
    rw [readItem_block kind block other]
    exact filled_names (n := n) fun id h is => .bind (readBlockInto_builds deep is.above) fun _ _ _ _ => .pure trivial
  | assignment kind name =>
    rw [readItem_assignment kind name]
    exact readAssignment_names deep
  | argument kind command text =>
    rw [readItem_argument kind command text]
    refine wrapped (filled_names (n := n) fun id h is => ?_)
    exact .bind (readArgumentsInto_builds deep 1 is.above) fun _ _ _ _ => .pure trivial

end Names

end ScoreText
