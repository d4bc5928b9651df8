import ScoreText.Document.Inclusion

/-! How a family of documents grows. Questions read further documents, each from a place in a document
that was there before. No document changes, and what was found out about an inclusion is kept. -/
namespace ScoreText

namespace Family

/-- A family later on: no document is lost or changed, and no answer. -/
structure Grows (f g : Family) : Prop where
  options : g.options = f.options
  files : g.files = f.files
  size : f.documents.size ≤ g.documents.size
  documents : ∀ d < f.documents.size, g.document d = f.document d
  inclusions : ∀ place found, f.inclusions.lookup place = some found →
    g.inclusions.lookup place = some found

/-- Documents are included from documents that were there before, and inclusions lead to documents
that are there. -/
structure Sound (f : Family) : Prop where
  above : ∀ d above item, (f.document d).includedFrom = some (above, item) → above < d
  inner : ∀ place inner, f.inclusions.lookup place = some (some inner) → inner < f.documents.size

theorem Grows.refl (f : Family) : f.Grows f :=
  ⟨rfl, rfl, Nat.le_refl _, fun _ _ => rfl, fun _ _ h => h⟩

theorem Grows.trans {f g h : Family} (first : f.Grows g) (later : g.Grows h) : f.Grows h where
  options := later.options.trans first.options
  files := later.files.trans first.files
  size := Nat.le_trans first.size later.size
  documents d there := by
    rw [later.documents d (Nat.lt_of_lt_of_le there first.size), first.documents d there]
  inclusions place found known := later.inclusions place found (first.inclusions place found known)

section Push

variable {f : Family} {doc : Document}

theorem document_of_size_le {d : DocumentId} (outside : f.documents.size ≤ d) :
    f.document d = ⟨"", none, [], .start, none⟩ := by
  rw [document, Array.getElem?_eq_none outside, Option.getD_none]

theorem push_document (f : Family) (doc : Document) (d : DocumentId) :
    (f.push doc).document d = if d = f.documents.size then doc else f.document d := by
  simp only [document, push, Array.getElem?_push]
  split <;> rfl

theorem push_grows (f : Family) (doc : Document) : f.Grows (f.push doc) where
  options := rfl
  files := rfl
  size := by simp [push]
  documents d there := by rw [push_document, if_neg (Nat.ne_of_lt there)]
  inclusions _ _ known := known

theorem push_sound (sound : f.Sound)
    (from_above : ∀ above item, doc.includedFrom = some (above, item) → above < f.documents.size) :
    (f.push doc).Sound where
  above d above item included := by
    rw [push_document] at included
    split at included
    · rename_i last
      exact last ▸ from_above above item included
    · exact sound.above d above item included
  inner place inner known := Nat.lt_of_lt_of_le (sound.inner place inner known) (push_grows f doc).size

end Push

section Inclusion

variable {f : Family} {d : DocumentId} {id : ItemId}

theorem atPath_inside {path : String} {found : DocumentId} (h : f.atPath? path = some found) :
    found < f.documents.size :=
  List.mem_range.mp (List.mem_of_find?_eq_some h)

theorem lookUpAmong_sound (sound : f.Sound) (there : d < f.documents.size) (above paths : List String) :
    let found := f.lookUpAmong (d, id) above paths
    f.Grows found.2 ∧ found.2.Sound ∧ found.2.inclusions = f.inclusions ∧
      ∀ inner ∈ found.1, inner < found.2.documents.size := by
  induction paths with
  | nil => exact ⟨.refl f, sound, rfl, by simp [lookUpAmong]⟩
  | cons path paths ih =>
    simp only [lookUpAmong]
    split
    · exact ⟨.refl f, sound, rfl, by simp⟩
    · split
      · rename_i found
        refine ⟨.refl f, sound, rfl, ?_⟩
        rintro inner same
        cases same
        exact atPath_inside found
      · refine ⟨push_grows f _, push_sound sound ?_, rfl, ?_⟩
        · intro above item same
          cases same
          exact there
        · simp [push]
      · exact ih

theorem resolve_sound (sound : f.Sound) (there : d < f.documents.size) (id : ItemId) :
    let found := f.resolve d id
    f.Grows found.2 ∧ found.2.Sound ∧ found.2.inclusions = f.inclusions ∧
      ∀ inner ∈ found.1, inner < found.2.documents.size := by
  have nothing : f.Grows f ∧ f.Sound ∧ f.inclusions = f.inclusions ∧
      ∀ inner ∈ (none : Option DocumentId), inner < f.documents.size :=
    ⟨.refl f, sound, rfl, by simp⟩
  unfold resolve
  split
  · exact nothing
  · split
    · exact nothing
    · exact lookUpAmong_sound sound there _ _

theorem lookup_remember (f : Family) (place other : DocumentId × ItemId)
    (found : Option DocumentId) :
    (f.remember place found).inclusions.lookup other =
      if other = place then some found else f.inclusions.lookup other := by
  simp only [remember, List.lookup_cons]
  split
  · rename_i same
    rw [if_pos (eq_of_beq same)]
  · rename_i different
    rw [if_neg (by simpa using different)]

theorem remember_grows {place : DocumentId × ItemId} (unknown : f.inclusions.lookup place = none)
    (found : Option DocumentId) : f.Grows (f.remember place found) where
  options := rfl
  files := rfl
  size := Nat.le_refl _
  documents _ _ := rfl
  inclusions other answer known := by
    rw [lookup_remember, if_neg, known]
    rintro rfl
    cases unknown.symm.trans known

theorem remember_sound (sound : f.Sound) (place : DocumentId × ItemId) {found : Option DocumentId}
    (inside : ∀ inner ∈ found, inner < f.documents.size) : (f.remember place found).Sound where
  above := sound.above
  inner other inner known := by
    rw [lookup_remember] at known
    split at known
    · exact inside inner (Option.some.inj known)
    · exact sound.inner other inner known

end Inclusion

/-- What asking for an inclusion makes of a family, if the item is one and was not asked for yet. -/
theorem included_eq (f : Family) (d : DocumentId) (id : ItemId) :
    (included d id).run f =
      if (f.document d).tree.kind id != .inclusion then (none, f)
      else match f.inclusions.lookup (d, id) with
        | some found => (found, f)
        | none => ((f.resolve d id).1, (f.resolve d id).2.remember (d, id) (f.resolve d id).1) :=
  rfl

theorem kind_of_size_le {f : Family} {d : DocumentId} (outside : f.documents.size ≤ d) (id : ItemId) :
    (f.document d).tree.kind id = .document := by
  rw [document_of_size_le outside]
  cases id <;> rfl

theorem inside_of_inclusion {f : Family} {d : DocumentId} {id : ItemId}
    (inclusion : (f.document d).tree.kind id = .inclusion) : d < f.documents.size := by
  refine Nat.lt_of_not_le fun outside => ?_
  cases (kind_of_size_le outside id).symm.trans inclusion

theorem included_kept {f : Family} (sound : f.Sound) (d : DocumentId) (id : ItemId) :
    f.Grows ((included d id).run f).2 ∧ ((included d id).run f).2.Sound := by
  have unchanged : f.Grows f ∧ f.Sound := ⟨.refl f, sound⟩
  rw [included_eq]
  split
  · exact unchanged
  · rename_i inclusion
    split
    · exact unchanged
    · rename_i unknown
      have inclusion : (f.document d).tree.kind id = .inclusion := by simpa using inclusion
      have there := inside_of_inclusion inclusion
      obtain ⟨grows, after, same, inside⟩ := resolve_sound sound there id
      have unknown : (f.resolve d id).2.inclusions.lookup (d, id) = none := by rw [same, unknown]
      exact ⟨grows.trans (remember_grows unknown _), remember_sound after _ inside⟩

/-- A family after any number of inclusions were asked for. -/
inductive Later (f : Family) : Family → Prop
  | refl : Later f f
  | asked {g : Family} (d : DocumentId) (id : ItemId) : Later f g → Later f ((included d id).run g).2

theorem Later.trans {f g h : Family} (first : f.Later g) (later : g.Later h) : f.Later h := by
  induction later with
  | refl => exact first
  | asked d id _ ih => exact .asked d id ih

theorem Later.kept {f g : Family} (sound : f.Sound) (later : f.Later g) : f.Grows g ∧ g.Sound := by
  induction later with
  | refl => exact ⟨.refl f, sound⟩
  | asked d id _ ih =>
    obtain ⟨grows, sound⟩ := ih
    obtain ⟨next, after⟩ := included_kept sound d id
    exact ⟨grows.trans next, after⟩

/-- A document that was opened, with what has been included from it so far. -/
def Opened (f : Family) : Prop :=
  ∃ options files text filename, (ofText options files text filename).Later f

/-- Each document has been read from a text. -/
def AllRead (f : Family) : Prop :=
  ∀ d < f.documents.size, ∃ text filename place, f.document d = .ofText f.options text filename place

theorem push_read {f : Family} (read : f.AllRead) (text : String) (filename : Option String)
    (place : Option (DocumentId × ItemId)) :
    (f.push (.ofText f.options text filename place)).AllRead := by
  intro d there
  rw [push_document]
  split
  · exact ⟨text, filename, place, rfl⟩
  · rename_i other
    rw [push, Array.size_push] at there
    exact read d (Nat.lt_of_le_of_ne (Nat.le_of_lt_succ there) other)

theorem lookUpAmong_read {f : Family} (read : f.AllRead) (place : DocumentId × ItemId)
    (above paths : List String) : (f.lookUpAmong place above paths).2.AllRead := by
  induction paths with
  | nil => exact read
  | cons path paths ih =>
    rw [lookUpAmong]
    split
    · exact read
    · split
      · exact read
      · exact push_read read _ _ _
      · exact ih

theorem included_read {f : Family} (read : f.AllRead) (d : DocumentId) (id : ItemId) :
    ((included d id).run f).2.AllRead := by
  have resolved : (f.resolve d id).2.AllRead := by
    unfold resolve
    split
    · exact read
    · split
      · exact read
      · exact lookUpAmong_read read _ _ _
  rw [included_eq]
  split
  · exact read
  · split
    · exact read
    · exact resolved

theorem ofText_sound (options : Options) (files : Files) (text : String) (filename : Option String) :
    (ofText options files text filename).Sound where
  above d above item included := by
    cases d with
    | zero => cases included
    | succ d => cases included
  inner _ _ known := by cases known

theorem Opened.later {f g : Family} (opened : f.Opened) (later : f.Later g) : g.Opened := by
  obtain ⟨options, files, text, filename, earlier⟩ := opened
  exact ⟨options, files, text, filename, earlier.trans later⟩

theorem Opened.sound {f : Family} (opened : f.Opened) : f.Sound := by
  obtain ⟨options, files, text, filename, later⟩ := opened
  exact (later.kept (ofText_sound options files text filename)).2

theorem Opened.read {f : Family} (opened : f.Opened) : f.AllRead := by
  obtain ⟨options, files, text, filename, later⟩ := opened
  induction later with
  | refl =>
    intro d there
    cases d with
    | zero => exact ⟨text, filename, none, rfl⟩
    | succ d => exact absurd (Nat.lt_of_succ_lt_succ there) (Nat.not_lt_zero d)
  | asked d id _ ih => exact included_read ih d id

end Family
end ScoreText
