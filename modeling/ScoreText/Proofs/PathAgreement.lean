import ScoreText.Proofs.Inclusions

/-! Two searches for a path agree: the one for the document of an inclusion, which stops at a path above
and reads what was not read before, and the one for the path of a name, which only looks whether there
is something. For the second one it does not matter what has been read by then, as long as paths that are
the same have the same text. -/
namespace ScoreText

/-- Paths that are the same have the same text. -/
def Files.Uniform (files : Files) : Prop :=
  ∀ a b, Path.same a b → files.read? a = files.read? b

theorem Files.table_uniform (entries : List (String × String)) : (Files.table entries).Uniform := by
  intro a b same
  rw [Path.same_iff] at same
  have front : Path.same a = Path.same b := by
    funext path
    rw [Path.same, Path.same, same]
  have back (path : String) : Path.same path a = Path.same path b := by
    rw [Path.same, Path.same, same]
  simp only [Files.table, Files.within, front, back]

namespace Family

variable {f g : Family} {d : DocumentId} {id : ItemId} {name path : String}

section Places

/-- Of the places of a name, the first one with a text is its path, whatever has been read so far. -/
theorem pathOf_eq (linked : f.Linked) (uniform : f.files.Uniform) (d : DocumentId) (name : String) :
    f.pathOf? d name = (f.places d name).find? fun path => (f.files.read? path).isSome := by
  have readable (path : String) (known : (f.atPath? path).isSome) : (f.files.read? path).isSome := by
    obtain ⟨e, here⟩ := Option.isSome_iff_exists.mp known
    obtain ⟨inner, filename, named, same⟩ := atPath_eq_some here
    obtain ⟨other, place, read⟩ := linked.read e inner (atPath_inside here)
    cases named.symm.trans read.filename
    rw [uniform path filename same]
    exact read.text
  unfold pathOf?
  congr 1
  funext path
  cases known : (f.atPath? path).isSome with
  | true => rw [readable path known, Bool.or_self]
  | false => rw [Bool.false_or]

theorem places_grown (grown : f.Grows g) (there : d < f.documents.size) (name : String) :
    g.places d name = f.places d name := by
  rw [places, places, grown.documents d there, grown.options]

theorem pathOf_grown (before : f.Linked) (after : g.Linked) (uniform : f.files.Uniform) (grown : f.Grows g)
    (there : d < f.documents.size) (name : String) : g.pathOf? d name = f.pathOf? d name := by
  rw [pathOf_eq before uniform, pathOf_eq after (grown.files ▸ uniform), places_grown grown there, grown.files]

/-- Where the search for a document ends, the one for a path ends, too. -/
theorem pathOf_of_target (found : f.targetAmong? (f.chain d) (f.places d name) = some path) :
    f.pathOf? d name = some path :=
  (List.takeWhile_prefix _).find?_eq_some found

/-- Where only the search for a path ends, a path above stands in the way, or is the end. -/
theorem above_of_missed (missed : f.targetAmong? (f.chain d) (f.places d name) = none)
    (found : f.pathOf? d name = some path) :
    ∃ other ∈ path :: (f.places d name).takeWhile (· != path), ∃ above ∈ f.chain d, Path.same other above := by
  obtain ⟨here, front, back, split, void⟩ := List.find?_eq_some_iff_append.mp found
  have first : (f.places d name).takeWhile (· != path) = front := by
    have other : ∀ p ∈ front, (p != path) = true := by
      intro p member
      rw [bne_iff_ne]
      rintro rfl
      exact absurd here (by simpa using void p member)
    rw [split, List.takeWhile_append_of_pos other, List.takeWhile_cons_of_neg (by simp), List.append_nil]
  rw [first]
  by_contra beside
  have clear : ∀ p ∈ front ++ [path], (!(f.chain d).any (Path.same p)) = true := by
    intro p member
    rw [Bool.not_eq_true', List.any_eq_false]
    exact fun above in_chain same => beside ⟨p, by simpa [or_comm] using member, above, in_chain, same⟩
  have tried : (f.places d name).takeWhile (fun p => !(f.chain d).any (Path.same p)) =
      front ++ [path] ++ back.takeWhile (fun p => !(f.chain d).any (Path.same p)) := by
    rw [split, List.append_cons, List.takeWhile_append_of_pos clear]
  exact List.find?_eq_none.mp missed path (by rw [tried]; simp) here

theorem target_eq (text : (f.document d).tree.firstText? id = some name) (full : name ≠ "") :
    f.target? d id = f.targetAmong? (f.chain d) (f.places d name) := by
  rw [target?, text]
  exact if_neg (by simpa using full)

theorem target_named (target : f.target? d id = some path) :
    ∃ name, (f.document d).tree.firstText? id = some name ∧
      f.targetAmong? (f.chain d) (f.places d name) = some path := by
  unfold target? at target
  cases text : (f.document d).tree.firstText? id with
  | none => simp [text] at target
  | some name =>
    simp only [text] at target
    exact ⟨name, rfl, (Option.ite_none_left_eq_some.mp target).2⟩

end Places

/-- The path of the name that an item includes fits the answer that the item was given. -/
structure Agrees (f : Family) (d : DocumentId) (id : ItemId) (found : Option DocumentId) : Prop where
  /-- the document that is found is at this path -/
  leads : ∀ e, found = some e → ∃ name path filename, (f.document d).tree.firstText? id = some name ∧
    f.pathOf? d name = some path ∧ (f.document e).filename = some filename ∧ Path.same path filename
  /-- if none is found, it is a path above, or one was tried before it -/
  missed : found = none → ∀ name path, (f.document d).tree.firstText? id = some name → name ≠ "" →
    f.pathOf? d name = some path → ∃ other ∈ path :: (f.places d name).takeWhile (· != path),
      ∃ above ∈ f.chain d, Path.same other above

section Agrees

theorem Agrees.grown {found : Option DocumentId} (agrees : f.Agrees d id found) (before : f.Linked) (after : g.Linked)
    (uniform : f.files.Uniform) (grown : f.Grows g) (there : d < f.documents.size)
    (inside : ∀ e ∈ found, e < f.documents.size) (sound : f.Sound) : g.Agrees d id found where
  leads e same := by
    obtain ⟨name, path, filename, text, found, named, equal⟩ := agrees.leads e same
    refine ⟨name, path, filename, ?_, ?_, ?_, equal⟩
    · rw [grown.documents d there, text]
    · rw [pathOf_grown before after uniform grown there, found]
    · rw [grown.documents e (inside e same), named]
  missed none name path := by
    rw [grown.documents d there, pathOf_grown before after uniform grown there, places_grown grown there,
      chain_grown sound grown there]
    exact agrees.missed none name path

/-- An item that is asked for the first time is given an answer that agrees. -/
theorem Unasked.agrees (unasked : f.Unasked d id) (linked : f.Linked) (sound : f.Sound) (uniform : f.files.Uniform) :
    ((included d id).run f).2.Agrees d id ((included d id).run f).1 := by
  have there := unasked.inside
  have after := included_linked linked sound d id
  obtain ⟨grown, _⟩ := included_kept sound d id
  have same_path := pathOf_grown linked after uniform grown there
  constructor
  · intro e answer
    cases target : f.target? d id with
    | none => cases answer.symm.trans (included_nowhere unasked target)
    | some path =>
      obtain ⟨inner, filename, found, named, equal⟩ := included_filename unasked target
      cases answer.symm.trans found
      obtain ⟨name, text, reached⟩ := target_named target
      refine ⟨name, path, filename, ?_, ?_, named, equal⟩
      · rw [grown.documents d there, text]
      · rw [same_path, pathOf_of_target reached]
  · intro answer name path text full found
    cases target : f.target? d id with
    | some path =>
      obtain ⟨inner, _, found, _⟩ := included_filename unasked target
      cases answer.symm.trans found
    | none =>
      rw [grown.documents d there] at text
      rw [same_path] at found
      rw [places_grown grown there, chain_grown sound grown there]
      exact above_of_missed ((target_eq text full).symm.trans target) found

/-- All answers that have been given agree. -/
def AllAgree (f : Family) : Prop :=
  ∀ d id found, f.inclusions.lookup (d, id) = some found → f.Agrees d id found

theorem lookup_included (unasked : f.Unasked d id) {e : DocumentId} {other : ItemId} (different : (e, other) ≠ (d, id)) :
    ((included d id).run f).2.inclusions.lookup (e, other) = f.inclusions.lookup (e, other) := by
  obtain ⟨found, g, outcome, same⟩ := included_outcome unasked
  rw [same, lookup_remember, if_neg different]
  generalize f.target? d id = target at outcome
  cases outcome <;> rfl

/-- One more answer agrees, too. The others stay. -/
theorem AllAgree.asked (agree : f.AllAgree) (linked : f.Linked) (sound : f.Sound) (uniform : f.files.Uniform)
    (d : DocumentId) (id : ItemId) : ((included d id).run f).2.AllAgree := by
  by_cases unasked : f.Unasked d id
  · intro e other found known
    by_cases here : (e, other) = (d, id)
    · cases here
      cases known.symm.trans (included_known unasked.1 rfl)
      exact unasked.agrees linked sound uniform
    · rw [lookup_included unasked here] at known
      have there := inside_of_inclusion (linked.asked _ _ known)
      refine (agree e other found known).grown linked (included_linked linked sound d id) uniform
        (included_kept sound d id).1 there ?_ sound
      rintro inner rfl
      exact sound.inner _ inner known
  · rw [included_same unasked]
    exact agree

theorem Later.allAgree (later : f.Later g) (agree : f.AllAgree) (linked : f.Linked) (sound : f.Sound)
    (uniform : f.files.Uniform) : g.AllAgree := by
  induction later with
  | refl => exact agree
  | asked d id earlier ih =>
    obtain ⟨grown, after⟩ := earlier.kept sound
    exact ih.asked (earlier.linked sound linked) after (grown.files ▸ uniform) d id

end Agrees

/-- Whatever is asked, in whatever order: the answer that an item is given agrees with the path that is
found for the name it includes, then and ever after. -/
theorem paths_agree (options : Options) (files : Files) (text : String) (filename : Option String)
    (queries later : List Query) (d : DocumentId) (id : ItemId) (uniform : files.Uniform)
    (inclusion : (((ofText options files text filename).askedAll queries).document d).tree.kind id = .inclusion) :
    let answer := (included d id).run ((ofText options files text filename).askedAll queries)
    (answer.2.askedAll later).Agrees d id answer.1 := by
  have sound := ofText_sound options files text filename
  have linked := ofText_linked options files text filename
  have asked := askedAll_later sound queries
  have all := asked.trans (.asked d id .refl)
  have more := askedAll_later (all.kept sound).2 later
  have nothing : (ofText options files text filename).AllAgree := nofun
  intro answer
  apply (all.trans more).allAgree nothing linked sound uniform
  exact (more.kept (all.kept sound).2).1.inclusions _ _ (included_known inclusion rfl)

/-- An answer that leads to a document, and one that leads nowhere, since the path is that of the document
that asks. -/
theorem paths_agree_both_ways :
    let files := Files.table [("b.ly", "\x7b c \x7d"), ("a.ly", "\x7b d \x7d")]
    let f := ofText .standard files "\\include \"b.ly\" \\include \"a.ly\"" (some "a.ly")
    (f.document 0).tree.kind 2 = .inclusion ∧ ((included 0 2).run f).1 = some 1 ∧
      (((included 0 2).run f).2.askedAll [⟨0, .inclusion 4⟩]).Agrees 0 2 (some 1) ∧
    (f.document 0).tree.kind 4 = .inclusion ∧ f.pathOf? 0 "a.ly" = some "a.ly" ∧
      ((included 0 4).run (f.askedAll [⟨0, .inclusion 2⟩])).2.Agrees 0 4 none := by
  intro files f
  obtain ⟨first, still, second, found, nowhere, path⟩ : (f.document 0).tree.kind 2 = .inclusion ∧
      ((f.askedAll [⟨0, .inclusion 2⟩]).document 0).tree.kind 4 = .inclusion ∧
      (f.document 0).tree.kind 4 = .inclusion ∧ ((included 0 2).run f).1 = some 1 ∧
      ((included 0 4).run (f.askedAll [⟨0, .inclusion 2⟩])).1 = none ∧
      f.pathOf? 0 "a.ly" = some "a.ly" := by decide +kernel
  have leads := paths_agree .standard files "\\include \"b.ly\" \\include \"a.ly\"" (some "a.ly") []
    [⟨0, .inclusion 4⟩] 0 2 (Files.table_uniform _) first
  have missed := paths_agree .standard files "\\include \"b.ly\" \\include \"a.ly\"" (some "a.ly")
    [⟨0, .inclusion 2⟩] [] 0 4 (Files.table_uniform _) still
  refine ⟨first, found, ?_, second, path, ?_⟩
  · rw [← found]
    exact leads
  · rw [← nowhere]
    exact missed

end Family

end ScoreText
