import ScoreText.Proofs.Switches

/-! How an item for a language comes by its name, and how it switches to that language. The name is read when
the item is there, or the item is added behind it. -/
namespace ScoreText.Tree

variable {t u v : Tree} {p q c m id : ItemId} {configured language : String}

variable {f g : Item → Item}

theorem Kept.update_new (kept : t.Kept u) (new : t.size ≤ p) (same : ∀ i, SamePlace i (f i)) :
    t.Kept (u.update p f) where
  larger := Nat.le_trans kept.larger (Nat.le_of_eq (size_update ..).symm)
  kind i there := (place_update same u p i).kind.trans (kept.kind i there)
  names q there m := (names_of_place (place_update same u p) q m).trans (kept.names q there m)
  loose c known := by
    have later := kept.loose c known
    refine ⟨(size_update ..).symm ▸ later.inside, fun q names => later.unnamed q ?_⟩
    exact (names_of_place (place_update same u p) q c).mp names
  languages q there kind := by
    rw [item_update_other (Nat.ne_of_lt (Nat.lt_of_lt_of_le there new))]
    exact kept.languages q there kind

theorem Kept.append_new (kept : t.Kept u) (new : t.size ≤ p) (inside : p < u.size) (loose : u.Loose c)
    (fresh : u.kind c = .string → t.size ≤ c) : t.Kept (u.append p c) where
  larger := Nat.le_trans kept.larger (Nat.le_of_eq (size_append ..).symm)
  kind i there := (kind_append ..).trans (kept.kind i there)
  names q there m := by
    rw [names_append inside loose, kept.names q there]
    refine or_iff_left ?_
    rintro ⟨rfl, _⟩
    exact absurd there (Nat.not_lt_of_le new)
  loose d known := by
    have later := kept.loose d known
    refine ⟨(size_append ..).symm ▸ later.inside, fun q names => ?_⟩
    rcases (names_append inside loose q d).mp names with before | ⟨_, rfl, _, string⟩
    · exact later.unnamed q before
    · exact absurd known.inside (Nat.not_lt_of_le (fresh string))
  languages q there kind := by
    rw [item_moved]
    exact kept.languages q there kind

theorem update_comm (comm : ∀ i, f (g i) = g (f i)) (t : Tree) (p q : ItemId) :
    (t.update p f).update q g = (t.update q g).update p f := by
  unfold update
  congr 1
  refine Array.ext_getElem? fun i => ?_
  simp only [Array.getElem?_modify]
  cases t.items[i]? with
  | none => simp
  | some item =>
    by_cases first : p = i <;> by_cases second : q = i <;> simp [first, second, comm]

/-- It is all the same whether the details of an item are filled in before a child is put into one. -/
theorem append_details (t : Tree) (id p c : ItemId) (details : Details) :
    (t.update id fun i => { i with details := details }).append p c =
      (t.append p c).update id fun i => { i with details := details } := by
  have swap : ∀ (u : Tree) (q : ItemId) (g : Item → Item),
      (∀ i, { g i with details := details } = g { i with details := details }) →
      (u.update id fun i => { i with details := details }).update q g =
        (u.update q g).update id fun i => { i with details := details } :=
    fun u q g comm => update_comm (f := fun i => { i with details := details }) comm u id q
  have parent : (t.update id fun i => { i with details := details }).parent c = t.parent c :=
    (place_details t id details c).parent
  have detach : (t.update id fun i => { i with details := details }).detach c =
      (t.detach c).update id fun i => { i with details := details } := by
    unfold detach
    rw [parent]
    split
    · exact swap _ _ _ fun _ => rfl
    · rfl
  rw [append, append, detach, swap _ c _ fun _ => rfl, swap _ p _ fun _ => rfl]

theorem Voiced.name (voiced : t.Voiced configured language) (inside : p < t.size)
    (unknown : t.knownLanguage? p = none) (loose : t.Loose c)
    (unheld : t.kind c = .string → ∀ q, c ∉ t.children q) :
    (t.append p c).Voiced configured language := by
  have kind : ∀ i, (t.append p c).kind i = t.kind i := kind_append t p c
  have known : ∀ i, (t.append p c).knownLanguage? i = t.knownLanguage? i := fun i =>
    knownLanguage?_congr (kind i) fun _ => by rw [item_moved]
  have token : ∀ i, ((t.append p c).item i).token = (t.item i).token := fun i => by rw [item_moved]
  have names := names_append inside loose
  -- the item had no known language before and is given none here, so no switch is new or lost
  have switched : ∀ m l, (t.append p c).Switched m l ↔ t.Switched m l := by
    intro m l
    constructor
    · rintro ⟨q, there, held⟩
      rw [known] at there
      rcases (names q m).mp held with before | ⟨rfl, _⟩
      · exact ⟨q, there, before⟩
      · rw [unknown] at there
        cases there
    · rintro ⟨q, there, held⟩
      exact ⟨q, (known q).trans there, (names q m).mpr (.inl held)⟩
  refine ⟨fun q m member => ?_, fun q l there => ?_, fun q r m held member => ?_, fun i note => ?_, ?_⟩
  · rw [size_append]
    rcases mem_children_append inside member with before | ⟨_, rfl⟩
    · exact voiced.inside q m before
    · exact loose.inside
  · rw [known] at there
    obtain ⟨m, held, leading, only⟩ := voiced.named q l there
    refine ⟨m, (names q m).mpr (.inl held), by rwa [token], fun d added => ?_⟩
    rcases (names q d).mp added with before | ⟨rfl, _⟩
    · exact only d before
    · rw [unknown] at there
      cases there
  · rcases (names q m).mp held with before | ⟨rfl, rfl, _, string⟩
    · rcases mem_children_append inside member with old | ⟨_, rfl⟩
      · exact voiced.alone q r m before old
      · exact absurd before (loose.unnamed q)
    · rcases mem_children_append inside member with old | ⟨rfl, _⟩
      · exact absurd old (unheld string r)
      · rfl
  · obtain ⟨s, pitch, octave, accidental, check, l, leading, details, inEffect, read⟩ :=
      voiced.notes i ((kind i).symm.trans note)
    refine ⟨s, pitch, octave, accidental, check, l, (token i).trans leading, ?_,
      inEffect.congr fun m l _ => switched m l, read⟩
    rw [item_moved]
    exact details
  · rw [size_append]
    exact voiced.now.congr fun m l _ => switched m l

/-- An item for a language that is not known changes nothing. -/
theorem Voiced.unknown (voiced : t.Voiced configured language) (kind : t.kind p = .language)
    (before : t.knownLanguage? p = none) {details : Details}
    (unknown : (t.update p fun i => { i with details := details }).knownLanguage? p = none) :
    (t.update p fun i => { i with details := details }).Voiced configured language := by
  have note : t.kind p ≠ .note := by
    rw [kind]
    decide
  have voice := sameVoice_update (f := fun i => { i with details := details })
    (fun _ => ⟨rfl, rfl, rfl, rfl, rfl⟩) (absurd · note) (unknown.trans before.symm)
  exact voice.updated (fun _ => ⟨rfl, rfl, rfl, rfl, rfl⟩) voiced

/-- An item for a language, whose name is the child of it that is given, switches to one. -/
structure Switches (t u : Tree) (p c : ItemId) (l : String) : Prop where
  size : u.size = t.size
  place : ∀ i, SamePlace (t.item i) (u.item i)
  details : ∀ i, i ≠ p → (u.item i).details = (t.item i).details
  names : t.Names p c
  only : ∀ d, t.Names p d → d = c
  before : t.knownLanguage? p = none
  now : u.knownLanguage? p = some l

namespace Switches

variable {l : String} (switches : t.Switches u p c l)
include switches

theorem held (q m : ItemId) : u.Names q m ↔ t.Names q m :=
  names_of_place switches.place q m

theorem known {q : ItemId} (ne : q ≠ p) : u.knownLanguage? q = t.knownLanguage? q :=
  knownLanguage?_congr (switches.place q).kind fun _ => switches.details q ne

theorem switched (m : ItemId) (k : String) : u.Switched m k ↔ t.Switched m k ∨ m = c ∧ k = l := by
  constructor
  · rintro ⟨q, there, held⟩
    have held := (switches.held q m).mp held
    by_cases same : q = p
    · rw [same] at held
      rw [same, switches.now] at there
      exact .inr ⟨switches.only m held, (Option.some.inj there).symm⟩
    · rw [switches.known same] at there
      exact .inl ⟨q, there, held⟩
  · rintro (⟨q, there, held⟩ | ⟨rfl, rfl⟩)
    · have ne : q ≠ p := by
        rintro rfl
        rw [switches.before] at there
        cases there
      exact ⟨q, (switches.known ne).trans there, (switches.held q m).mpr held⟩
    · exact ⟨p, switches.now, (switches.held p m).mpr switches.names⟩

variable (voiced : t.Voiced configured language) (last : ∀ i < t.size, c < i → t.kind i = .language)
include voiced last

theorem sounds {i : ItemId} (note : t.kind i = .note) : u.Sounds configured i := by
  obtain ⟨s, pitch, octave, accidental, check, k, token, details, inEffect, read⟩ := voiced.notes i note
  have other : i ≠ p := by
    rintro rfl
    have language := switches.names.language
    rw [note] at language
    cases language
  have behind : i ≤ c := Nat.le_of_not_lt fun after => by
    have kind := last i (lt_size_of_kind (by rw [note]; decide)) after
    rw [note] at kind
    cases kind
  refine ⟨s, pitch, octave, accidental, check, k, (switches.place i).token.trans token,
    (switches.details i other).trans details, inEffect.congr fun m k lower => ?_, read⟩
  rw [switches.switched]
  refine or_iff_left ?_
  rintro ⟨rfl, _⟩
  exact absurd lower (Nat.not_lt_of_le behind)

theorem inEffect : InEffect u.Switched configured u.size l := by
  rw [switches.size]
  refine .switched ((switches.switched c l).mpr (.inr ⟨rfl, rfl⟩)) switches.names.inside fun m k there _ => ?_
  rcases (switches.switched m k).mp there with ⟨q, known, held⟩ | same
  · refine .inl (Nat.lt_of_le_of_ne (Nat.le_of_not_lt fun after => ?_) fun same => ?_)
    · have kind := last m held.inside after
      rw [held.string] at kind
      cases kind
    · rw [same] at held
      have holder := voiced.alone q p c held switches.names.child
      rw [← holder, switches.before] at known
      cases known
  · exact .inr same

theorem sounding (leading : (t.item c).token.isSome) : u.Voiced configured l where
  inside q m member := by
    rw [switches.size]
    rw [children, (switches.place q).children] at member
    exact voiced.inside q m member
  named q k there := by
    by_cases same : q = p
    · refine ⟨c, same ▸ (switches.held p c).mpr switches.names, ?_, fun d held => ?_⟩
      · rwa [(switches.place c).token]
      · exact switches.only d ((switches.held p d).mp (same ▸ held))
    · rw [switches.known same] at there
      obtain ⟨m, held, token, single⟩ := voiced.named q k there
      refine ⟨m, (switches.held q m).mpr held, ?_, fun d held => single d ((switches.held q d).mp held)⟩
      rwa [(switches.place m).token]
  alone q r m held member := by
    rw [children, (switches.place r).children] at member
    exact voiced.alone q r m ((switches.held q m).mp held) member
  notes i note := switches.sounds voiced last ((switches.place i).kind.symm.trans note)
  now := switches.inEffect voiced last

end Switches

theorem switches_update {l : String} (names : t.Names p c) (only : ∀ d, t.Names p d → d = c)
    (before : t.knownLanguage? p = none) (known : PitchNames.isLanguage l) :
    t.Switches (t.update p fun i => { i with details := .language (some l) }) p c l where
  size := size_update ..
  place := place_details t p (.language (some l))
  details i other := by rw [item_update_other other]
  names := names
  only := only
  before := before
  now := by
    have item := item_update_self names.holder fun i => { i with details := .language (some l) }
    have kind : (t.item p).kind = .language := names.language
    simp only [knownLanguage?, Tree.kind, item, kind]
    simp [known]

/-- A later tree with a new item for a language that is still to be filled in. -/
structure Blank (t u : Tree) (p : ItemId) : Prop where
  kept : t.Kept u
  new : t.size ≤ p
  language : u.kind p = .language
  details : (u.item p).details = .none

/-- A new item for a language that has no name yet. -/
structure Unnamed (t u : Tree) (p : ItemId) : Prop extends t.Blank u p where
  unnamed : ∀ c, ¬ u.Names p c

/-- A later tree with a new item for a language, and the language that is in effect then. -/
structure Turned (t u : Tree) (p : ItemId) (configured language : String) : Prop where
  kept : t.Kept u
  voiced : u.Voiced configured language
  kind : u.kind p = .language

theorem Turned.handed {n : Nat} (turned : t.Turned u p configured language) : u.Handed n p := by
  refine handed_of_kind (lt_size_of_kind ?_) ?_ <;> simp [turned.kind]

theorem Voiced.unnamed (voiced : t.Voiced configured language) (position : Nat) (token : Option Token) :
    t.Unnamed (t.push (.single .language position token)) t.size ∧
      (t.push (.single .language position token)).Voiced configured language := by
  have more := extends_push t .language position token
  have item : (t.push (.single .language position token)).item t.size = .single .language position token := by
    rw [item_push, if_pos rfl]
  have kind : (t.push (.single .language position token)).kind t.size = .language := by
    rw [Tree.kind, item]
    rfl
  refine ⟨⟨⟨more.kept voiced, Nat.le_refl _, kind, by rw [item]; rfl⟩, fun c names => ?_⟩,
    more.sounding voiced fun note => ?_⟩
  · exact Nat.lt_irrefl _ ((more.names voiced t.size c).mp names).holder
  · rw [kind] at note
    cases note

/-- The name may have been read before the item for its language is added. -/
theorem Handed.push {n : Nat} (handed : t.Handed n c) (voiced : t.Voiced configured language)
    (position : Nat) (token : Option Token) : (t.push (.single .language position token)).Handed n c := by
  have more := extends_push t .language position token
  have kind : (t.push (.single .language position token)).kind c = t.kind c :=
    congrArg Item.kind (more.old c (Nat.ne_of_lt handed.loose.inside))
  refine ⟨handed.loose.later (more.kept voiced), fun string => ?_⟩
  obtain ⟨new, latest⟩ := handed.latest (kind.symm.trans string)
  refine ⟨new, fun i inside after => ?_, ?_, fun q member => ?_⟩
  · by_cases added : i = t.size
    · rw [Tree.kind, item_push, if_pos added]
      rfl
    · rw [more.size] at inside
      rw [Tree.kind, more.old i added]
      exact latest.last i (by omega) after
  · rw [more.old c (Nat.ne_of_lt handed.loose.inside)]
    exact latest.leading
  · exact latest.unheld q (more.child voiced member).2.1

theorem Blank.inside (blank : t.Blank u p) : p < u.size :=
  lt_size_of_kind (by simp [blank.language])

theorem Blank.unknown (blank : t.Blank u p) : u.knownLanguage? p = none :=
  knownLanguage?_of_bare blank.details

/-- An item without a language that is known is as good as none. -/
theorem Blank.close (blank : t.Blank u p) (voiced : u.Voiced configured language) (details : Details)
    (unknown : ∀ l, details = .language (some l) → ¬ PitchNames.isLanguage l) :
    t.Turned (u.update p fun i => { i with details := details }) p configured language := by
  have item := item_update_self blank.inside fun i => { i with details := details }
  have none : (u.update p fun i => { i with details := details }).knownLanguage? p = none := by
    unfold knownLanguage?
    split
    · rename_i l _ named
      rw [item] at named
      exact if_neg (unknown l named)
    · rfl
  refine ⟨blank.kept.update_new blank.new fun _ => ⟨rfl, rfl, rfl, rfl, rfl⟩,
    voiced.unknown blank.language blank.unknown none, ?_⟩
  exact (place_details u p details p).kind.trans blank.language

namespace Unnamed

variable (unnamed : t.Unnamed u p)
include unnamed

theorem later (kept : u.Kept v) : t.Unnamed v p where
  kept := unnamed.kept.trans kept
  new := unnamed.new
  language := (kept.kind p unnamed.inside).trans unnamed.language
  details := (kept.languages p unnamed.inside unnamed.language).trans unnamed.details
  unnamed c names := unnamed.unnamed c ((kept.names p unnamed.inside c).mp names)

theorem since {o : Tree} (kept : o.Kept t) : o.Unnamed u p :=
  { unnamed with
    kept := kept.trans unnamed.kept
    new := Nat.le_trans kept.larger unnamed.new }

variable (voiced : u.Voiced configured language) (handed : u.Handed t.size c)
include handed

theorem named : t.Blank (u.append p c) p where
  kept := unnamed.kept.append_new unnamed.new unnamed.inside handed.loose fun string => (handed.latest string).1
  new := unnamed.new
  language := (kind_append ..).trans unnamed.language
  details := by
    rw [item_moved]
    exact unnamed.details

include voiced

theorem goes_on : (u.append p c).Voiced configured language :=
  voiced.name unnamed.inside unnamed.unknown handed.loose fun string => (handed.latest string).2.unheld

theorem switch (string : u.kind c = .string) {l : String} (known : PitchNames.isLanguage l) :
    t.Turned ((u.append p c).update p fun i => { i with details := .language (some l) }) p configured l := by
  have blank := unnamed.named handed
  have latest := (handed.latest string).2
  have names := names_append unnamed.inside handed.loose p
  have only : ∀ d, (u.append p c).Names p d → d = c := fun d named => by
    rcases (names d).mp named with before | ⟨_, same, _⟩
    · exact absurd before (unnamed.unnamed d)
    · exact same
  have switches := switches_update ((names c).mpr (.inr ⟨rfl, rfl, unnamed.language, string⟩)) only blank.unknown known
  refine ⟨blank.kept.update_new blank.new fun _ => ⟨rfl, rfl, rfl, rfl, rfl⟩,
    switches.sounding (unnamed.goes_on voiced handed) (fun i inside after => ?_) ?_,
    (place_details _ p _ p).kind.trans blank.language⟩
  · rw [size_append] at inside
    exact (kind_append ..).trans (latest.last i inside after)
  · rw [item_moved]
    exact latest.leading

end Unnamed

end ScoreText.Tree
