import ScoreText.Music.Value
import ScoreText.Proofs.Layout

/-! The language of pitch names. Some items switch it, and a name is read in the language of the last
switch before it. A switch is where the string stands that names the language, which may lie far behind
the command. -/
namespace ScoreText

/-- The language at a place: that of the last switch before it, or the configured one if there is none. -/
inductive InEffect (switch : Nat → String → Prop) (configured : String) (k : Nat) : String → Prop
  | configured : (∀ a l, switch a l → k ≤ a) → InEffect switch configured k configured
  | switched {a : Nat} {l : String} : switch a l → a < k →
      (∀ b m, switch b m → b < k → b < a ∨ b = a ∧ m = l) → InEffect switch configured k l

theorem InEffect.congr {switch other : Nat → String → Prop} {configured l : String} {k : Nat}
    (inEffect : InEffect switch configured k l) (same : ∀ a m, a < k → (other a m ↔ switch a m)) :
    InEffect other configured k l := by
  cases inEffect with
  | configured behind =>
    refine .configured fun a m there => Nat.le_of_not_lt fun before => ?_
    exact absurd (behind a m ((same a m before).mp there)) (Nat.not_le_of_lt before)
  | switched there before last =>
    exact .switched ((same _ _ before).mpr there) before fun b m other lower =>
      last b m ((same b m lower).mp other) lower

/-- Whether items of a kind have nothing to do with the names of pitches. -/
def ItemKind.mute : ItemKind → Bool
  | .language | .note | .string => false
  | _ => true

/-- No more than one language is in effect at a place. -/
theorem InEffect.unique {switch : Nat → String → Prop} {configured l m : String} {k : Nat}
    (first : InEffect switch configured k l) (second : InEffect switch configured k m) : l = m := by
  cases first with
  | configured behind =>
    cases second with
    | configured => rfl
    | switched there before => exact absurd (behind _ _ there) (Nat.not_le_of_lt before)
  | switched there before last =>
    cases second with
    | configured behind => exact absurd (behind _ _ there) (Nat.not_le_of_lt before)
    | switched other lower later =>
      rcases last _ _ other lower with less | ⟨_, same⟩
      · rcases later _ _ there before with more | ⟨_, same⟩
        · exact absurd less (Nat.lt_asymm more)
        · exact same
      · exact same.symm

/-- The places may be told by other numbers in the same order. -/
theorem InEffect.renumber {switch : Nat → String → Prop} {configured l : String} {k : Nat} {f : Nat → Nat}
    (inEffect : InEffect switch configured k l)
    (order : ∀ a b, (a = k ∨ ∃ m, switch a m) → (b = k ∨ ∃ m, switch b m) → a < b → f a < f b) :
    InEffect (fun b m => ∃ a, switch a m ∧ f a = b) configured (f k) l := by
  have before : ∀ {a m}, switch a m → f a < f k → a < k := by
    intro a m there lower
    rcases Nat.lt_trichotomy a k with less | rfl | more
    · exact less
    · exact absurd lower (Nat.lt_irrefl _)
    · exact absurd lower (Nat.lt_asymm (order k a (.inl rfl) (.inr ⟨m, there⟩) more))
  cases inEffect with
  | configured behind =>
    refine .configured ?_
    rintro _ m ⟨a, there, rfl⟩
    refine Nat.le_of_not_lt fun lower => ?_
    exact absurd (behind a m there) (Nat.not_le_of_lt (before there lower))
  | @switched a l there front last =>
    refine .switched ⟨a, there, rfl⟩ (order a k (.inr ⟨l, there⟩) (.inl rfl) front) ?_
    rintro _ m ⟨b, other, rfl⟩ lower
    rcases last b m other (before other lower) with less | ⟨rfl, same⟩
    · exact .inl (order b a (.inr ⟨m, other⟩) (.inr ⟨l, there⟩) less)
    · exact .inr ⟨rfl, same⟩

namespace Tree

variable {t u v : Tree} {p q c m id : ItemId} {configured language : String}

/-- The language that an item switches to if it is one that is known. -/
def knownLanguage? (t : Tree) (p : ItemId) : Option String :=
  match t.kind p, (t.item p).details with
  | .language, .language (some l) => if PitchNames.isLanguage l then some l else none
  | _, _ => none

/-- A string is a part of an item for a language. -/
structure Names (t : Tree) (p m : ItemId) : Prop where
  language : t.kind p = .language
  string : t.kind m = .string
  child : m ∈ t.children p

/-- The string that names a known language. -/
def Switched (t : Tree) (m : ItemId) (l : String) : Prop :=
  ∃ p, t.knownLanguage? p = some l ∧ t.Names p m

/-- A note is as its name says in the language in effect. -/
def Sounds (t : Tree) (configured : String) (i : ItemId) : Prop :=
  ∃ s pitch octave accidental check l, (t.item i).token = some s ∧
    (t.item i).details = .note pitch octave accidental check ∧
    InEffect t.Switched configured i l ∧ readPitch? l s.text = some (pitch.note, pitch.alter)

/-- A tree as it is while a language is the one of pitch names. -/
structure Voiced (t : Tree) (configured language : String) : Prop where
  inside : ∀ p, ∀ c ∈ t.children p, c < t.size
  named : ∀ p l, t.knownLanguage? p = some l →
    ∃ m, t.Names p m ∧ (t.item m).token.isSome ∧ ∀ c, t.Names p c → c = m
  alone : ∀ p q m, t.Names p m → m ∈ t.children q → q = p
  notes : ∀ i, t.kind i = .note → t.Sounds configured i
  now : InEffect t.Switched configured t.size language

/-- An item that is no string by which a language is named. -/
structure Loose (t : Tree) (c : ItemId) : Prop where
  inside : c < t.size
  unnamed : ∀ p, ¬ t.Names p c

/-- An item that others may be put into. -/
structure Plain (t : Tree) (id : ItemId) : Prop where
  inside : id < t.size
  language : t.kind id ≠ .language

/-- An item that is filled without any concern for languages. -/
structure Mute (t : Tree) (id : ItemId) : Prop where
  inside : id < t.size
  mute : (t.kind id).mute

/-- Nothing holds an item, and no other one came after it but for those that are for languages. -/
structure Latest (t : Tree) (id : ItemId) : Prop where
  last : ∀ i < t.size, id < i → t.kind i = .language
  leading : (t.item id).token.isSome
  unheld : ∀ q, id ∉ t.children q

/-- An item that was read and names nothing so far. If it is a string, it came after the first `n` items and
is the latest one. -/
structure Handed (n : Nat) (t : Tree) (id : ItemId) : Prop where
  loose : t.Loose id
  latest : t.kind id = .string → n ≤ id ∧ t.Latest id

/-- What is known of the items of a tree holds later on. -/
structure Kept (t u : Tree) : Prop where
  larger : t.size ≤ u.size
  kind : ∀ i < t.size, u.kind i = t.kind i
  names : ∀ p < t.size, ∀ m, u.Names p m ↔ t.Names p m
  loose : ∀ c, t.Loose c → u.Loose c
  languages : ∀ p < t.size, t.kind p = .language → (u.item p).details = (t.item p).details

theorem lt_size_of_kind (known : t.kind id ≠ .document) : id < t.size := by
  refine Nat.lt_of_not_le fun outside => known ?_
  rw [kind, item_of_size_le outside]
  rfl

theorem Names.holder (names : t.Names p m) : p < t.size :=
  lt_size_of_kind (by simp [names.language])

theorem Names.inside (names : t.Names p m) : m < t.size :=
  lt_size_of_kind (by simp [names.string])

theorem loose_of_kind (inside : c < t.size) (kind : t.kind c ≠ .string) : t.Loose c :=
  ⟨inside, fun _ names => kind names.string⟩

/-- A child of an item that is not for a language does not name one. -/
theorem Voiced.loose (voiced : t.Voiced configured language) (child : c ∈ t.children p)
    (kind : t.kind p ≠ .language) : t.Loose c := by
  refine ⟨voiced.inside p c child, fun q names => kind ?_⟩
  rw [voiced.alone q p c names child]
  exact names.language

theorem Kept.refl (t : Tree) : t.Kept t :=
  ⟨Nat.le_refl _, fun _ _ => rfl, fun _ _ _ => .rfl, fun _ loose => loose, fun _ _ _ => rfl⟩

theorem Kept.trans (first : t.Kept u) (later : u.Kept v) : t.Kept v where
  larger := Nat.le_trans first.larger later.larger
  kind i there := (later.kind i (Nat.lt_of_lt_of_le there first.larger)).trans (first.kind i there)
  names p there m := (later.names p (Nat.lt_of_lt_of_le there first.larger) m).trans (first.names p there m)
  loose c known := later.loose c (first.loose c known)
  languages p there kind := by
    have before := first.languages p there kind
    rw [← before]
    exact later.languages p (Nat.lt_of_lt_of_le there first.larger) ((first.kind p there).trans kind)

theorem Plain.later (plain : t.Plain id) (kept : t.Kept u) : u.Plain id :=
  ⟨Nat.lt_of_lt_of_le plain.inside kept.larger, kept.kind id plain.inside ▸ plain.language⟩

theorem Mute.later (mute : t.Mute id) (kept : t.Kept u) : u.Mute id :=
  ⟨Nat.lt_of_lt_of_le mute.inside kept.larger, kept.kind id mute.inside ▸ mute.mute⟩

theorem Mute.ne_string (mute : t.Mute id) : t.kind id ≠ .string := by
  intro string
  have mute := mute.mute
  rw [string] at mute
  cases mute

theorem Mute.plain (mute : t.Mute id) : t.Plain id := by
  refine ⟨mute.inside, fun language => ?_⟩
  have mute := mute.mute
  rw [language] at mute
  cases mute

theorem Mute.loose (mute : t.Mute id) : t.Loose id :=
  loose_of_kind mute.inside mute.ne_string

theorem Loose.later (loose : t.Loose c) (kept : t.Kept u) : u.Loose c :=
  kept.loose c loose

theorem handed_of_kind {n : Nat} (inside : id < t.size) (kind : t.kind id ≠ .string) : t.Handed n id :=
  ⟨loose_of_kind inside kind, fun string => absurd string kind⟩

theorem Mute.handed {n : Nat} (mute : t.Mute id) : t.Handed n id :=
  handed_of_kind mute.inside mute.ne_string

theorem Handed.mono {m n : Nat} (handed : t.Handed n id) (le : m ≤ n) : t.Handed m id :=
  ⟨handed.loose, fun string => ⟨Nat.le_trans le (handed.latest string).1, (handed.latest string).2⟩⟩

theorem knownLanguage?_congr (kind : u.kind p = t.kind p)
    (details : t.kind p = .language → (u.item p).details = (t.item p).details) :
    u.knownLanguage? p = t.knownLanguage? p := by
  unfold knownLanguage?
  rw [kind]
  by_cases language : t.kind p = .language
  · rw [details language]
  · split <;> split <;> simp_all

theorem knownLanguage?_of_bare (bare : (t.item p).details = .none) : t.knownLanguage? p = none := by
  unfold knownLanguage?
  rw [bare]
  split
  · rename_i details
    cases details
  · rfl

theorem knownLanguage?_eq_some {l : String} (known : t.knownLanguage? p = some l) :
    t.kind p = .language ∧ (t.item p).details = .language (some l) := by
  unfold knownLanguage? at known
  split at known
  · rename_i kind details
    split at known
    · cases known
      exact ⟨kind, details⟩
    · cases known
  · cases known

/-- An edit that does not touch notes, nor what names a known language. -/
structure SameVoice (t u : Tree) : Prop where
  size : u.size = t.size
  kind : ∀ i, u.kind i = t.kind i
  token : ∀ i, (u.item i).token = (t.item i).token
  notes : ∀ i, t.kind i = .note → (u.item i).details = (t.item i).details
  known : ∀ p, u.knownLanguage? p = t.knownLanguage? p
  names : ∀ p m, u.Names p m ↔ t.Names p m

namespace SameVoice

variable (same : t.SameVoice u)
include same

theorem switched (m : ItemId) (l : String) : u.Switched m l ↔ t.Switched m l := by
  simp only [Switched, same.known, same.names]

theorem loose (known : t.Loose c) : u.Loose c :=
  ⟨same.size ▸ known.inside, fun p names => known.unnamed p ((same.names p c).mp names)⟩

theorem kept (languages : ∀ i, t.kind i = .language → (u.item i).details = (t.item i).details) : t.Kept u where
  larger := Nat.le_of_eq same.size.symm
  kind i _ := same.kind i
  names p _ := same.names p
  loose _ := same.loose
  languages p _ := languages p

/-- Children may be added elsewhere as long as they name no language. -/
theorem voiced (voiced : t.Voiced configured language) (inside : ∀ p, ∀ c ∈ u.children p, c < u.size)
    (alone : ∀ p q m, u.Names p m → m ∈ u.children q → q = p) : u.Voiced configured language where
  inside := inside
  named p l known := by
    obtain ⟨m, names, token, only⟩ := voiced.named p l ((same.known p).symm.trans known)
    refine ⟨m, (same.names p m).mpr names, by rwa [same.token], fun c names => ?_⟩
    exact only c ((same.names p c).mp names)
  alone := alone
  notes i note := by
    have note : t.kind i = .note := (same.kind i).symm.trans note
    obtain ⟨s, pitch, octave, accidental, check, l, token, details, inEffect, read⟩ := voiced.notes i note
    exact ⟨s, pitch, octave, accidental, check, l, (same.token i).trans token,
      (same.notes i note).trans details, inEffect.congr fun a m _ => same.switched a m, read⟩
  now := by
    rw [same.size]
    exact voiced.now.congr fun a m _ => same.switched a m

end SameVoice

section Edit

variable {kind : ItemKind} {position : Nat} {token : Option Token}

variable {f : Item → Item}

theorem place_details (t : Tree) (id : ItemId) (details : Details) (i : ItemId) :
    SamePlace (t.item i) ((t.update id fun i => { i with details := details }).item i) :=
  place_update (f := fun i => { i with details := details }) (fun _ => ⟨rfl, rfl, rfl, rfl, rfl⟩) t id i

theorem names_of_place (place : ∀ i, SamePlace (t.item i) (u.item i)) (p m : ItemId) :
    u.Names p m ↔ t.Names p m := by
  have kind : ∀ i, u.kind i = t.kind i := fun i => (place i).kind
  have children : u.children p = t.children p := (place p).children
  exact ⟨fun names => ⟨kind p ▸ names.language, kind m ▸ names.string, children ▸ names.child⟩,
    fun names => ⟨(kind p).trans names.language, (kind m).trans names.string, children ▸ names.child⟩⟩

theorem sameVoice_update (same : ∀ i, SamePlace i (f i))
    (notes : t.kind id = .note → (f (t.item id)).details = (t.item id).details)
    (known : (t.update id f).knownLanguage? id = t.knownLanguage? id) : t.SameVoice (t.update id f) where
  size := size_update ..
  kind i := (place_update same t id i).kind
  token i := (place_update same t id i).token
  notes i note := by
    rw [item_update]
    split
    · rename_i here
      obtain ⟨rfl, _⟩ := here
      exact notes note
    · rfl
  known i := by
    by_cases here : i = id
    · rw [here, known]
    · exact knownLanguage?_congr (place_update same t id i).kind fun _ => by rw [item_update_other here]
  names := names_of_place (place_update same t id)

theorem SameVoice.updated (voice : t.SameVoice (t.update id f)) (same : ∀ i, SamePlace i (f i))
    (voiced : t.Voiced configured language) : (t.update id f).Voiced configured language := by
  have children : ∀ p, (t.update id f).children p = t.children p := fun p => (place_update same t id p).children
  refine voice.voiced voiced (fun p c member => ?_) fun p q m names member => ?_
  · rw [size_update]
    exact voiced.inside p c (children p ▸ member)
  · exact voiced.alone p q m ((voice.names p m).mp names) (children q ▸ member)

theorem Voiced.update (voiced : t.Voiced configured language) (id : ItemId) (same : ∀ i, SamePlace i (f i))
    (details : t.kind id = .note ∨ t.kind id = .language → (f (t.item id)).details = (t.item id).details) :
    t.Kept (t.update id f) ∧ (t.update id f).Voiced configured language := by
  have untouched : ∀ i, t.kind i = .language → ((t.update id f).item i).details = (t.item i).details := by
    intro i language
    rw [item_update]
    split
    · rename_i here
      obtain ⟨rfl, _⟩ := here
      exact details (.inr language)
    · rfl
  have voice : t.SameVoice (t.update id f) := sameVoice_update same (fun note => details (.inl note))
    (knownLanguage?_congr (place_update same t id id).kind (untouched id))
  exact ⟨voice.kept untouched, voice.updated same voiced⟩

theorem kind_append (t : Tree) (p c i : ItemId) : (t.append p c).kind i = t.kind i := by
  rw [Tree.kind, item_moved]
  rfl

/-- Only the child that is moved is lost to others. -/
theorem mem_children_append_other {i : ItemId} (there : p < t.size) (member : m ∈ t.children i) (ne : m ≠ c) :
    m ∈ (t.append p c).children i := by
  rw [children_append t there, children_detach]
  refine List.mem_append_left _ ?_
  split
  · exact List.mem_filter.mpr ⟨member, by simpa using ne⟩
  · exact member

theorem names_append (inside : p < t.size) (loose : t.Loose c) (q m : ItemId) :
    (t.append p c).Names q m ↔
      t.Names q m ∨ q = p ∧ m = c ∧ t.kind p = .language ∧ t.kind c = .string := by
  constructor
  · intro names
    have language := kind_append t p c q ▸ names.language
    have string := kind_append t p c m ▸ names.string
    rcases mem_children_append inside names.child with before | ⟨rfl, rfl⟩
    · exact .inl ⟨language, string, before⟩
    · exact .inr ⟨rfl, rfl, language, string⟩
  · rintro (names | ⟨rfl, rfl, language, string⟩)
    · refine ⟨(kind_append ..).trans names.language, (kind_append ..).trans names.string, ?_⟩
      refine mem_children_append_other inside names.child ?_
      rintro rfl
      exact loose.unnamed q names
    · refine ⟨(kind_append ..).trans language, (kind_append ..).trans string, ?_⟩
      rw [children_append t inside]
      simp

theorem sameVoice_append (plain : t.Plain p) (loose : t.Loose c) : t.SameVoice (t.append p c) where
  size := size_append ..
  kind := kind_append t p c
  token i := by rw [item_moved]
  notes i _ := by rw [item_moved]
  known i := knownLanguage?_congr (kind_append t p c i) fun _ => by rw [item_moved]
  names q m := by
    rw [names_append plain.inside loose]
    simp [plain.language]

theorem Voiced.append (voiced : t.Voiced configured language) (plain : t.Plain p) (loose : t.Loose c) :
    t.Kept (t.append p c) ∧ (t.append p c).Voiced configured language := by
  have voice := sameVoice_append plain loose
  refine ⟨voice.kept fun i _ => by rw [item_moved], ?_⟩
  refine voice.voiced voiced (fun q m member => ?_) fun q r m names member => ?_
  · rw [size_append]
    rcases mem_children_append plain.inside member with before | ⟨_, rfl⟩
    · exact voiced.inside q m before
    · exact loose.inside
  · have known := (voice.names q m).mp names
    rcases mem_children_append plain.inside member with before | ⟨_, rfl⟩
    · exact voiced.alone q r m known before
    · exact absurd known (loose.unnamed q)

end Edit

section Extend

/-- One item more, which has no children yet. -/
structure Extends (t u : Tree) : Prop where
  size : u.size = t.size + 1
  old : ∀ i, i ≠ t.size → u.item i = t.item i
  children : u.children t.size = []
  bare : u.kind t.size = .language → (u.item t.size).details = .none

namespace Extends

variable (more : t.Extends u)
include more

theorem known (p : ItemId) : u.knownLanguage? p = t.knownLanguage? p := by
  by_cases last : p = t.size
  · have before : t.knownLanguage? p = none := by
      refine knownLanguage?_of_bare ?_
      rw [item_of_size_le (Nat.le_of_eq last.symm)]
      rfl
    rw [before]
    by_cases language : u.kind p = .language
    · exact knownLanguage?_of_bare (last ▸ more.bare (last ▸ language))
    · unfold knownLanguage?
      split
      · rename_i kind _
        exact absurd kind language
      · rfl
  · have same := more.old p last
    exact knownLanguage?_congr (congrArg Item.kind same) fun _ => congrArg Item.details same

variable (voiced : t.Voiced configured language)
include voiced

theorem child {p c : ItemId} (member : c ∈ u.children p) : p ≠ t.size ∧ c ∈ t.children p ∧ c < t.size := by
  have old : p ≠ t.size := by
    rintro rfl
    rw [more.children] at member
    cases member
  have member : c ∈ t.children p := by rwa [Tree.children, more.old p old] at member
  exact ⟨old, member, voiced.inside p c member⟩

theorem names (p m : ItemId) : u.Names p m ↔ t.Names p m := by
  have kind : ∀ i, i ≠ t.size → u.kind i = t.kind i := fun i old => congrArg Item.kind (more.old i old)
  constructor
  · intro names
    obtain ⟨old, child, inside⟩ := more.child voiced names.child
    exact ⟨kind p old ▸ names.language, kind m (Nat.ne_of_lt inside) ▸ names.string, child⟩
  · intro names
    have old := Nat.ne_of_lt names.holder
    refine ⟨(kind p old).trans names.language, (kind m (Nat.ne_of_lt names.inside)).trans names.string, ?_⟩
    rw [Tree.children, more.old p old]
    exact names.child

theorem switched (m : ItemId) (l : String) : u.Switched m l ↔ t.Switched m l := by
  simp only [Switched, more.known, more.names voiced]

theorem kept : t.Kept u where
  larger := by
    rw [more.size]
    exact Nat.le_succ _
  kind i there := congrArg Item.kind (more.old i (Nat.ne_of_lt there))
  names p _ := more.names voiced p
  loose c known := by
    refine ⟨?_, fun p names => known.unnamed p ((more.names voiced p c).mp names)⟩
    rw [more.size]
    exact Nat.lt_succ_of_lt known.inside
  languages p there _ := congrArg Item.details (more.old p (Nat.ne_of_lt there))

theorem loose : u.Loose t.size := by
  refine ⟨by rw [more.size]; exact Nat.lt_succ_self _, fun p names => ?_⟩
  exact absurd ((more.names voiced p _).mp names).inside (Nat.lt_irrefl _)

theorem sounding (sounds : u.kind t.size = .note → ∃ s pitch octave accidental check,
      (u.item t.size).token = some s ∧ (u.item t.size).details = .note pitch octave accidental check ∧
      readPitch? language s.text = some (pitch.note, pitch.alter)) : u.Voiced configured language where
  inside p c member := by
    rw [more.size]
    exact Nat.lt_succ_of_lt (more.child voiced member).2.2
  named p l known := by
    obtain ⟨m, names, token, only⟩ := voiced.named p l ((more.known p).symm.trans known)
    refine ⟨m, (more.names voiced p m).mpr names, ?_, fun c names => ?_⟩
    · rwa [more.old m (Nat.ne_of_lt names.inside)]
    · exact only c ((more.names voiced p c).mp names)
  alone p q m names member := by
    exact voiced.alone p q m ((more.names voiced p m).mp names) (more.child voiced member).2.1
  notes i note := by
    -- the new note sounds in the language of now, the old ones in that of their place
    by_cases last : i = t.size
    · subst last
      obtain ⟨s, pitch, octave, accidental, check, token, details, read⟩ := sounds note
      exact ⟨s, pitch, octave, accidental, check, language, token, details,
        voiced.now.congr fun m l _ => more.switched voiced m l, read⟩
    · have same := more.old i last
      obtain ⟨s, pitch, octave, accidental, check, l, token, details, inEffect, read⟩ :=
        voiced.notes i ((congrArg Item.kind same).symm.trans note)
      exact ⟨s, pitch, octave, accidental, check, l, same ▸ token, same ▸ details,
        inEffect.congr fun m l _ => more.switched voiced m l, read⟩
  now := by
    have now := voiced.now
    rw [more.size]
    have same := more.switched voiced
    cases now with
    | configured behind =>
      refine .configured fun m l switched => ?_
      obtain ⟨p, _, names⟩ := (same m l).mp switched
      exact absurd (behind m l ((same m l).mp switched)) (Nat.not_le_of_lt names.inside)
    | switched there before last =>
      refine .switched ((same _ _).mpr there) (Nat.lt_succ_of_lt before) fun m l switched _ => ?_
      obtain ⟨p, _, names⟩ := (same m l).mp switched
      exact last m l ((same m l).mp switched) names.inside

end Extends

theorem extends_push (t : Tree) (kind : ItemKind) (position : Nat) (token : Option Token) :
    t.Extends (t.push (.single kind position token)) := by
  have new : (t.push (.single kind position token)).item t.size = .single kind position token := by
    rw [item_push, if_pos rfl]
  refine ⟨size_push .., fun i old => ?_, ?_, fun _ => ?_⟩
  · rw [item_push, if_neg old]
  · rw [children, new]
    rfl
  · rw [new]
    rfl

theorem extends_note (t : Tree) (s : Token) (details : Details) :
    t.Extends ((t.push (.single .note s.start (some s))).update t.size fun i => { i with details }) ∧
      ((t.push (.single .note s.start (some s))).update t.size fun i => { i with details }).item t.size =
        { Item.single .note s.start (some s) with details } := by
  have new : ((t.push (.single .note s.start (some s))).update t.size fun i => { i with details }).item t.size =
      { Item.single .note s.start (some s) with details } := by
    rw [item_update_self (by rw [size_push]; exact Nat.lt_succ_self _), item_push, if_pos rfl]
  refine ⟨⟨?_, fun i old => ?_, ?_, fun language => ?_⟩, new⟩
  · rw [size_update, size_push]
  · rw [item_update_other old, item_push, if_neg old]
  · rw [children, new]
    rfl
  · rw [kind, new] at language
    cases language

end Extend

end Tree

end ScoreText
