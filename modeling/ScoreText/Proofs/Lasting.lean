import ScoreText.Document.Walk
import ScoreText.Proofs.Growth

/-! Answers that last. What a question reads of a family of documents does not change, and what it
finds out is kept. So a question that is asked again has the answer that it had, and reads no further
document. -/
namespace ScoreText

namespace Timing

/-- Endings with the length of the body in front of each. -/
def endingsInTurn (step : Step) (ends : List ItemId) (length time scaling : Fraction) :
    Timing Fraction :=
  ends.foldlM (fun time ending => do step ending (← addScaled time length 1) scaling) time

/-- All passes of a repeat whose body has a length. The first ending makes up for missing ones. -/
def allPasses (step : Step) (ends : List ItemId) (count : Int) (time scaling length : Fraction) :
    Timing Fraction :=
  match ends.take (count.toNat + 1) with
  | [] => addScaled time length count
  | first :: others =>
    let missing := count - (first :: others).length
    (if missing > 0 then step first length scaling >>= fun pass => addScaled time pass missing
      else pure time) >>= fun time =>
      endingsInTurn step (first :: others) length time scaling

theorem unfolded_eq (step : Step) (body ends : List ItemId) (count : Int) (time scaling : Fraction) :
    unfolded step body ends count time scaling =
      inTurn step body 0 scaling >>= allPasses step ends count time scaling := by
  unfold unfolded allPasses
  congr 1
  funext length
  cases ends.take (count.toNat + 1) with
  | nil => rfl
  | cons first others =>
    dsimp only
    split
    · rw [bind_assoc]
      rfl
    · rfl

end Timing

namespace Family

theorem run_bind {α β : Type} (x : Resolving α) (k : α → Resolving β) (f : Family) :
    (x >>= k).run f = (k (x.run f).1).run (x.run f).2 :=
  rfl

theorem run_get_bind {α : Type} (k : Family → Resolving α) (f : Family) :
    (get >>= k).run f = (k f).run f :=
  rfl

/-- A question whose answer lasts: asked later again, it has the same answer and changes nothing. The
answer has a property in the family that it leaves. -/
structure Lasting {α : Type} (P : Family → α → Prop) (f : Family) (act : Resolving α) : Prop where
  later : f.Later (act.run f).2
  again : ∀ g, (act.run f).2.Grows g → act.run g = ((act.run f).1, g)
  answer : P (act.run f).2 (act.run f).1

/-- The document of an inclusion, if there is one, is in the family. -/
def Inside (f : Family) (found : Option DocumentId) : Prop :=
  ∀ d ∈ found, d < f.documents.size

/-- The document of a value, if there is one, is in the family. -/
def SourceInside (f : Family) (found : Option (DocumentId × ItemId)) : Prop :=
  ∀ source ∈ found, source.1 < f.documents.size

namespace Lasting

variable {α β : Type} {P : Family → α → Prop} {Q : Family → β → Prop} {f : Family}

theorem kept {x : Resolving α} (lasting : Lasting P f x) (sound : f.Sound) :
    f.Grows (x.run f).2 ∧ (x.run f).2.Sound :=
  lasting.later.kept sound

theorem pure {a : α} (answer : P f a) : Lasting P f (Pure.pure a) where
  later := .refl
  again _ _ := rfl
  answer := answer

theorem bind {x : Resolving α} {k : α → Resolving β} (sound : f.Sound) (first : Lasting P f x)
    (next : ∀ a g, f.Grows g → g.Sound → P g a → Lasting Q g (k a)) : Lasting Q f (x >>= k) := by
  obtain ⟨grows, after⟩ := first.kept sound
  have later := next _ _ grows after first.answer
  refine ⟨?_, ?_, ?_⟩
  · rw [run_bind]
    exact first.later.trans later.later
  · intro g grown
    rw [run_bind] at grown
    have asked := first.again g ((later.kept after).1.trans grown)
    rw [run_bind, asked, run_bind]
    exact later.again g grown
  · rw [run_bind]
    exact later.answer

theorem of_reading {x y : Resolving α} (sound : f.Sound) (same : ∀ g, f.Grows g → x.run g = y.run g)
    (lasting : Lasting P f y) : Lasting P f x := by
  have here := same f (.refl f)
  refine ⟨?_, ?_, ?_⟩
  · rw [here]
    exact lasting.later
  · intro g grown
    rw [here] at grown ⊢
    rw [same g ((lasting.kept sound).1.trans grown), lasting.again g grown]
  · rw [here]
    exact lasting.answer

theorem get {k : Family → Resolving α} (sound : f.Sound) (same : ∀ g, f.Grows g → k g = k f)
    (lasting : Lasting P f (k f)) : Lasting P f (MonadState.get >>= k) := by
  refine .of_reading sound (fun g grown => ?_) lasting
  show (k g).run g = (k f).run g
  rw [same g grown]

theorem mono {x : Resolving α} {R : Family → α → Prop} (lasting : Lasting P f x)
    (weaker : ∀ g a, P g a → R g a) : Lasting R f x :=
  ⟨lasting.later, lasting.again, weaker _ _ lasting.answer⟩

end Lasting

theorem included_lasting {f : Family} (sound : f.Sound) {d : DocumentId}
    (there : d < f.documents.size) (id : ItemId) : Lasting Inside f (included d id) := by
  have later : f.Later ((included d id).run f).2 := .asked d id .refl
  by_cases other : (f.document d).tree.kind id != .inclusion
  · refine .of_reading sound (y := pure none) (fun g grown => ?_) (.pure (by simp [Inside]))
    rw [included_eq, grown.documents d there, if_pos other]
    rfl
  · cases known : f.inclusions.lookup (d, id) with
    | some found =>
      refine .of_reading sound (y := pure found) (fun g grown => ?_) (.pure ?_)
      · rw [included_eq, grown.documents d there, if_neg other, grown.inclusions _ _ known]
        rfl
      · intro inner same
        exact sound.inner (d, id) inner (by rw [known, same])
    | none =>
      have here : (included d id).run f =
          ((f.resolve d id).1, (f.resolve d id).2.remember (d, id) (f.resolve d id).1) := by
        rw [included_eq, if_neg other, known]
      refine ⟨later, ?_, ?_⟩
      · intro g grown
        have same := ((later.kept sound).1.trans grown).documents d there
        rw [here] at grown ⊢
        have answered := grown.inclusions (d, id) (f.resolve d id).1
          (by rw [lookup_remember, if_pos rfl])
        rw [included_eq, same, if_neg other, answered]
      · rw [here]
        exact (resolve_sound sound there id).2.2.2

section Stations

variable {f g : Family} {d : DocumentId}

/-- The stations above an item lie in documents that are there, and later on there are no others. -/
theorem stationsFrom_grown (sound : f.Sound) (grown : f.Grows g) (there : d < f.documents.size)
    (node : ItemId) {n m : Nat} (enough : d < n) (more : d < m) :
    g.stationsFrom m d node = f.stationsFrom n d node ∧
      ∀ s ∈ f.stationsFrom n d node, s.1 < f.documents.size := by
  induction n generalizing d node m with
  | zero => exact absurd enough (Nat.not_lt_zero d)
  | succ n ih =>
    obtain ⟨m, rfl⟩ := Nat.exists_eq_succ_of_ne_zero (Nat.ne_of_gt (Nat.zero_lt_of_lt more))
    simp only [stationsFrom, grown.documents d there]
    cases from_above : (f.document d).includedFrom with
    | none => exact ⟨rfl, by simpa using there⟩
    | some place =>
      obtain ⟨above, item⟩ := place
      have smaller := sound.above d above item from_above
      have outer : above < f.documents.size := Nat.lt_trans smaller there
      simp only [grown.documents above outer]
      split
      · obtain ⟨same, inside⟩ := ih outer item (Nat.lt_of_lt_of_le smaller (Nat.le_of_lt_succ enough))
          (Nat.lt_of_lt_of_le smaller (Nat.le_of_lt_succ more))
        refine ⟨by rw [same], ?_⟩
        simpa using ⟨there, fun a b => inside (a, b)⟩
      · exact ⟨rfl, by simpa using there⟩

theorem stations_grown (sound : f.Sound) (grown : f.Grows g) (there : d < f.documents.size)
    (id : ItemId) :
    g.stations d id = f.stations d id ∧ ∀ s ∈ f.stations d id, s.1 < f.documents.size := by
  simp only [stations, grown.documents d there]
  split
  · exact stationsFrom_grown sound grown there _ there (Nat.lt_of_lt_of_le there grown.size)
  · exact ⟨rfl, by simp⟩

end Stations

section Visit

variable {α : Type} {P : Family → α → Prop}

theorem takeTurns_lasting {turn : ItemId → α → Resolving (Turn α)} {f : Family} (sound : f.Sound)
    (turns : ∀ g, f.Grows g → g.Sound → ∀ id a, P g a →
      Lasting (fun g t => P g t.value) g (turn id a))
    (ids : List ItemId) {a : α} (start : P f a) :
    Lasting (fun g t => P g t.value) f (takeTurns turn ids a) := by
  induction ids generalizing f a with
  | nil => exact .pure start
  | cons id ids ih =>
    refine .bind sound (turns f (.refl f) sound id a start) fun t g grown after answer => ?_
    cases t with
    | done a => exact .pure answer
    | more a => exact ih after (fun h later => turns h (grown.trans later)) answer

/-- What a visitor keeps at each visit to an item of a document that is there. -/
structure Keeps (visitor : Visitor α) (P : Family → α → Prop) : Prop where
  grows : ∀ {f g : Family} {a}, f.Grows g → P f a → P g a
  visit : ∀ {f : Family} {d}, d < f.documents.size → ∀ item a, P f a →
    P f (visitor d (f.document d) item a).value

variable {visitor : Visitor α}

theorem visit_lasting (keeps : Keeps visitor P) (n : Nat) {f : Family} (sound : f.Sound)
    {d : DocumentId} (there : d < f.documents.size) (opened : List DocumentId) (item : ItemId) {a : α}
    (start : P f a) : Lasting (fun g t => P g t.value) f (visit visitor n opened d item a) := by
  induction n generalizing f d opened item a with
  | zero => exact .pure start
  | succ n ih =>
    refine .get sound (fun g grown => by simp only [grown.documents d there]) ?_
    dsimp only
    split
    · exact .pure (keeps.visit there item a start)
    · refine .bind sound (included_lasting sound there item) fun found g grown after inside => ?_
      have start := keeps.grows grown start
      cases found with
      | none => exact .pure start
      | some inner =>
        have within : inner < g.documents.size := inside inner rfl
        dsimp only
        split
        · exact .pure start
        · refine .get after (fun h later => by simp only [later.documents inner within]) ?_
          refine takeTurns_lasting after (fun h later sound id a answer => ?_) _ start
          exact ih sound (Nat.lt_of_lt_of_le within later.size) _ id answer

theorem visitAbove_lasting (keeps : Keeps visitor P) (stations : List (DocumentId × ItemId))
    {f : Family} (sound : f.Sound) (inside : ∀ s ∈ stations, s.1 < f.documents.size)
    (opened : List DocumentId) {a : α} (start : P f a) :
    Lasting (fun g t => P g t.value) f (visitAbove visitor stations opened a) := by
  induction stations generalizing f opened a with
  | nil => exact .pure start
  | cons s above ih =>
    obtain ⟨d, node⟩ := s
    have there : d < f.documents.size := inside _ (List.mem_cons_self ..)
    refine .get sound (fun g grown => by simp only [grown.documents d there, grown.files]) ?_
    refine .bind sound (takeTurns_lasting sound (fun g grown sound id a answer => ?_) _ start) ?_
    · exact visit_lasting keeps _ sound (Nat.lt_of_lt_of_le there grown.size) _ id answer
    · intro t g grown sound answer
      cases t with
      | done a => exact .pure answer
      | more a =>
        refine ih sound (fun s mem => ?_) _ answer
        exact Nat.lt_of_lt_of_le (inside s (List.mem_cons_of_mem _ mem)) grown.size

theorem visitToplevel_lasting (keeps : Keeps visitor P) {f : Family} (sound : f.Sound)
    {d : DocumentId} (there : d < f.documents.size) (id : ItemId) {a : α} (start : P f a) :
    Lasting P f (visitToplevel visitor d id a) := by
  refine .get sound (fun g grown => by rw [(stations_grown sound grown there id).1]) ?_
  have inside := (stations_grown sound (.refl f) there id).2
  exact .bind sound (visitAbove_lasting keeps _ sound inside [] start) fun _ _ _ _ answer =>
    .pure answer

end Visit

section Variable

variable {f : Family} {d : DocumentId}

theorem definition_lasting (decides : Document → ItemId → Option (Option ItemId)) (sound : f.Sound)
    (there : d < f.documents.size) (id : ItemId) :
    Lasting SourceInside f (definition? decides d id) := by
  refine visitToplevel_lasting ⟨?_, ?_⟩ sound there id (by simp [SourceInside])
  · intro f g found grown inside source known
    exact Nat.lt_of_lt_of_le (inside source known) grown.size
  · intro f d there item _ _
    split
    · rintro source known
      obtain ⟨value, _, rfl⟩ := Option.map_eq_some_iff.mp known
      exact there
    · simp [SourceInside, Turn.value]

theorem variableValue_lasting (sound : f.Sound) (there : d < f.documents.size) (id : ItemId) :
    Lasting SourceInside f (variableValue? d id) := by
  refine .get sound (fun g grown => by rw [grown.documents d there]) ?_
  split
  · exact .pure (by simp [SourceInside])
  · exact definition_lasting _ sound there id

end Variable

/-- A walk whose outcome and mark last, whatever mark there was before. A mark stays. -/
def Lasts {α : Type} (f : Family) (walk : Timing α) : Prop :=
  ∀ mark, Lasting (fun _ out => mark = true → out.2 = true) f (walk.run mark)

namespace Lasts

variable {α β : Type} {f : Family}

theorem pure (f : Family) (a : α) : Lasts f (Pure.pure a) :=
  fun _ => .pure id

theorem marked (f : Family) (a : α) : Lasts f (Timing.leaveMark >>= fun _ => Pure.pure a) :=
  fun _ => .pure fun _ => rfl

theorem bind {x : Timing α} {k : α → Timing β} (sound : f.Sound) (first : Lasts f x)
    (next : ∀ a g, f.Grows g → g.Sound → Lasts g (k a)) : Lasts f (x >>= k) := by
  intro mark
  rw [StateT.run_bind]
  refine .bind sound (first mark) fun left g grown sound stays => ?_
  exact (next left.1 g grown sound left.2).mono fun _ _ later marked => later (stays marked)

theorem lift_bind {P : Family → α → Prop} {x : Resolving α} {k : α → Timing β} (sound : f.Sound)
    (first : Lasting P f x) (next : ∀ a g, f.Grows g → g.Sound → P g a → Lasts g (k a)) :
    Lasts f (liftM x >>= k) := fun mark =>
  Lasting.bind sound first fun a g grown sound answer => next a g grown sound answer mark

theorem get {k : Family → Timing α} (sound : f.Sound) (same : ∀ g, f.Grows g → k g = k f)
    (lasts : Lasts f (k f)) : Lasts f (getThe Family >>= k) := fun mark =>
  .get sound (k := fun g => (k g).run mark) (fun g grown => by rw [same g grown]) (lasts mark)

theorem foldlM {k : α → β → Timing α} (items : List β) (sound : f.Sound) (a : α)
    (step : ∀ g, f.Grows g → g.Sound → ∀ b ∈ items, ∀ a, Lasts g (k a b)) :
    Lasts f (items.foldlM k a) := by
  induction items generalizing f a with
  | nil => exact .pure f a
  | cons b items ih =>
    rw [List.foldlM_cons]
    refine .bind sound (step f (.refl f) sound b (List.mem_cons_self ..) a) fun a g grown after => ?_
    exact ih after a fun h later sound b mem => step h (grown.trans later) sound b (List.mem_cons_of_mem _ mem)

theorem mapM {k : β → Timing α} (items : List β) (sound : f.Sound)
    (step : ∀ g, f.Grows g → g.Sound → ∀ b ∈ items, Lasts g (k b)) : Lasts f (items.mapM k) := by
  induction items generalizing f with
  | nil => exact .pure f []
  | cons b items ih =>
    rw [List.mapM_cons]
    refine .bind sound (step f (.refl f) sound b (List.mem_cons_self ..)) fun a g grown after => ?_
    refine .bind after (ih after fun h later sound b mem => ?_) fun _ _ _ _ => .pure _ _
    exact step h (grown.trans later) sound b (List.mem_cons_of_mem _ mem)

theorem addScaled (f : Family) (time length factor : Fraction) :
    Lasts f (Timing.addScaled time length factor) := by
  unfold Timing.addScaled
  split
  · exact .pure f _
  · exact .marked f _

theorem multiply (f : Family) (a b : Fraction) : Lasts f (Timing.multiply a b) := by
  unfold Timing.multiply
  split
  · exact .pure f _
  · exact .marked f _

section Walk

open ScoreText.Timing

variable {step : Step}

theorem inTurn (sound : f.Sound) (items : List ItemId) (time scaling : Fraction)
    (steps : ∀ g, f.Grows g → g.Sound → ∀ id time scaling, Lasts g (step id time scaling)) :
    Lasts f (inTurn step items time scaling) :=
  .foldlM items sound time fun g grown after id _ time => steps g grown after id time scaling

theorem together (sound : f.Sound) (items : List ItemId) (time scaling : Fraction)
    (steps : ∀ g, f.Grows g → g.Sound → ∀ id time scaling, Lasts g (step id time scaling)) :
    Lasts f (together step items time scaling) := by
  refine .bind sound (.mapM items sound fun g grown after id _ => steps g grown after id time scaling)
    fun ends g _ _ => ?_
  cases ends with
  | nil => exact .pure g time
  | cons first others => exact .pure g _

theorem endingsInTurn (sound : f.Sound) (ends : List ItemId) (length time scaling : Fraction)
    (steps : ∀ g, f.Grows g → g.Sound → ∀ id time scaling, Lasts g (step id time scaling)) :
    Lasts f (endingsInTurn step ends length time scaling) := by
  refine .foldlM ends sound time fun g grown sound ending _ time => ?_
  exact .bind sound (.addScaled g time length 1) fun time h later sound =>
    steps h (grown.trans later) sound ending time scaling

theorem allPasses (sound : f.Sound) (ends : List ItemId) (count : Int)
    (time scaling length : Fraction)
    (steps : ∀ g, f.Grows g → g.Sound → ∀ id time scaling, Lasts g (step id time scaling)) :
    Lasts f (allPasses step ends count time scaling length) := by
  unfold Timing.allPasses
  split
  · exact .addScaled f time length count
  · refine .bind sound ?_ fun time g grown after => ?_
    · split
      · refine .bind sound (steps f (.refl f) sound _ _ _) fun pass g _ _ => ?_
        exact .addScaled g time pass _
      · exact .pure f time
    · exact .endingsInTurn after _ length time scaling fun h later => steps h (grown.trans later)

theorem unfolded (sound : f.Sound) (body ends : List ItemId) (count : Int) (time scaling : Fraction)
    (steps : ∀ g, f.Grows g → g.Sound → ∀ id time scaling, Lasts g (step id time scaling)) :
    Lasts f (unfolded step body ends count time scaling) := by
  rw [unfolded_eq]
  refine .bind sound (.inTurn sound body 0 scaling steps) fun length g grown after => ?_
  exact .allPasses after ends count time scaling length fun h later => steps h (grown.trans later)

theorem repetition (sound : f.Sound) (unfoldRepeats : Bool) (doc : Document) (id : ItemId)
    (time scaling : Fraction)
    (steps : ∀ g, f.Grows g → g.Sound → ∀ id time scaling, Lasts g (step id time scaling)) :
    Lasts f (repetition unfoldRepeats step doc id time scaling) := by
  unfold Timing.repetition
  split
  split
  · exact .inTurn sound _ time scaling steps
  · exact .unfolded sound _ _ _ time scaling steps

theorem expression (sound : f.Sound) (unfoldRepeats : Bool) (doc : Document) (id : ItemId)
    (time scaling : Fraction)
    (steps : ∀ g, f.Grows g → g.Sound → ∀ id time scaling, Lasts g (step id time scaling)) :
    Lasts f (expression unfoldRepeats step doc id time scaling) := by
  unfold Timing.expression
  dsimp only
  split
  · exact .together sound _ time scaling steps
  · exact .together sound _ time scaling steps
  · exact .inTurn sound _ time scaling steps
  · refine .bind sound (.multiply f scaling _) fun own g grown after => ?_
    exact .inTurn after _ time own fun h later => steps h (grown.trans later)
  · exact .inTurn sound _ time 0 steps
  · exact .repetition sound unfoldRepeats doc id time scaling steps
  · exact .inTurn sound _ time scaling steps

end Walk

end Lasts

theorem walk_lasts (unfoldRepeats : Bool) (n references : Nat) {f : Family} (sound : f.Sound)
    {d : DocumentId} (there : d < f.documents.size) (id : ItemId) (time scaling : Fraction) :
    Lasts f (Timing.walk unfoldRepeats n references d id time scaling) := by
  induction n generalizing references f d id time scaling with
  | zero => exact .pure f time
  | succ n ih =>
    refine .get sound (fun g grown => by rw [grown.documents d there]) ?_
    dsimp only
    split
    · split
      · exact .addScaled f time _ scaling
      · exact .marked f _
    · split
      · cases references with
        | zero => exact .pure f time
        | succ references =>
          refine .lift_bind sound (variableValue_lasting sound there id) fun found g _ after inside => ?_
          cases found with
          | none => exact .pure g time
          | some value => exact ih references after (inside value rfl) _ time scaling
      · split
        · refine .expression sound unfoldRepeats _ id time scaling fun g grown after id time scaling => ?_
          exact ih references after (Nat.lt_of_lt_of_le there grown.size) id time scaling
        · exact .pure f time

end Family

end ScoreText
