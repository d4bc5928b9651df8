import Mathlib.Data.List.Chain
import ScoreText.Proofs.LineRegions

/-! White space and the open regions. Only one region takes notice of white space: the pitches of a
command end at white space once they are complete. So they must stand on a region that reads white
space and is not changed by it, which keeps reading when white space goes on in the next line. Such a
region is the host of what is entered on it, and every step keeps the hosts. -/
namespace ScoreText

open Text (isBlank)

/-- White space is read and changes nothing. -/
def Region.hosts (r : Region) : Bool :=
  r.rule.candidates.contains .space && r != .lily .pitchCommand

/-- What may stand on what. -/
def Hosted (above below : Region) : Prop :=
  above = .lily .pitchCommand → below.hosts = true

/-- The open regions without their arguments, the top one in front. -/
def State.regions (s : State) : List Region :=
  s.stack.map (·.region)

/-- The open regions can be read line by line, and each stands on its host. -/
structure Nested (rs : List Region) : Prop where
  linewise : ∀ r ∈ rs, r.linewise = true
  hosted : rs.IsChain Hosted

namespace Nested

variable {rs others : List Region} {r top : Region}

theorem suffix (nested : Nested rs) (h : others <:+ rs) : Nested others where
  linewise := fun r hr => nested.linewise r (h.mem hr)
  hosted := nested.hosted.suffix h

theorem enter (nested : Nested (top :: rs)) (linewise : r.linewise = true)
    (hosted : Hosted r top) : Nested (r :: top :: rs) where
  linewise := List.forall_mem_cons.mpr ⟨linewise, nested.linewise⟩
  hosted := nested.hosted.cons_cons hosted

theorem replace (nested : Nested (top :: rs)) (linewise : r.linewise = true)
    (other : r ≠ .lily .pitchCommand) : Nested (r :: rs) where
  linewise := List.forall_mem_cons.mpr ⟨linewise, fun r hr =>
    nested.linewise r (List.mem_cons_of_mem top hr)⟩
  hosted := nested.hosted.tail.cons fun _ _ same => absurd same other

end Nested

/-- The region that an action opens. -/
def Action.opens : Action → Option Region
  | .enter r | .enterAwaiting r _ | .replace r => some r
  | .stay | .argument | .spend | .leave | .leaveThenArgument | .closeMarkup => none

/-- An action that opens only what may stand where it is opened. -/
def Action.Fits (top : Region) (a : Action) : Prop :=
  ∀ r ∈ a.opens, r.linewise = true ∧
    (r ≠ .lily .pitchCommand ∨ (∃ n, a = .enterAwaiting r n) ∧ top.hosts = true)

theorem Lily.action_opens {k : Lily.Kind} {text : List Char} {a : Action}
    (h : k.action? text = some a) :
    ∀ r ∈ a.opens, r.linewise = true ∧
      (r ≠ .lily .pitchCommand ∨ k = .pitchCommand ∧ ∃ n, a = .enterAwaiting r n) := by
  intro r opened
  cases k with
  | markupCommand =>
    simp only [Kind.action?] at h
    split at h <;> cases h <;> cases opened <;> exact ⟨rfl, .inl (by decide)⟩
  | pitchCommand =>
    cases h
    cases opened
    exact ⟨rfl, .inr ⟨rfl, _, rfl⟩⟩
  | _ => cases h <;> cases opened <;> exact ⟨rfl, .inl (by decide)⟩

theorem TokenKind.action_opens {k : TokenKind} {text : List Char} {a : Action}
    (linewise : k.linewise = true) (h : k.action? text = some a) :
    ∀ r ∈ a.opens, r.linewise = true ∧
      (r ≠ .lily .pitchCommand ∨ k = .lily .pitchCommand ∧ ∃ n, a = .enterAwaiting r n) := by
  intro r opened
  cases k with
  | unparsed | space | error => cases h
  | lily k =>
    obtain ⟨fits, other | ⟨rfl, awaiting⟩⟩ := Lily.action_opens h r opened
    · exact ⟨fits, .inl other⟩
    · exact ⟨fits, .inr ⟨rfl, awaiting⟩⟩
  | scheme k => cases k <;> cases h <;> cases opened <;> exact ⟨rfl, .inl (by decide)⟩
  | html k => cases k <;> cases h <;> cases opened <;> exact ⟨rfl, .inl (by decide)⟩
  | latex k | texinfo k | docBook k => cases linewise

theorem Region.react_opens {top : Region} (linewise : top.linewise = true) (arguments : Nat)
    (k : TokenKind) (text : List Char) :
    ∀ r ∈ (top.react arguments k text).opens, r.linewise = true ∧ r ≠ .lily .pitchCommand := by
  intro r opened
  cases top with
  | lily top =>
    revert opened
    cases top <;> simp only [Region.react, Lily.Region.react, Lily.Region.opened?] <;>
      (repeat' split) <;> intro opened <;> cases opened <;> exact ⟨rfl, by decide⟩
  | scheme top | html top => cases opened
  | latex top | texinfo top | docBook top => cases linewise

/-- The commands with pitches are listed only where white space is read. -/
theorem Region.pitches_hosted {top : Region}
    (listed : .lily .pitchCommand ∈ top.rule.candidates) : top.hosts = true := by
  have all : (top.rule.candidates.contains (.lily .pitchCommand) → top.hosts) := by
    cases top with
    | lily top => cases top <;> decide
    | scheme top => cases top <;> decide
    | html top => cases top <;> decide
    | latex top => cases top <;> decide
    | texinfo top => cases top <;> decide
    | docBook top => cases top <;> decide
  exact all (List.contains_iff_mem.mpr listed)

theorem Region.replacing {top r : Region} (linewise : top.linewise = true)
    (h : top.rule.unclaimed = .replace r) : r.linewise = true ∧ r ≠ .lily .pitchCommand := by
  cases top with
  | lily top =>
    cases top <;> cases h
    exact ⟨rfl, by decide⟩
  | scheme top => cases top <;> cases h
  | html top => cases top <;> cases h
  | latex top | texinfo top | docBook top => cases linewise

namespace State

variable {s : State}

theorem regions_top (s : State) : ∃ below, s.regions = s.top.region :: below := by
  obtain ⟨inner, bottom⟩ := s
  cases inner with
  | nil => exact ⟨[], rfl⟩
  | cons f rest => exact ⟨_, rfl⟩

theorem action_fits (nested : Nested s.regions) {k : TokenKind}
    (listed : k ∈ s.top.region.rule.candidates) (text : List Char) :
    (s.action k text).Fits s.top.region := by
  obtain ⟨below, regions⟩ := s.regions_top
  have top : s.top.region.linewise = true := nested.linewise _ (by simp [regions])
  intro r opened
  unfold action at opened ⊢
  cases own : k.action? text with
  | none =>
    rw [own] at opened
    have reacts := Region.react_opens top _ _ _ r opened
    exact ⟨reacts.1, .inl reacts.2⟩
  | some a =>
    rw [own] at opened
    have linewise := Region.listed_linewise top k listed
    obtain ⟨fits, other | ⟨rfl, awaiting⟩⟩ := TokenKind.action_opens linewise own r opened
    · exact ⟨fits, .inl other⟩
    · exact ⟨fits, .inr ⟨awaiting, Region.pitches_hosted listed⟩⟩

theorem regions_inner (inner : List Frame) (bottom : Frame) :
    (⟨inner, bottom⟩ : State).regions = inner.map (·.region) ++ [bottom.region] := by
  simp [regions, stack]

theorem regions_suffix {fs gs : List Frame} (h : fs.map (·.region) <:+ gs.map (·.region))
    (bottom : Frame) : (⟨fs, bottom⟩ : State).regions <:+ (⟨gs, bottom⟩ : State).regions := by
  rw [regions_inner, regions_inner]
  obtain ⟨front, whole⟩ := h
  exact ⟨front, by rw [← whole, List.append_assoc]⟩

theorem leave_suffix (s : State) : s.leave.regions <:+ s.regions :=
  regions_suffix ((List.tail_suffix s.inner).map _) s.bottom

theorem argument_suffix (s : State) : s.completeArgument.regions <:+ s.regions := by
  apply regions_suffix
  induction s.inner with
  | nil => exact List.suffix_refl _
  | cons f rest ih =>
    unfold completeArgument.go
    split
    · exact List.suffix_refl _
    · exact ih.trans (List.suffix_cons _ _)
    · exact List.suffix_refl _

theorem closeMarkup_suffix (s : State) : s.closeMarkup.regions <:+ s.regions := by
  apply (argument_suffix _).trans
  apply (leave_suffix _).trans
  exact regions_suffix ((List.dropWhile_suffix _).map _) s.bottom

theorem setTop_regions (s : State) (f : Frame) :
    (s.setTop f).regions = f.region :: s.regions.tail := by
  obtain ⟨inner, bottom⟩ := s
  cases inner <;> rfl

theorem perform_nested (nested : Nested s.regions) {a : Action} (fits : a.Fits s.top.region) :
    Nested (s.perform a).regions := by
  obtain ⟨below, regions⟩ := s.regions_top
  cases a with
  | stay => exact nested
  | argument => exact nested.suffix s.argument_suffix
  | spend =>
    rw [perform, setTop_regions, regions]
    rw [regions] at nested
    exact nested
  | leave => exact nested.suffix s.leave_suffix
  | enter r =>
    obtain ⟨linewise, other | ⟨⟨n, awaiting⟩, _⟩⟩ := fits r rfl
    · rw [regions] at nested
      have entered := nested.enter linewise (fun same => absurd same other)
      rw [← regions] at entered
      exact entered
    · cases awaiting
  | enterAwaiting r n =>
    obtain ⟨linewise, hosted⟩ := fits r rfl
    rw [regions] at nested
    have entered := nested.enter linewise (fun same => hosted.elim (absurd same) (·.2))
    rw [← regions] at entered
    exact entered
  | replace r =>
    obtain ⟨linewise, other | ⟨⟨n, awaiting⟩, _⟩⟩ := fits r rfl
    · rw [perform, State.replace, setTop_regions, regions]
      rw [regions] at nested
      exact nested.replace linewise other
    · cases awaiting
  | leaveThenArgument => exact nested.suffix ((argument_suffix _).trans s.leave_suffix)
  | closeMarkup => exact nested.suffix s.closeMarkup_suffix

theorem settleFrames_cases (claims : Region → Bool) (frames : List Frame) :
    settleFrames claims frames <:+ frames ∨
      ∃ f rest r, f :: rest <:+ frames ∧ f.region.rule.unclaimed = .replace r ∧
        settleFrames claims frames = .fresh r :: rest := by
  induction frames with
  | nil => exact .inl (List.suffix_refl _)
  | cons f frames ih =>
    have later : settleFrames claims frames <:+ f :: frames ∨
        ∃ g rest r, g :: rest <:+ f :: frames ∧ g.region.rule.unclaimed = .replace r ∧
          settleFrames claims frames = .fresh r :: rest := by
      rcases ih with whole | ⟨g, rest, r, inside, rule, replaced⟩
      · exact .inl (whole.trans (List.suffix_cons _ _))
      · exact .inr ⟨g, rest, r, inside.trans (List.suffix_cons _ _), rule, replaced⟩
    simp only [settleFrames]
    split
    · exact .inl (List.suffix_refl _)
    · split
      · exact .inl (List.suffix_refl _)
      · exact later
    · rename_i r rule
      split
      · exact .inl (List.suffix_refl _)
      · split
        · exact .inr ⟨f, frames, r, List.suffix_refl _, rule, rfl⟩
        · exact later

theorem settleFrames_congr {claims others : Region → Bool} {frames : List Frame}
    (linewise : ∀ f ∈ frames, f.region.linewise = true)
    (same : ∀ r, r.linewise = true → claims r = others r) :
    settleFrames claims frames = settleFrames others frames := by
  induction frames with
  | nil => rfl
  | cons f frames ih =>
    have top := linewise f List.mem_cons_self
    have later := ih fun g hg => linewise g (List.mem_cons_of_mem f hg)
    simp only [settleFrames, same _ top, later]
    split
    · rfl
    · rfl
    · rename_i r rule
      rw [same r (Region.replacing top rule).1]

theorem settle_nested (rooted : s.Rooted) (nested : Nested s.regions) (claims : Region → Bool) :
    Nested (s.settle claims).regions := by
  rw [settle_rooted rooted]
  rcases settleFrames_cases claims s.inner with whole | ⟨f, rest, r, inside, rule, replaced⟩
  · exact nested.suffix (regions_suffix (whole.map _) s.bottom)
  · have part := nested.suffix (regions_suffix (inside.map _) s.bottom)
    rw [regions_inner, List.map_cons, List.cons_append] at part
    have opened := Region.replacing (part.linewise _ List.mem_cons_self) rule
    rw [replaced, regions_inner, List.map_cons, List.cons_append]
    exact part.replace opened.1 opened.2

end State
theorem blank_not_lowercase {c : Char} (blank : isBlank c = true) : Text.isLowercase c = false := by
  have all : (blanks.all fun c => !Text.isLowercase c) = true := by decide +kernel
  simpa using List.all_eq_true.mp all c (blank_listed blank)

/-- White space ends the pitches of a command that are complete, and nothing else. -/
theorem Region.react_space {top : Region} (linewise : top.linewise = true) (arguments : Nat)
    {text : List Char} (blank : ∀ c ∈ text.head?, isBlank c = true) :
    top.react arguments .space text =
      if top = .lily .pitchCommand ∧ arguments = 0 then .leave else .stay := by
  cases top with
  | lily top =>
    cases top with
    | pitchCommand => simp [react, Lily.Region.react]
    | unset =>
      cases text with
      | nil => rfl
      | cons c text =>
        have small := blank_not_lowercase (blank c rfl)
        simp [react, Lily.Region.react, small]
    | _ => rfl
  | scheme top | html top => rfl
  | latex top | texinfo top | docBook top => cases linewise

namespace State

variable {s : State}

theorem apply_space (linewise : s.top.region.linewise = true) {text : List Char}
    (blank : ∀ c ∈ text.head?, isBlank c = true) :
    s.apply .space text =
      if s.top.region = .lily .pitchCommand ∧ s.top.arguments = 0 then s.leave else s := by
  have reacts := Region.react_space linewise s.top.arguments blank
  simp only [apply, action, TokenKind.action?, Option.getD_none, reacts]
  split <;> rfl

/-- Once the pitches of a command have ended, the region that they stood on is on top. -/
theorem leave_hosts (rooted : s.Rooted) (nested : Nested s.regions)
    (pitches : s.top.region = .lily .pitchCommand) : s.leave.top.region.hosts = true := by
  obtain ⟨inner, bottom⟩ := s
  cases inner with
  | nil =>
    have solid : bottom.region.yields = false := rooted
    rw [show bottom.region = .lily .pitchCommand from pitches] at solid
    cases solid
  | cons f rest =>
    have hosted := nested.hosted
    cases rest with
    | nil => exact (List.isChain_cons_cons.mp hosted).1 pitches
    | cons g rest => exact (List.isChain_cons_cons.mp hosted).1 pitches

end State

/-- A region that lists white space finds it where the text is blank. -/
theorem Region.at_space {region : Region} (linewise : region.linewise = true)
    (listed : .space ∈ region.rule.candidates) {r : List Char} (blank : r.takeWhile isBlank ≠ [])
    (before : Option Char) :
    region.at? before r = some ⟨.space, r.takeWhile isBlank, r.dropWhile isBlank⟩ := by
  have candidates := listed_linewise linewise
  cases r with
  | nil => exact absurd rfl blank
  | cons c r =>
    by_cases first : isBlank c = true
    · simp only [at?]
      generalize region.rule.candidates = ks at candidates listed
      induction ks with
      | nil => cases listed
      | cons k ks ih =>
        rw [List.findSome?_cons]
        by_cases space : k = .space
        · subst space
          rw [TokenKind.space_at]
          simp [first]
        · rw [TokenKind.at_blank (candidates k List.mem_cons_self) space first]
          apply ih
          · exact fun k hk => candidates k (List.mem_cons_of_mem _ hk)
          · exact (List.mem_cons.mp listed).resolve_left (Ne.symm space)
    · simp [first] at blank

theorem Region.Makes.blank {region : Region} {before : Option Char} {cs text rest : List Char}
    (made : region.Makes before cs ⟨.space, text⟩ rest) : ∀ c ∈ text.head?, isBlank c = true := by
  generalize piece : (⟨.space, text⟩ : Piece) = p at made
  cases made with
  | @found found hit =>
    obtain ⟨kind, lexeme⟩ := Piece.mk.inj piece
    have stands := (at_candidate hit).2
    rw [← kind] at stands
    rw [lexeme]
    cases cs with
    | nil => cases stands
    | cons c cs =>
      rw [TokenKind.space_at] at stands
      split at stands
      · rename_i first
        cases stands
        intro d hd
        cases hd
        exact first
      · cases stands
  | remainder filler _ =>
    cases piece
    cases (filler_kind filler).1
  | skipped filler _ _ =>
    cases piece
    cases (filler_kind filler).1

/-- What is read line by line: the root stays, and every region stands on its host. -/
structure State.Linewise (s : State) : Prop where
  rooted : s.Rooted
  nested : Nested s.regions

namespace State.Linewise

variable {s : State} (sound : s.Linewise)
include sound

theorem top : s.top.region.linewise = true := by
  obtain ⟨below, regions⟩ := s.regions_top
  exact sound.nested.linewise _ (by simp [regions])

theorem settle (claims : Region → Bool) : (s.settle claims).Linewise where
  rooted := settle_keeps_root sound.rooted claims
  nested := settle_nested sound.rooted sound.nested claims

theorem settle_congr {claims others : Region → Bool}
    (same : ∀ r, r.linewise = true → claims r = others r) : s.settle claims = s.settle others := by
  have linewise : ∀ f ∈ s.inner, f.region.linewise = true := by
    intro f hf
    have member : f.region ∈ s.regions := List.mem_map_of_mem (List.mem_append_left _ hf)
    exact sound.nested.linewise _ member
  rw [settle_rooted sound.rooted, settle_rooted sound.rooted, settleFrames_congr linewise same]

/-- The regions settle in front of a line as they do in front of the whole text. -/
theorem settleAt_line {before other : Option Char} {l r : List Char} (some_text : l ≠ [])
    (line : LineEnd l r) (same : beside before = beside other) :
    s.settleAt other l = s.settleAt before (l ++ r) := by
  rw [settleAt_eq, settleAt_eq]
  apply sound.settle_congr
  intro region linewise
  exact (Region.at_continues linewise some_text line same).isSome.symm

theorem apply {before : Option Char} {cs rest : List Char} {p : Piece}
    (made : s.top.region.Makes before cs p rest) : (s.apply p.kind p.text).Linewise where
  rooted := apply_rooted sound.rooted p.kind p.text
  nested := by
    cases made with
    | found hit =>
      have listed := (Region.at_candidate hit).1
      exact perform_nested sound.nested (action_fits sound.nested listed _)
    | remainder filler _ | skipped filler _ _ =>
      rw [apply_filler filler]
      exact sound.nested

/-- White space that goes on in the next line is read on by the region that is then on top. -/
theorem blank_goes_on (listed : .space ∈ s.top.region.rule.candidates) {l : List Char}
    (some_text : l ≠ []) (blank : ∀ c ∈ l.head?, isBlank c = true) (r : List Char) :
    let t := s.apply .space l
    let x := r.takeWhile isBlank
    t.Linewise ∧ .space ∈ t.top.region.rule.candidates ∧ t.apply .space x = t ∧
      s.apply .space (l ++ x) = t := by
  have both : ∀ c ∈ (l ++ r.takeWhile isBlank).head?, isBlank c = true := by
    cases l with
    | nil => exact absurd rfl some_text
    | cons c l => exact blank
  have later : ∀ c ∈ (r.takeWhile isBlank).head?, isBlank c = true := by
    intro c hc
    exact List.mem_takeWhile_imp (List.mem_of_head? hc)
  simp only [apply_space sound.top blank, apply_space sound.top both]
  by_cases ends : s.top.region = .lily .pitchCommand ∧ s.top.arguments = 0
  · have hosts := leave_hosts sound.rooted sound.nested ends.1
    simp only [Region.hosts, Bool.and_eq_true, List.contains_iff_mem, bne_iff_ne] at hosts
    have left : s.leave.Linewise := ⟨sound.rooted, sound.nested.suffix s.leave_suffix⟩
    simp only [ends, and_self, if_true, and_true]
    refine ⟨left, hosts.1, ?_⟩
    rw [apply_space left.top later, if_neg (fun pitches => hosts.2 pitches.1)]
  · simp only [ends, if_false, and_true]
    refine ⟨sound, listed, ?_⟩
    rw [apply_space sound.top later, if_neg ends]

/-- A piece that crosses a line end does to the open regions what its two parts do, and the second
part is what the regions make of the text behind the line. -/
theorem goes_on {k : TokenKind} {other : Option Char} {l r x rest : List Char}
    (some_text : l ≠ []) (line : s.top.region.Makes other l ⟨k, l⟩ [])
    (more : s.top.region.GoesOn r ⟨k, x⟩ rest) :
    let t := s.apply k l
    t.settleAt none r = t ∧ t.top.region.Makes none r ⟨k, x⟩ rest ∧
      t.apply k x = s.apply k (l ++ x) := by
  cases more with
  | filler filler made =>
    simp only [apply_filler filler, and_true]
    exact ⟨settle_of_stays (.inl (Region.solid filler)), made⟩
  | blank listed goes_on =>
    obtain ⟨left, listed, same, whole⟩ :=
      sound.blank_goes_on listed some_text line.blank r
    have hit := Region.at_space left.top listed goes_on none
    have stays := Option.isSome_of_eq_some hit
    refine ⟨settleAt_of_stays (.inr stays), .found hit, ?_⟩
    rw [same, whole]

end State.Linewise
end ScoreText
