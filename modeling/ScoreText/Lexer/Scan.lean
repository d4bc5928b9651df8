import ScoreText.Lexer.Matcher
import ScoreText.Lexer.State
/-!
Scanning a text into tokens.

Text between two tokens that the region on top claims is filler of the region's kind. Each token
changes the open regions just before it is handed out. Regions that yield end in front of text
that they do not claim, but stay open at the end of the text, so that what they wait for may come on
the next line.

A scanner looks ahead: a token behind filler is found together with the filler and waits until the
filler has been handed out.
-/
namespace ScoreText

structure Token where
  kind : TokenKind
  start : Nat
  text : String
  deriving DecidableEq, Repr

namespace Token

def stop (t : Token) : Nat :=
  t.start + t.text.utf8ByteSize

/-- The token in a text that stands behind the given number of bytes. -/
def shift (t : Token) (offset : Nat) : Token :=
  { t with start := offset + t.start }

end Token

def byteSize : List Char → Nat
  | [] => 0
  | c :: cs => c.utf8Size + byteSize cs

@[simp] theorem byteSize_append (xs ys : List Char) :
    byteSize (xs ++ ys) = byteSize xs + byteSize ys := by
  induction xs with
  | nil => exact (Nat.zero_add _).symm
  | cons c xs ih =>
    rw [List.cons_append, byteSize, byteSize, ih]
    omega

/-- The place of a byte offset in a text: the character before it, the offset and the text from
there on. An offset within a character stands for the end of that character. -/
def seek (before : Option Char) (pos : Nat) (target : Nat) :
    List Char → Option Char × Nat × List Char
  | [] => (before, pos, [])
  | c :: cs =>
    if target ≤ pos then (before, pos, c :: cs)
    else seek (some c) (pos + c.utf8Size) target cs

def State.settleAt (s : State) (before : Option Char) (cs : List Char) : State :=
  s.settle fun r => (r.matchAt? before cs).isSome

theorem State.settleAt_eq (s : State) (before : Option Char) (cs : List Char) :
    s.settleAt before cs = s.settle fun r => (r.at? before cs).isSome := by
  simp only [settleAt, Region.matchAt_eq]

structure Scanner where
  state : State
  /-- the character in front of the place that is reached -/
  before : Option Char
  offset : Nat
  rest : List Char
  /-- tokens that are found and not handed out yet -/
  pending : List Token
  finished : Bool

namespace Scanner

def ofText (s : State) (text : String) (start : Nat) : Scanner :=
  let (before, offset, rest) := seek none 0 start text.toList
  ⟨s, before, offset, rest, [], false⟩

def queue (sc : Scanner) (k : TokenKind) (front rest : List Char) : Scanner :=
  { sc with
    before := front.getLast?.or sc.before
    offset := sc.offset + byteSize front
    rest
    pending := sc.pending ++ [⟨k, sc.offset, String.ofList front⟩] }

def emit (sc : Scanner) (t : Token) : Option Token × Scanner :=
  (some t, { sc with state := sc.state.apply t.kind t.text.toList })

def emitPending (sc : Scanner) : Option Token × Scanner :=
  match sc.pending with
  | [] => (none, sc)
  | t :: ts => { sc with pending := ts }.emit t

/-- Leaves the regions that yield to what comes next. At the end of the text none does. -/
def settle (sc : Scanner) : Scanner :=
  if sc.rest.isEmpty then sc else { sc with state := sc.state.settleAt sc.before sc.rest }

/-- What the region on top finds, with the text left out in front. A region that yields finds
only what stands at the place. -/
def find? (sc : Scanner) : Option (List Char × Found) :=
  let r := sc.state.top.region
  if r.yields then (r.matchAt? sc.before sc.rest).map ([], ·) else r.seek? sc.before sc.rest

theorem find_eq (sc : Scanner) :
    sc.find? = if sc.state.top.region.yields then
      (sc.state.top.region.at? sc.before sc.rest).map ([], ·)
    else sc.state.top.region.search sc.before sc.rest := by
  simp only [find?, Region.matchAt_eq, Region.seek_eq]

/-- Queues the filler in front of a find. Regions that yield have none. -/
def queueFiller (sc : Scanner) (skipped rest : List Char) : Scanner :=
  match sc.state.top.region.rule.unclaimed with
  | .fill k => if skipped.isEmpty then sc else sc.queue k skipped rest
  | _ => sc

def queueError (sc : Scanner) : Scanner :=
  match sc.rest with
  | [] => { sc with finished := true }
  | c :: cs => sc.queue .error [c] cs

/-- Queues what was found behind the filler in front of it. A token without text is followed by
an error, so that the scan goes on. -/
def queueFound (sc : Scanner) (skipped : List Char) (found : Found) : Scanner :=
  let filled := sc.queueFiller skipped (found.lexeme ++ found.rest)
  let queued := filled.queue found.kind found.lexeme found.rest
  if found.lexeme.isEmpty then queued.queueError else queued

/-- Hands out all that remains as filler, if anything remains and the region on top has filler. -/
def finish (sc : Scanner) : Option Token × Scanner :=
  let sc := { sc with finished := true }
  match sc.state.top.region.rule.unclaimed with
  | .fill k => if sc.rest.isEmpty then (none, sc) else (sc.queue k sc.rest []).emitPending
  | _ => (none, sc)

def next (sc : Scanner) : Option Token × Scanner :=
  if !sc.pending.isEmpty then sc.emitPending
  else if sc.finished then (none, sc)
  else
    let sc := sc.settle
    match sc.find? with
    | some (skipped, found) => (sc.queueFound skipped found).emitPending
    | none => sc.finish

/-- Takes at most the given number of tokens, each with the state after it. -/
def pull (sc : Scanner) : Nat → List (Token × State) × Scanner
  | 0 => ([], sc)
  | n + 1 =>
    match sc.next with
    | (none, sc) => ([], sc)
    | (some t, sc) =>
      let (ts, last) := sc.pull n
      ((t, sc.state) :: ts, last)

/-- A bound for the number of tokens that are still handed out. -/
def work (sc : Scanner) : Nat :=
  sc.pending.length + 3 * (sc.rest.length + (!sc.finished).toNat)

theorem work_emitPending {sc after : Scanner} {t : Token}
    (h : sc.emitPending = (some t, after)) : after.work < sc.work := by
  unfold emitPending at h
  split at h
  · cases h
  · rename_i u us pending
    cases h
    simp only [work, pending, List.length_cons]
    omega

theorem find_split {sc : Scanner} {skipped : List Char} {found : Found}
    (h : sc.find? = some (skipped, found)) :
    skipped ++ (found.lexeme ++ found.rest) = sc.rest := by
  rw [find_eq] at h
  split at h
  · obtain ⟨hit, ha, same⟩ := Option.map_eq_some_iff.mp h
    cases same
    exact Region.at_split ha
  · exact Region.search_split h

theorem queueFiller_pending (sc : Scanner) (skipped rest : List Char) :
    (sc.queueFiller skipped rest).pending.length ≤ sc.pending.length + skipped.length := by
  unfold queueFiller
  split
  · split
    · omega
    · rename_i some_text
      have positive : 0 < skipped.length := by
        cases skipped with
        | nil => exact absurd rfl some_text
        | cons c cs => exact Nat.succ_pos _
      simp only [queue, List.length_append, List.length_singleton]
      omega
  · omega

theorem queueFiller_finished (sc : Scanner) (skipped rest : List Char) :
    (sc.queueFiller skipped rest).finished = sc.finished := by
  unfold queueFiller
  split
  · split <;> rfl
  · rfl

/-- What a find queues is made up for by the text that it moves over, or by the end of the scan. -/
theorem work_queueFound {sc : Scanner} {skipped : List Char} {found : Found}
    (ongoing : sc.finished = false)
    (split_ : skipped ++ (found.lexeme ++ found.rest) = sc.rest) :
    (sc.queueFound skipped found).work ≤ sc.work := by
  have size := congrArg List.length split_
  simp only [List.length_append] at size
  have filler := queueFiller_pending sc skipped (found.lexeme ++ found.rest)
  have finished := queueFiller_finished sc skipped (found.lexeme ++ found.rest)
  unfold queueFound
  generalize sc.queueFiller skipped (found.lexeme ++ found.rest) = filled at filler finished
  have total : (!sc.finished).toNat = 1 := by rw [ongoing]; rfl
  split
  · cases rest : found.rest with
    | nil =>
      simp only [queueError, queue, work, List.length_append, List.length_cons, List.length_nil,
        Bool.not_true, Bool.toNat_false]
      omega
    | cons c cs =>
      rw [rest, List.length_cons] at size
      simp only [queueError, queue, work, finished, List.length_append, List.length_cons,
        List.length_nil]
      omega
  · rename_i some_text
    have positive : 0 < found.lexeme.length := by
      cases lexeme : found.lexeme with
      | nil => simp [lexeme] at some_text
      | cons c cs => exact Nat.succ_pos _
    simp only [queue, work, finished, List.length_append, List.length_cons, List.length_nil]
    omega

theorem work_settle (sc : Scanner) : sc.settle.work = sc.work := by
  unfold settle
  split <;> rfl

theorem work_finish {sc after : Scanner} {t : Token} (ongoing : sc.finished = false)
    (h : sc.finish = (some t, after)) : after.work < sc.work := by
  simp only [finish] at h
  split at h
  · split at h
    · cases h
    · have less := work_emitPending h
      simp only [work, queue, ongoing, List.length_append, List.length_cons, List.length_nil,
        Bool.not_true, Bool.not_false, Bool.toNat_false, Bool.toNat_true] at less ⊢
      omega
  · cases h

theorem work_next {sc after : Scanner} {t : Token} (h : sc.next = (some t, after)) :
    after.work < sc.work := by
  unfold next at h
  split at h
  · exact work_emitPending h
  · split at h
    · cases h
    · rename_i ongoing
      have same : sc.settle.finished = false := by
        unfold settle
        split <;> simpa using ongoing
      rw [← work_settle sc]
      generalize sc.settle = settled at h same
      simp only at h
      split at h
      · rename_i skipped found hit
        exact Nat.lt_of_lt_of_le (work_emitPending h) (work_queueFound same (find_split hit))
      · exact work_finish same h

/-- Takes all tokens, each with the state after it, until nothing more comes. -/
def drain (sc : Scanner) : List (Token × State) × Scanner :=
  match _h : sc.next with
  | (none, sc) => ([], sc)
  | (some t, sc) =>
    let (ts, last) := sc.drain
    ((t, sc.state) :: ts, last)
  termination_by sc.work
  decreasing_by exact work_next ‹_›

theorem drain_none {sc after : Scanner} (h : sc.next = (none, after)) :
    sc.drain = ([], after) := by
  rw [drain]
  split
  · rename_i same
    cases h.symm.trans same
    rfl
  · rename_i same
    cases h.symm.trans same

theorem drain_some {sc after : Scanner} {t : Token} (h : sc.next = (some t, after)) :
    sc.drain = ((t, after.state) :: after.drain.1, after.drain.2) := by
  rw [drain]
  split
  · rename_i same
    cases h.symm.trans same
  · rename_i same
    cases h.symm.trans same
    rfl

end Scanner

namespace State

/-- The tokens of a text from a byte offset on, each with the state after it. -/
def scan (s : State) (text : String) (start : Nat) : List (Token × State) :=
  (Scanner.ofText s text start).drain.1

/-- The state after all tokens of a scan. -/
def afterScan (s : State) (scanned : List (Token × State)) : State :=
  (scanned.getLast?.map (·.2)).getD s

end State

/-- The lines of a text, each with its line end. -/
def lines : List Char → List (List Char)
  | [] => []
  | c :: cs =>
    if c == '\n' then [c] :: lines cs
    else match lines cs with
      | [] => [[c]]
      | l :: ls => (c :: l) :: ls

/-- The tokens of lines that are scanned one after the other, and the state after them. -/
def scanLines (s : State) (offset : Nat) : List (List Char) → List Token × State
  | [] => ([], s)
  | l :: ls =>
    let (scanned, last) := (Scanner.ofText s (String.ofList l) 0).drain
    let (later, s) := scanLines last.state (offset + byteSize l) ls
    (scanned.map (·.1.shift offset) ++ later, s)

/-- The tokens of a text in a mode. Each line is scanned on its own, as an editor does, and the open
regions are carried from line to line. -/
def tokenize (mode : Mode) (text : String) : List Token :=
  (scanLines (.ofMode mode) 0 (lines text.toList)).1

end ScoreText
