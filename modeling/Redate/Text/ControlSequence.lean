/-
Control sequences: characters that steer a terminal and are not shown by it. `visible` is what is
left of a text when they are taken out. Main statements: only characters that can be shown are
left, and a text of such characters is left as it is.
-/

namespace Redate

/-- The white space among the control characters. -/
def isSpacing (c : Char) : Bool :=
  c = '\t' ∨ c = '\n' ∨ c = '\x0c' ∨ c = '\r'

/-- The characters from the space to the tilde. -/
def isGraphic (c : Char) : Bool :=
  ' ' ≤ c ∧ c ≤ '~'

/-- The characters that show something, or are white space: all but the control characters. Those
outside of ASCII are all taken to do so. -/
def isShown (c : Char) : Bool :=
  isGraphic c || isSpacing c || '\x7f' < c

/-- The kinds of control sequence, by what may follow. Each starts with an escape character. -/
inductive ControlSequence
  | escape
  /-- An escape with intermediate characters, up to a final one. -/
  | designation
  /-- Opened by `[`: parameters, up to a letter. -/
  | command
  /-- Opened by `]`: a text up to a bell. -/
  | systemCommand
  /-- Opened by `P`: before, in and behind the parameters of a string for a device. -/
  | deviceControl
  | deviceParameters
  | deviceIntermediates
  /-- A string without a last character of its own, up to a terminator. -/
  | string
  deriving DecidableEq, Repr

namespace ControlSequence

/-- How a sequence goes on after a graphic character, if that does not end it. -/
def next? (s : ControlSequence) (c : Char) : Option ControlSequence :=
  match s with
  | escape =>
    if c ≤ '/' then some designation
    else if c = '[' then some command
    else if c = ']' then some systemCommand
    else if c = 'P' then some deviceControl
    else if c = 'X' ∨ c = '^' ∨ c = '_' then some string
    else none
  | designation => if c ≤ '/' then some designation else none
  | command => if c < '@' then some command else none
  | systemCommand => some systemCommand
  | deviceControl =>
    if c ≤ '/' then some deviceIntermediates
    else if c < '@' then some deviceParameters
    else some string
  | deviceParameters =>
    if c ≤ '/' then some deviceIntermediates
    else if c < '<' then some deviceParameters
    else some string
  | deviceIntermediates => if c ≤ '/' then some deviceIntermediates else some string
  | string => some string

/-- Whether white space is shown in the middle of the sequence. -/
def showsSpacing : ControlSequence → Bool
  | escape | designation | command => true
  | systemCommand | deviceControl | deviceParameters | deviceIntermediates | string => false

/-- Whether a character that is not graphic ends the sequence: a bell ends a system command, and the
terminator of a string is a byte, wherever in the encoding of a character it stands. -/
def isEndedBy (s : ControlSequence) (c : Char) : Bool :=
  match s with
  | systemCommand => c = '\x07'
  | string => 0x9c ∈ String.utf8EncodeChar c
  | _ => false

end ControlSequence

/-- Where a text goes to. It decides what white space inside a sequence means: the end of the
sequence in a text that is handed on, an interruption in a stream. -/
inductive Medium
  | text
  | stream
  deriving DecidableEq, Repr

/-- Where a reader of a text stands. -/
inductive Reading
  | plain
  | within (s : ControlSequence)
  /-- In shown text, after white space inside a sequence that is not over. -/
  | interrupted (s : ControlSequence)
  deriving DecidableEq, Repr

/-- The reader after a character that does not end every sequence, and whether it is shown. -/
def Reading.step (m : Medium) (r : Reading) (c : Char) : Reading × Bool :=
  match r with
  | plain => (plain, isShown c)
  | interrupted s =>
    if '\x7f' < c then (plain, true)
    else if isShown c then (interrupted s, true)
    else (within s, false)
  | within s =>
    if isSpacing c ∧ s.showsSpacing then
      (match m with
        | .text => plain
        | .stream => interrupted s, true)
    else if isGraphic c then (((s.next? c).map within).getD plain, false)
    else if s.isEndedBy c then (plain, false)
    else (within s, false)

/-- The reader after any character: an escape starts a sequence anew wherever it stands, and the
characters for a cancel and a substitute end one. -/
def Reading.next (m : Medium) (r : Reading) (c : Char) : Reading × Bool :=
  if c = '\x1b' then (within .escape, false)
  else if c = '\x18' ∨ c = '\x1a' then (plain, false)
  else r.step m c

/-- What a reader sees of a text, behind what it has seen before. -/
def visibleAfter (m : Medium) (seen : List Char) : Reading → List Char → List Char
  | _, [] => seen.reverse
  | r, c :: cs =>
    match r.next m c with
    | (r, true) => visibleAfter m (c :: seen) r cs
    | (r, false) => visibleAfter m seen r cs

/-- A text without its control sequences and control characters. -/
def visible (m : Medium) (text : String) : String :=
  String.ofList (visibleAfter m [] .plain text.toList)

/-! ## What is left -/

theorem isShown_of_next {m : Medium} {r r' : Reading} {c : Char} (h : r.next m c = (r', true)) :
    isShown c = true := by
  unfold Reading.next at h
  split at h
  · cases h
  · split at h
    · cases h
    · unfold Reading.step at h
      split at h
      · simp_all
      · split at h
        · simp_all [isShown]
        · split at h <;> simp_all
      · split at h
        · simp_all [isShown]
        · split at h
          · simp at h
          · split at h <;> simp at h

theorem isShown_of_mem_visibleAfter {m : Medium} {seen cs : List Char} {r : Reading}
    (hs : ∀ c ∈ seen, isShown c = true) :
    ∀ c ∈ visibleAfter m seen r cs, isShown c = true := by
  fun_induction visibleAfter m seen r cs with
  | case1 => simpa using hs
  | case2 seen r c cs r' h ih =>
    refine ih fun d hd => ?_
    rcases List.mem_cons.1 hd with rfl | hd
    · exact isShown_of_next h
    · exact hs d hd
  | case3 _ _ _ _ _ _ ih => exact ih hs

theorem next_plain_of_isShown {m : Medium} {c : Char} (h : isShown c = true) :
    Reading.next m .plain c = (.plain, true) := by
  have hc : c ≠ '\x1b' ∧ ¬ (c = '\x18' ∨ c = '\x1a') := by
    refine ⟨?_, ?_⟩
    · rintro rfl; exact absurd h (by decide)
    · rintro (rfl | rfl) <;> exact absurd h (by decide)
  simp [Reading.next, Reading.step, hc.1, hc.2, h]

/-- Characters that can be shown are all left. -/
theorem visibleAfter_plain {m : Medium} {seen cs : List Char} (h : ∀ c ∈ cs, isShown c = true) :
    visibleAfter m seen .plain cs = seen.reverse ++ cs := by
  induction cs generalizing seen with
  | nil => simp [visibleAfter]
  | cons c cs ih =>
    rw [visibleAfter, next_plain_of_isShown (h c (by simp))]
    simp [ih fun d hd => h d (by simp [hd])]

theorem visible_eq_self {m : Medium} {text : String} (h : ∀ c ∈ text.toList, isShown c = true) :
    visible m text = text := by
  simp [visible, visibleAfter_plain h]

end Redate
