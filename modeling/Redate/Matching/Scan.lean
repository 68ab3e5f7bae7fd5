/-
The dates of a text from left to right. At each position the first decomposition is taken if it
takes any text, and the search goes on behind it; otherwise one character is passed over. The main
statement says that the segments found this way spell the text. Occurrences are also laid out as
matches, which are byte spans.
-/
import Redate.Matching.First
import Redate.Text.Bytes

namespace Redate

/-! ## Segments -/

/-- A place where a format is found: the byte at which it starts, and one part for each token. -/
structure Occurrence where
  start : Nat
  parts : List Part
  deriving DecidableEq, Repr

namespace Occurrence

/-- The text that is found. -/
def text (o : Occurrence) : List Char :=
  o.parts.flatMap Part.text

/-- Where the text is found. -/
def span (o : Occurrence) : Span :=
  ⟨o.start, o.start + byteLength o.text⟩

/-- The texts of the fields of a date, in the order of the format. -/
def fields (o : Occurrence) : List (Slot × List Char) :=
  o.parts.filterMap fun p => (p.token.tag?.bind Tag.slot?).map fun s => (s, p.text)

end Occurrence

/-- A piece of a text that is searched: a character passed over, or what was found. -/
inductive Segment
  | plain (c : Char)
  | found (o : Occurrence)
  deriving DecidableEq, Repr

/-- The text of a segment. -/
def Segment.text : Segment → List Char
  | plain c => [c]
  | found o => o.text

/-- The segments of a text that starts at byte `start`. -/
def scan (tokens : List Token) (start : Nat) (text : List Char) : List Segment :=
  match text with
  | [] => []
  | c :: rest =>
    match _h : firstDecomposition tokens (c :: rest) with
    | some d =>
      if _ht : d.text = [] then .plain c :: scan tokens (start + c.utf8Size) rest
      else .found ⟨start, d.parts⟩ :: scan tokens (start + byteLength d.text) d.rest
    | none => .plain c :: scan tokens (start + c.utf8Size) rest
termination_by text.length
decreasing_by
  · simp
  · rw [← append_of_firstDecomposition _h, List.length_append]
    exact Nat.lt_add_of_pos_left (List.length_pos_iff.2 _ht)
  · simp

theorem flatMap_text_scan (tokens : List Token) (start : Nat) (text : List Char) :
    (scan tokens start text).flatMap Segment.text = text := by
  fun_induction scan tokens start text with
  | case1 => rfl
  | case2 start c rest d h ht ih => simp [Segment.text, ih]
  | case3 start c rest d h ht ih =>
    rw [List.flatMap_cons, ih]
    exact append_of_firstDecomposition h
  | case4 start c rest h ih => simp [Segment.text, ih]

/-! ## Matches -/

/-- An occurrence as byte spans of its text: the whole, and one group for each tag of the format.
An ordinal that is left out has no span. -/
structure Match where
  span : Span
  groups : List (Option Span)
  deriving DecidableEq, Repr

/-- The groups of parts that stand one after the other from byte `start`. -/
def groupSpans (start : Nat) : List Part → List (Option Span)
  | [] => []
  | p :: ps =>
    let stop := start + byteLength p.text
    match p.token with
    | .tag _ => p.taken.map (fun _ => ⟨start, stop⟩) :: groupSpans stop ps
    | .literal _ => groupSpans stop ps

/-- The occurrence as byte spans. -/
def Occurrence.toMatch (o : Occurrence) : Match :=
  ⟨o.span, groupSpans o.start o.parts⟩

/-- The matches of a format in a text, left to right. -/
def findMatches (tokens : List Token) (text : List Char) : List Match :=
  (scan tokens 0 text).filterMap fun
    | .plain _ => none
    | .found o => some o.toMatch

end Redate
