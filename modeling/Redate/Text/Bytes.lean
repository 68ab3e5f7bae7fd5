/-
Texts as bytes. A text is a list of characters; positions in it are counted in bytes of its UTF-8
form, and a span is a part of it between two positions. A span cuts its part out of any text; the
cut is defined where both ends lie between characters. The lemmas say that a span laid around a part
of a text cuts that part out again.
-/

namespace Redate

/-- The number of bytes a text takes in UTF-8. -/
def byteLength (text : List Char) : Nat :=
  text.foldl (fun n c => n + c.utf8Size) 0

/-- A part of a text from byte `start` up to, and not including, byte `stop`. -/
structure Span where
  start : Nat
  stop : Nat
  deriving DecidableEq, Repr

/-- The text from byte `n` on; a character that the cut would split is left out. -/
def dropBytes : Nat → List Char → List Char
  | 0, text => text
  | _ + 1, [] => []
  | n + 1, c :: text => dropBytes (n + 1 - c.utf8Size) text

/-- The text up to byte `n`: what `dropBytes` leaves out. -/
def takeBytes (n : Nat) (text : List Char) : List Char :=
  text.take (text.length - (dropBytes n text).length)

/-- The part of a text that a span covers. -/
def Span.slice (s : Span) (text : List Char) : List Char :=
  takeBytes (s.stop - s.start) (dropBytes s.start text)

/-- The span that lies `n` bytes further on. -/
def Span.shift (n : Nat) (s : Span) : Span :=
  ⟨s.start + n, s.stop + n⟩

/-! ## Cuts that are defined -/

/-- A character of the text begins at byte `n`, or the text ends there. -/
def IsBoundary (text : List Char) (n : Nat) : Prop :=
  String.Pos.Raw.IsValid (String.ofList text) ⟨n⟩

instance (text : List Char) (n : Nat) : Decidable (IsBoundary text n) :=
  inferInstanceAs (Decidable (String.Pos.Raw.IsValid _ _))

namespace Span

/-- The span begins and ends at boundaries of the text. -/
structure Cuts (s : Span) (text : List Char) : Prop where
  start_le_stop : s.start ≤ s.stop
  start : IsBoundary text s.start
  stop : IsBoundary text s.stop

instance (s : Span) (text : List Char) : Decidable (s.Cuts text) :=
  decidable_of_decidable_of_iff (p := s.start ≤ s.stop ∧ IsBoundary text s.start ∧
    IsBoundary text s.stop) ⟨fun h => ⟨h.1, h.2.1, h.2.2⟩, fun h => ⟨h.1, h.2, h.3⟩⟩

/-- The part of a text that a span covers, where the cut is defined. -/
def slice? (s : Span) (text : List Char) : Option (List Char) :=
  if s.Cuts text then some (s.slice text) else none

end Span

/-- The items of a text, each read by `next` from what the one before it left. There are none where
`next` fails, or leaves no less than it had. -/
def itemsBy? {α : Type} (next : List Char → Option (α × List Char)) (text : List Char) :
    Option (List α) :=
  match text with
  | [] => some []
  | c :: rest =>
    match next (c :: rest) with
    | some (a, behind) =>
      if _h : behind.length ≤ rest.length then (itemsBy? next behind).map (a :: ·) else none
    | none => none
termination_by text.length
decreasing_by exact Nat.lt_succ_of_le _h

/-! ## Bytes -/

/-- The bytes of a text in UTF-8. -/
def utf8 (text : List Char) : List UInt8 :=
  text.flatMap String.utf8EncodeChar

/-- The byte is an ASCII digit. -/
def isDigitByte (b : UInt8) : Bool :=
  '0'.toNat ≤ b.toNat ∧ b.toNat ≤ '9'.toNat

/-- How many of the first `most` bytes of a text are digits, up to the first other byte. -/
def countDigits (most : Nat) (text : List Char) : Nat :=
  (((utf8 text).take most).takeWhile isDigitByte).length

/-- The byte with a capital ASCII letter made small. -/
def lowerByte (b : UInt8) : UInt8 :=
  if 'A'.toNat ≤ b.toNat ∧ b.toNat ≤ 'Z'.toNat then b + 32 else b

/-- Two texts are the same but for the case of ASCII letters, compared byte by byte. -/
def sameBytes (a b : List Char) : Bool :=
  (utf8 a).map lowerByte == (utf8 b).map lowerByte

/-! ## Cutting at a known part -/

theorem foldl_utf8Size (text : List Char) (n : Nat) :
    text.foldl (fun n c => n + c.utf8Size) n = n + byteLength text := by
  unfold byteLength
  induction text generalizing n with
  | nil => simp
  | cons c text ih => rw [List.foldl_cons, List.foldl_cons, ih, ih (0 + _)]; omega

@[simp] theorem byteLength_nil : byteLength [] = 0 := rfl

@[simp] theorem byteLength_cons (c : Char) (text : List Char) :
    byteLength (c :: text) = c.utf8Size + byteLength text := by
  show List.foldl _ (0 + c.utf8Size) text = _
  rw [foldl_utf8Size]; omega

@[simp] theorem byteLength_append (a b : List Char) :
    byteLength (a ++ b) = byteLength a + byteLength b := by
  induction a with
  | nil => simp
  | cons c a ih => rw [List.cons_append, byteLength_cons, byteLength_cons, ih]; omega

theorem byteLength_pos {text : List Char} (h : text ≠ []) : 0 < byteLength text := by
  obtain ⟨c, text, rfl⟩ := List.exists_cons_of_ne_nil h
  have := c.utf8Size_pos
  rw [byteLength_cons]; omega

theorem dropBytes_byteLength (a b : List Char) : dropBytes (byteLength a) (a ++ b) = b := by
  induction a with
  | nil => simp [dropBytes]
  | cons c a ih =>
    obtain ⟨n, hn⟩ : ∃ n, byteLength (c :: a) = n + 1 :=
      ⟨byteLength (c :: a) - 1, by have := c.utf8Size_pos; rw [byteLength_cons]; omega⟩
    have h : n + 1 - c.utf8Size = byteLength a := by rw [← hn, byteLength_cons]; omega
    rw [hn, List.cons_append, dropBytes, h, ih]

theorem takeBytes_byteLength (a b : List Char) : takeBytes (byteLength a) (a ++ b) = a := by
  rw [takeBytes, dropBytes_byteLength]; simp

theorem slice_between (before part behind : List Char) :
    Span.slice ⟨byteLength before, byteLength before + byteLength part⟩
      (before ++ part ++ behind) = part := by
  rw [Span.slice, List.append_assoc, dropBytes_byteLength, Nat.add_sub_cancel_left,
    takeBytes_byteLength]

end Redate
