/-
Searching a text in parts. A decomposition that fits into a part of a text is the first one there
if it is the first one in the whole text, and what cannot be taken from the whole cannot be taken
from the part. So where a cut falls between two segments, the search of the whole text is the
search of the front followed by the search of the back.
-/
import Redate.Proofs.Matching.Search

namespace Redate

/-! ## There is only one first decomposition -/

instance : Std.Asymm Part.Before where
  asymm p q h h' := by
    obtain ⟨ht, h⟩ := h
    obtain ⟨-, h'⟩ := h'
    rw [← ht] at h'
    unfold Token.Prefers at h h'
    split at h <;> split at h' <;> simp_all

theorem IsFirst.unique {tokens : List Token} {text : List Char} {d e : Decomposition}
    (hd : IsFirst tokens text d) (he : IsFirst tokens text e) : d = e := by
  by_contra hne
  exact Std.Asymm.asymm _ _ (hd.before e he.isDecomposition (Ne.symm hne))
    (he.before d hd.isDecomposition hne)

theorem firstDecomposition_eq_some_iff {tokens : List Token} {text : List Char}
    {d : Decomposition} : firstDecomposition tokens text = some d ↔ IsFirst tokens text d := by
  refine ⟨isFirst_of_firstDecomposition, fun h => ?_⟩
  cases hf : firstDecomposition tokens text with
  | none => exact absurd h.isDecomposition (firstDecomposition_eq_none_iff.1 hf d)
  | some e => rw [(isFirst_of_firstDecomposition hf).unique h]

/-! ## Parts of a text -/

section Parts

variable {tokens : List Token} {text rest more : List Char} {parts : List Part}

/-- What is taken from the front of a text does not depend on what stands behind it. -/
theorem isDecomposition_append_iff :
    IsDecomposition tokens (text ++ more) ⟨parts, rest ++ more⟩ ↔
      IsDecomposition tokens text ⟨parts, rest⟩ := by
  have ht : (parts.flatMap Part.text ++ (rest ++ more) = text ++ more) ↔
      parts.flatMap Part.text ++ rest = text := by
    rw [← List.append_assoc, List.append_left_inj]
  exact ⟨fun h => ⟨h.tokens_eq, h.fits, ht.1 h.text_eq⟩,
    fun h => ⟨h.tokens_eq, h.fits, ht.2 h.text_eq⟩⟩

theorem IsFirst.of_append (h : IsFirst tokens (text ++ more) ⟨parts, rest ++ more⟩) :
    IsFirst tokens text ⟨parts, rest⟩ := by
  refine ⟨isDecomposition_append_iff.1 h.isDecomposition, fun e he hne => ?_⟩
  -- every other decomposition of the part is one of the whole text, and comes later there
  refine h.before ⟨e.parts, e.rest ++ more⟩ (isDecomposition_append_iff.2 he) fun heq => hne ?_
  simp only [Decomposition.mk.injEq, List.append_left_inj] at heq
  obtain ⟨hp, hr⟩ := heq
  rw [← hp, ← hr]

end Parts

namespace Segment

theorem Placed.of_append {tokens : List Token} {start : Nat} {rest more : List Char}
    {seg : Segment} (h : seg.Placed tokens start (rest ++ more)) :
    seg.Placed tokens start rest := by
  cases seg with
  | plain c =>
    intro d hd
    have hd' : IsDecomposition tokens (c :: rest ++ more) ⟨d.parts, d.rest ++ more⟩ :=
      isDecomposition_append_iff.2 hd
    exact h ⟨d.parts, d.rest ++ more⟩ hd'
  | found o =>
    obtain ⟨hs, hne, hf⟩ := h
    rw [← List.append_assoc] at hf
    exact ⟨hs, hne, hf.of_append⟩

/-- The segment with its place moved on by `n` bytes. -/
def shift (n : Nat) : Segment → Segment
  | plain c => plain c
  | found o => found ⟨o.start + n, o.parts⟩

@[simp] theorem text_shift (n : Nat) (seg : Segment) : (seg.shift n).text = seg.text := by
  cases seg <;> rfl

theorem Placed.shift {tokens : List Token} {start : Nat} {rest : List Char} {seg : Segment}
    (h : seg.Placed tokens start rest) (n : Nat) :
    (seg.shift n).Placed tokens (start + n) rest := by
  cases seg with
  | plain c => exact h
  | found o => exact ⟨congrArg (· + n) h.1, h.2⟩

end Segment

/-! ## The search in parts -/

/-- The step of the search back from a segment in its place. -/
theorem scan_of_placed {tokens : List Token} {start : Nat} {rest : List Char} {seg : Segment}
    (h : seg.Placed tokens start rest) :
    scan tokens start (seg.text ++ rest) =
      seg :: scan tokens (start + byteLength seg.text) rest := by
  cases seg with
  | plain c =>
    show scan tokens start (c :: rest) = .plain c :: scan tokens (start + byteLength [c]) rest
    rw [byteLength_cons, byteLength_nil, Nat.add_zero]
    exact scan_plain h
  | found o =>
    obtain ⟨rfl, hne, hf⟩ := h
    exact scan_of_text_ne_nil (firstDecomposition_eq_some_iff.2 hf) hne

/-- The search of a text that stands further on finds the same, further on. -/
theorem scan_add (tokens : List Token) (start n : Nat) (text : List Char) :
    scan tokens (start + n) text = (scan tokens start text).map (Segment.shift n) := by
  have ht := flatMap_text_scan tokens start text
  induction h : scan tokens start text generalizing start text with
  | nil =>
    rw [h] at ht
    obtain rfl : [] = text := ht
    exact scan_nil _ _
  | cons seg segs ih =>
    obtain ⟨hp, hs⟩ := scan_eq_cons h
    rw [h, List.flatMap_cons] at ht
    have hstep := scan_of_placed (hp.shift n)
    rw [Segment.text_shift, ht, Nat.add_right_comm, ih _ _ (flatMap_text_scan _ _ _) hs] at hstep
    exact hstep

section Cut

variable {tokens : List Token} {start : Nat} {a b : List Char} {pre post : List Segment}

theorem flatMap_text_back (h : scan tokens start (a ++ b) = pre ++ post)
    (ha : pre.flatMap Segment.text = a) : post.flatMap Segment.text = b := by
  have ht := flatMap_text_scan tokens start (a ++ b)
  rwa [h, List.flatMap_append, ha, List.append_cancel_left_eq] at ht

/-- A cut between two segments: the search of the front is what the whole search finds there. -/
theorem scan_front (h : scan tokens start (a ++ b) = pre ++ post)
    (ha : pre.flatMap Segment.text = a) : scan tokens start a = pre := by
  induction pre generalizing start a with
  | nil =>
    obtain rfl : [] = a := ha
    exact scan_nil _ _
  | cons seg pre ih =>
    have hb := flatMap_text_back h ha
    rw [List.cons_append] at h
    obtain ⟨hp, hs⟩ := scan_eq_cons h
    rw [List.flatMap_append, hb] at hp hs
    rw [← ha, List.flatMap_cons, scan_of_placed hp.of_append, ih hs rfl]

/-- The search of the back goes on where the front ends. -/
theorem scan_back (h : scan tokens start (a ++ b) = pre ++ post)
    (ha : pre.flatMap Segment.text = a) : scan tokens (start + byteLength a) b = post := by
  have hs := scan_eq_append h
  rwa [ha, flatMap_text_back h ha] at hs

end Cut

/-- A text is cut in one way only at a byte. -/
theorem eq_of_byteLength_eq {a a' b b' : List Char} (h : a ++ b = a' ++ b')
    (hl : byteLength a = byteLength a') : a = a' := by
  have hb := dropBytes_byteLength a b
  rw [h, hl, dropBytes_byteLength] at hb
  rw [hb] at h
  exact List.append_cancel_right h

/-- A character that no occurrence takes is a segment of its own. -/
theorem exists_plain_of_not_mem {segs : List Segment} {c : Char} {before after : List Char}
    (hc : ∀ o, .found o ∈ segs → c ∉ o.text)
    (h : segs.flatMap Segment.text = before ++ c :: after) :
    ∃ pre post, segs = pre ++ .plain c :: post ∧ pre.flatMap Segment.text = before ∧
      post.flatMap Segment.text = after := by
  induction segs generalizing before with
  | nil => exact absurd h.symm (by simp)
  | cons seg segs ih =>
    have hcs : ∀ o, .found o ∈ segs → c ∉ o.text := fun o ho => hc o (List.mem_cons_of_mem _ ho)
    rw [List.flatMap_cons] at h
    rcases List.append_eq_append_iff.1 h with ⟨more, rfl, h'⟩ | ⟨inner, hs, h'⟩
    · obtain ⟨pre, post, rfl, rfl, rfl⟩ := ih hcs h'
      exact ⟨seg :: pre, post, rfl, rfl, rfl⟩
    · cases inner with
      | nil =>
        have h' : segs.flatMap Segment.text = [] ++ c :: after := h'.symm
        obtain ⟨pre, post, rfl, hp, rfl⟩ := ih hcs h'
        refine ⟨seg :: pre, post, rfl, ?_, rfl⟩
        rw [List.flatMap_cons, hp, hs, List.append_nil, List.append_nil]
      | cons x inner =>
        -- the character is in the first segment, which is then no occurrence
        obtain ⟨rfl, rfl⟩ : c = x ∧ after = inner ++ segs.flatMap Segment.text := by
          simpa using h'
        cases seg with
        | found o =>
          have hm : c ∈ (Segment.found o).text := by simp [hs]
          exact absurd hm (hc o List.mem_cons_self)
        | plain y =>
          obtain ⟨rfl, hy⟩ := List.append_eq_singleton_iff.1 hs.symm |>.resolve_right (by simp)
          cases hy
          exact ⟨[], segs, rfl, rfl, rfl⟩

end Redate
