/-
Preference among decompositions: two digits before one, an ordinal before none, and earlier tokens
decide before later ones. Decompositions are listed in this order, so that the one the search
finds is the first of all; and where it takes no text, none does.
-/
import Redate.Matching.First
import Redate.Proofs.Matching.Shape

namespace Redate

/-! ## The order -/

/-- Of two ways over a token at one place, the first is preferred. -/
def Token.Prefers : Token → Option (List Char) → Option (List Char) → Prop
  | tag .day, some v, some w | tag .month, some v, some w => v.length = 2 ∧ w.length = 1
  | tag .optionalOrdinal, some _, none => True
  | _, _, _ => False

/-- Of two parts of one token, the first is preferred. -/
def Part.Before (p q : Part) : Prop :=
  p.token = q.token ∧ p.token.Prefers p.taken q.taken

/-- A decomposition that comes before all others in the lexicographic order of preference. -/
structure IsFirst (tokens : List Token) (text : List Char) (d : Decomposition) : Prop where
  isDecomposition : IsDecomposition tokens text d
  before : ∀ e, IsDecomposition tokens text e → e ≠ d → List.Lex Part.Before d.parts e.parts

/-! ## Choices come in order -/

theorem pairwise_toList {α : Type} {R : α → α → Prop} (o : Option α) : o.toList.Pairwise R := by
  cases o <;> simp

theorem apart_ordinalSuffixes : ordinalSuffixes.Pairwise (Apart id) := by
  decide

/-- Of words that are apart at most one can be taken, so their choices are in any order. -/
theorem pairwise_words {k : Char → Char} {words : List (List Char)}
    (hp : words.Pairwise (Apart k)) (text : List Char) (R : Choice → Choice → Prop) :
    (words.filterMap (Choice.word? (fun a b => k a == k b) text)).Pairwise R := by
  rw [List.pairwise_filterMap]
  apply hp.imp
  intro a b hab c hc c' hc'
  obtain ⟨v, -, hv, h⟩ := Choice.word?_eq_some_iff.1 hc
  obtain ⟨w, -, hw, h'⟩ := Choice.word?_eq_some_iff.1 hc'
  exact ((prefix_or_prefix_of_append_eq hv hw (h.trans h'.symm)).elim hab.1 hab.2).elim

theorem pairwise_monthWords (l : NameLength) (text : List Char) (R : Choice → Choice → Prop) :
    ((monthNames l).filterMap (Choice.word? sameFolded text)).Pairwise R :=
  pairwise_words (k := foldCase) (apart_monthNames l) text R

theorem pairwise_ordinals (text : List Char) (R : Choice → Choice → Prop) :
    (ordinalSuffixes.filterMap (Choice.word? (· == ·) text)).Pairwise R :=
  pairwise_words (k := id) apart_ordinalSuffixes text R

theorem pairwise_digits (text : List Char) {R : Option (List Char) → Option (List Char) → Prop}
    (hR : ∀ v w : List Char, v.length = 2 → w.length = 1 → R (some v) (some w)) :
    ((Choice.digits? 2 text).toList ++ (Choice.nonzeroDigit? text).toList).Pairwise
      fun a b => R a.taken b.taken := by
  refine List.pairwise_append.2 ⟨pairwise_toList _, pairwise_toList _, fun a ha b hb => ?_⟩
  obtain ⟨v, hv, hd, -⟩ := Choice.digits?_eq_some_iff.1 (Option.mem_toList.1 ha)
  obtain ⟨w, hw, ⟨x, rfl, -⟩, -⟩ := Choice.nonzeroDigit?_eq_some_iff.1 (Option.mem_toList.1 hb)
  rw [hv, hw]
  exact hR v [x] hd.1 rfl

theorem Tag.pairwise_choices (t : Tag) (text : List Char) :
    (t.choices text).Pairwise fun a b => (Token.tag t).Prefers a.taken b.taken := by
  cases t with
  | day | month => exact pairwise_digits text fun _ _ hv hw => ⟨hv, hw⟩
  | paddedDay | paddedMonth | shortYear | year => exact pairwise_toList _
  | monthName | shortMonthName => exact pairwise_monthWords _ text _
  | ordinal => exact pairwise_ordinals text _
  | optionalOrdinal =>
    refine List.pairwise_append.2
      ⟨pairwise_ordinals text _, List.pairwise_singleton _ _, fun a ha b hb => ?_⟩
    obtain ⟨w, hw, -⟩ := Choice.mem_ordinals_iff.1 ha
    rw [List.mem_singleton.1 hb, hw]
    trivial

theorem Token.pairwise_choices (t : Token) (text : List Char) :
    (t.choices text).Pairwise fun a b => t.Prefers a.taken b.taken := by
  cases t with
  | tag t => exact t.pairwise_choices text
  | literal c => exact pairwise_toList _

/-- A choice to which none is preferred is the first one. -/
theorem Token.head?_choices {t : Token} {text : List Char} {c : Choice} (hc : c ∈ t.choices text)
    (hp : ∀ c' ∈ t.choices text, ¬ t.Prefers c'.taken c.taken) :
    (t.choices text).head? = some c := by
  have h := t.pairwise_choices text
  cases hl : t.choices text with
  | nil => rw [hl] at hc; cases hc
  | cons c' more =>
    rw [hl] at hc hp h
    rcases List.mem_cons.1 hc with rfl | hc
    · rfl
    · exact absurd ((List.pairwise_cons.1 h).1 c hc) (hp c' List.mem_cons_self)

/-! ## Decompositions come in order -/

theorem pairwise_decompositions (ts : List Token) (text : List Char) :
    (decompositions ts text).Pairwise fun d e => List.Lex Part.Before d.parts e.parts := by
  induction ts generalizing text with
  | nil => exact List.pairwise_singleton _ _
  | cons t ts ih =>
    -- within one choice the later tokens decide, between two choices the first one does
    rw [decompositions, List.pairwise_flatMap]
    constructor
    · intro c _
      rw [List.pairwise_map]
      exact (ih c.rest).imp List.Lex.cons
    · apply (t.pairwise_choices text).imp
      intro a b h d hd e he
      obtain ⟨d', -, rfl⟩ := List.mem_map.1 hd
      obtain ⟨e', -, rfl⟩ := List.mem_map.1 he
      exact List.Lex.rel ⟨rfl, h⟩

/-- The search finds the first decomposition. -/
theorem isFirst_of_firstDecomposition {tokens : List Token} {text : List Char}
    {d : Decomposition} (h : firstDecomposition tokens text = some d) : IsFirst tokens text d := by
  rw [firstDecomposition_eq, List.head?_eq_some_iff] at h
  obtain ⟨later, h⟩ := h
  have hp := pairwise_decompositions tokens text
  rw [h, List.pairwise_cons] at hp
  refine ⟨mem_decompositions_iff.1 (h ▸ List.mem_cons_self), fun e he hne => hp.1 e ?_⟩
  have := mem_decompositions_iff.2 he
  rw [h] at this
  exact (List.mem_cons.1 this).resolve_left hne

/-- The search takes the first choice of a token wherever the search behind it succeeds. -/
theorem firstDecomposition_cons {t : Token} {ts : List Token} {text : List Char} {c : Choice}
    {d : Decomposition} (hc : (t.choices text).head? = some c)
    (hd : firstDecomposition ts c.rest = some d) :
    firstDecomposition (t :: ts) text = some ⟨⟨t, c.taken⟩ :: d.parts, d.rest⟩ := by
  obtain ⟨cs, hcs⟩ := List.head?_eq_some_iff.1 hc
  rw [firstDecomposition_eq] at hd ⊢
  obtain ⟨ds, hds⟩ := List.head?_eq_some_iff.1 hd
  rw [decompositions, hcs, List.flatMap_cons, hds]
  rfl

theorem firstDecomposition_eq_none_iff {tokens : List Token} {text : List Char} :
    firstDecomposition tokens text = none ↔ ∀ d, ¬ IsDecomposition tokens text d := by
  rw [firstDecomposition_eq, List.head?_eq_none_iff, List.eq_nil_iff_forall_not_mem]
  simp only [mem_decompositions_iff]

/-! ## Decompositions without text -/

theorem Tag.Fits.ne_nil {t : Tag} {w : List Char} (h : t.Fits (some w)) : w ≠ [] := by
  rintro rfl
  cases t <;> simp [Tag.Fits, Digits, NonzeroDigit, ordinalSuffixes, MonthWord] at h
  case monthName | shortMonthName => exact absurd h (by decide)

theorem Token.Fits.ne_nil {t : Token} {w : List Char} (h : t.Fits (some w)) : w ≠ [] := by
  cases t with
  | tag t => exact Tag.Fits.ne_nil h
  | literal c => rintro rfl; simp [Token.Fits] at h

theorem IsDecomposition.taken_eq_none {tokens : List Token} {text : List Char}
    {d : Decomposition} (h : IsDecomposition tokens text d) (ht : d.text = []) :
    ∀ p ∈ d.parts, p.taken = none := by
  intro p hp
  have hw : p.text = [] := List.flatMap_eq_nil_iff.1 ht p hp
  have hf := h.fits p hp
  unfold Part.text at hw
  cases hp' : p.taken with
  | none => rfl
  | some w =>
    rw [hp'] at hf hw
    exact absurd hw hf.ne_nil

/-- A way that takes nothing is preferred to none. -/
theorem not_lex_of_taken_eq_none {ps qs : List Part} (hn : ∀ p ∈ ps, p.taken = none)
    (hl : ps.length = qs.length) : ¬ List.Lex Part.Before ps qs := by
  intro h
  induction h with
  | nil => simp at hl
  | @rel p ps q qs h =>
    have hp := hn p List.mem_cons_self
    have := h.2
    rw [hp] at this
    unfold Token.Prefers at this
    split at this <;> simp_all
  | cons _ ih =>
    exact ih (fun p hp => hn p (List.mem_cons_of_mem _ hp)) (by simpa using hl)

/-- Where the first decomposition takes no text, it is the only one. -/
theorem IsFirst.eq_of_text_eq_nil {tokens : List Token} {text : List Char} {d e : Decomposition}
    (h : IsFirst tokens text d) (ht : d.text = []) (he : IsDecomposition tokens text e) :
    e = d := by
  by_contra hne
  -- any other decomposition would come later, but to take nothing is the last choice
  have hl : d.parts.length = e.parts.length := by
    simpa using congrArg List.length (h.isDecomposition.tokens_eq.trans he.tokens_eq.symm)
  exact not_lex_of_taken_eq_none (h.isDecomposition.taken_eq_none ht) hl (h.before e he hne)

end Redate
