/-
The shapes of tokens, said apart from any search: what each token may take from a text. The
choices of a token are exactly the ways to take a text of its shape from the front, and
`decompositions` lists exactly the decompositions into pieces of the right shapes.
-/
import Redate.Matching.Choice
import Redate.Proofs.Text.Numbers
import Redate.Proofs.Text.Words

namespace Redate

/-! ## Shapes -/

/-- What a tag may take, and that only an optional ordinal may take nothing. -/
def Tag.Fits : Tag → Option (List Char) → Prop
  | day, some w | month, some w => Digits 2 w ∨ NonzeroDigit w
  | paddedDay, some w | paddedMonth, some w | shortYear, some w => Digits 2 w
  | year, some w => Digits 4 w
  | monthName, some w => MonthWord .full w
  | shortMonthName, some w => MonthWord .short w
  | ordinal, some w | optionalOrdinal, some w => w ∈ ordinalSuffixes
  | optionalOrdinal, none => True
  | _, none => False

/-- What a token may take; a literal takes its own character. -/
def Token.Fits : Token → Option (List Char) → Prop
  | tag t, taken => t.Fits taken
  | literal c, taken => taken = some [c]

theorem mem_tags_iff {tokens : List Token} {t : Tag} :
    t ∈ tokens.filterMap Token.tag? ↔ .tag t ∈ tokens := by
  rw [List.mem_filterMap]
  constructor
  · rintro ⟨u, hu, ht⟩
    cases u with
    | literal c => cases ht
    | tag t' => cases ht; exact hu
  · exact fun h => ⟨_, h, rfl⟩

/-- A piece of the right shape for each token, laid end to end from the front of a text. -/
structure IsDecomposition (tokens : List Token) (text : List Char) (d : Decomposition) : Prop where
  tokens_eq : d.parts.map Part.token = tokens
  fits : ∀ p ∈ d.parts, p.token.Fits p.taken
  text_eq : d.text ++ d.rest = text

/-! ## Choices of one token -/

namespace Choice

/-- The choice takes a text with property `P` from the front. -/
def Takes (P : List Char → Prop) (text : List Char) (c : Choice) : Prop :=
  ∃ w, c.taken = some w ∧ P w ∧ w ++ c.rest = text

theorem takes_or {P Q : List Char → Prop} {text : List Char} {c : Choice} :
    c.Takes (fun w => P w ∨ Q w) text ↔ c.Takes P text ∨ c.Takes Q text := by
  constructor
  · rintro ⟨w, hc, h | h, ht⟩
    · exact .inl ⟨w, hc, h, ht⟩
    · exact .inr ⟨w, hc, h, ht⟩
  · rintro (⟨w, hc, h, ht⟩ | ⟨w, hc, h, ht⟩)
    · exact ⟨w, hc, .inl h, ht⟩
    · exact ⟨w, hc, .inr h, ht⟩

theorem digits?_eq_some_iff {n : Nat} {text : List Char} {c : Choice} :
    digits? n text = some c ↔ c.Takes (Digits n) text := by
  unfold digits?
  constructor
  · intro h
    split at h
    · next hd =>
      cases h
      exact ⟨_, rfl, ⟨hd.1, by simpa using hd.2⟩, List.take_append_drop n text⟩
    · cases h
  · rintro ⟨w, hc, ⟨rfl, hd⟩, rfl⟩
    obtain ⟨taken, rest⟩ := c
    cases hc
    simpa using hd

theorem nonzeroDigit?_eq_some_iff {text : List Char} {c : Choice} :
    nonzeroDigit? text = some c ↔ c.Takes NonzeroDigit text := by
  constructor
  · fun_cases nonzeroDigit? text with
    | case1 => rintro ⟨⟩
    | case2 x rest h =>
      rintro ⟨⟩
      exact ⟨[x], rfl, ⟨x, rfl, h.1, h.2⟩, rfl⟩
    | case3 => rintro ⟨⟩
  · rintro ⟨w, hc, ⟨x, rfl, hx⟩, rfl⟩
    obtain ⟨taken, rest⟩ := c
    cases hc
    exact if_pos hx

theorem word?_eq_some_iff {k : Char → Char} {text word : List Char} {c : Choice} :
    word? (fun a b => k a == k b) text word = some c ↔
      c.Takes (fun w => w.map k = word.map k) text := by
  unfold word?
  rw [Option.map_eq_some_iff]
  constructor
  · rintro ⟨rest, h, rfl⟩
    obtain ⟨w, hw, rfl⟩ := dropWord?_eq_some_iff.1 h
    have hl : w.length = word.length := by simpa using congrArg List.length hw
    exact ⟨w, by rw [← hl, List.take_left], hw, rfl⟩
  · rintro ⟨w, hc, hw, rfl⟩
    have hl : w.length = word.length := by simpa using congrArg List.length hw
    obtain ⟨taken, rest⟩ := c
    cases hc
    exact ⟨rest, dropWord?_eq_some_iff.2 ⟨w, hw, rfl⟩, by rw [← hl, List.take_left]⟩

theorem mem_words_iff {k : Char → Char} {words : List (List Char)} {text : List Char}
    {c : Choice} :
    c ∈ words.filterMap (word? (fun a b => k a == k b) text) ↔
      c.Takes (fun w => ∃ word ∈ words, w.map k = word.map k) text := by
  simp only [List.mem_filterMap, word?_eq_some_iff]
  constructor
  · rintro ⟨word, hm, w, hc, hw, ht⟩
    exact ⟨w, hc, ⟨word, hm, hw⟩, ht⟩
  · rintro ⟨w, hc, ⟨word, hm, hw⟩, ht⟩
    exact ⟨word, hm, w, hc, hw, ht⟩

theorem mem_monthWords_iff {l : NameLength} {text : List Char} {c : Choice} :
    c ∈ (monthNames l).filterMap (word? sameFolded text) ↔ c.Takes (MonthWord l) text := by
  refine Iff.trans (mem_words_iff (k := foldCase)) ?_
  constructor <;> rintro ⟨w, hc, ⟨name, hn, hw⟩, ht⟩
  · exact ⟨w, hc, ⟨name, hn, (map_foldCase_eq_iff hn).1 hw⟩, ht⟩
  · exact ⟨w, hc, ⟨name, hn, (map_foldCase_eq_iff hn).2 hw⟩, ht⟩

theorem mem_ordinals_iff {text : List Char} {c : Choice} :
    c ∈ ordinalSuffixes.filterMap (word? (· == ·) text) ↔
      c.Takes (· ∈ ordinalSuffixes) text := by
  refine Iff.trans (mem_words_iff (k := id)) ?_
  simp

end Choice

/-- The choices of a tag are the ways to take a text of its shape. -/
theorem Tag.mem_choices_iff {t : Tag} {text : List Char} {c : Choice} :
    c ∈ t.choices text ↔ t.Fits c.taken ∧ c.text ++ c.rest = text := by
  obtain ⟨taken, rest⟩ := c
  -- each list of choices is first put as the ways to take a text of one shape
  cases t <;>
    simp only [Tag.choices, List.mem_append, Option.mem_toList, List.mem_singleton,
      Choice.digits?_eq_some_iff, Choice.nonzeroDigit?_eq_some_iff, Choice.mem_monthWords_iff,
      Choice.mem_ordinals_iff, ← Choice.takes_or] <;>
    cases taken <;> simp [Choice.Takes, Tag.Fits, Choice.text, eq_comm]

theorem Token.mem_choices_iff {t : Token} {text : List Char} {c : Choice} :
    c ∈ t.choices text ↔ t.Fits c.taken ∧ c.text ++ c.rest = text := by
  cases t with
  | tag t => exact Tag.mem_choices_iff
  | literal x =>
    rw [Token.choices, Option.mem_toList]
    refine Iff.trans (Choice.word?_eq_some_iff (k := id)) ?_
    constructor
    · rintro ⟨w, hc, hw, ht⟩
      obtain rfl : w = [x] := by simpa using hw
      exact ⟨hc, by rw [Choice.text, hc]; exact ht⟩
    · rintro ⟨hc, ht⟩
      exact ⟨[x], hc, rfl, by rw [Choice.text, hc] at ht; exact ht⟩

/-! ## Decompositions -/

/-- The list of decompositions is sound and complete. -/
theorem mem_decompositions_iff {ts : List Token} {text : List Char} {d : Decomposition} :
    d ∈ decompositions ts text ↔ IsDecomposition ts text d := by
  induction ts generalizing text d with
  | nil =>
    simp only [decompositions, List.mem_singleton]
    constructor
    · rintro rfl
      exact ⟨rfl, by simp, rfl⟩
    · rintro ⟨hp, -, ht⟩
      obtain ⟨parts, rest⟩ := d
      obtain rfl : parts = [] := by simpa using hp
      exact congrArg _ ht
  | cons t ts ih =>
    simp only [decompositions, List.mem_flatMap, List.mem_map, Token.mem_choices_iff, ih]
    constructor
    · rintro ⟨c, ⟨hc, rfl⟩, d', ⟨hp, hf, hd⟩, rfl⟩
      refine ⟨by simp [hp], List.forall_mem_cons.2 ⟨hc, hf⟩, ?_⟩
      rw [← hd, ← List.append_assoc]
      rfl
    · rintro ⟨hp, hf, ht⟩
      obtain ⟨parts, rest⟩ := d
      cases parts with
      | nil => simp at hp
      | cons p parts =>
        simp only [List.map_cons, List.cons.injEq] at hp
        obtain ⟨rfl, hp⟩ := hp
        obtain ⟨h, hf⟩ := List.forall_mem_cons.1 hf
        -- what the later parts take, and the rest, is what the first choice leaves
        refine ⟨⟨p.taken, parts.flatMap Part.text ++ rest⟩, ⟨h, ?_⟩, ⟨parts, rest⟩,
          ⟨hp, hf, rfl⟩, rfl⟩
        rw [← ht, ← List.append_assoc]
        rfl

end Redate
