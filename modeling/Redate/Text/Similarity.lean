/-
How alike two words are, as a number from zero to one. Characters count as common to both words
if they stand at about the same place, and each of them once; an exchange of two of them takes off
a little. It serves to guess which name was meant by a word that is no name.
-/

namespace Redate

/-- Takes the first free place of a character among those from `first` on and before `stop`. Each
place holds a character, and tells whether it is taken. -/
def takePlace? (c : Char) (first : Nat) : Nat → List (Char × Bool) → Option (List (Char × Bool))
  | 0, _ => none
  | _, [] => none
  | stop + 1, (d, taken) :: places =>
    if first = 0 ∧ c = d ∧ ¬ taken then some ((d, true) :: places)
    else (takePlace? c (first - 1) stop places).map ((d, taken) :: ·)

/-- The characters of a word, read from the position `here`, that find a free place at most `reach`
away, and the places afterwards. -/
def commonFrom (reach here : Nat) : List Char → List (Char × Bool) → List Char × List (Char × Bool)
  | [], places => ([], places)
  | c :: cs, places =>
    match takePlace? c (here - reach) (here + reach + 1) places with
    | none => commonFrom reach (here + 1) cs places
    | some places =>
      let (common, places) := commonFrom reach (here + 1) cs places
      (c :: common, places)

/-- The common characters of two words, in the order of either. They may be apart by less than half
the length of the longer word. -/
def commonCharacters (a b : List Char) : List Char × List Char :=
  let (common, places) := commonFrom (max a.length b.length / 2 - 1) 0 a (b.map (·, false))
  (common, (places.filter (·.2)).map (·.1))

/-- The mean of three shares: of the first word that is common, of the second word that is common,
and of the common characters that are in order. -/
def similarity (a b : List Char) : Float :=
  let (first, second) := commonCharacters a b
  let common := first.length
  let exchanges := (first.zip second).countP (fun (c, d) => c ≠ d) / 2
  if a = [] ∧ b = [] then 1
  else if common = 0 then 0
  else
    (common.toFloat / a.length.toFloat + common.toFloat / b.length.toFloat
      + (common - exchanges).toFloat / common.toFloat) / 3

/-- The name most like a word, if one is alike enough; of two equally alike, the later. -/
def mostSimilar? (word : List Char) (names : List (List Char)) : Option (List Char) :=
  names.foldl
    (fun best name =>
      let likeness := similarity word name
      if 0.7 < likeness ∧ ∀ other ∈ best, similarity word other ≤ likeness then some name else best)
    none

theorem mem_of_mostSimilar? {word name : List Char} {names : List (List Char)}
    (h : mostSimilar? word names = some name) : name ∈ names := by
  suffices ∀ (best : Option (List Char)),
      names.foldl
        (fun best name =>
          let likeness := similarity word name
          if 0.7 < likeness ∧ ∀ other ∈ best, similarity word other ≤ likeness then some name
          else best) best = some name →
      best = some name ∨ name ∈ names by
    simpa using this none h
  clear h
  induction names with
  | nil => exact fun best h => Or.inl h
  | cons n names ih =>
    intro best h
    rcases ih _ h with h | h
    · simp only at h
      split at h
      · cases h; simp
      · exact Or.inl h
    · exact Or.inr (List.mem_cons_of_mem _ h)

end Redate
