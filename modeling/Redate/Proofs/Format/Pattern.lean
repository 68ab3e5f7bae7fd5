/-
Patterns read back. A pattern is read from left to right: a backslash takes the character after
it as it is, an opening parenthesis opens the group of a tag, any other character is taken for
itself. The main statement says that the pattern of a format, read so, is its tokens, up to tags
that have one group between them, and that the pattern and the slots leave no doubt about the
format.
-/
import Mathlib
import Redate.Format.Input

namespace Redate

/-! ## Signs -/

/-- What stands at one place of a pattern. -/
inductive Sign
  | escaped (c : Char)
  | plain (c : Char)
  | group (fragment : List Char)
  deriving DecidableEq

/-- The characters with which a pattern says something about its text other than that they
stand in it: the escape, anchors, the wildcard and alternatives, repetitions, groups, classes and
counts. -/
def IsOperator (c : Char) : Prop :=
  c = '\\' ∨ c ∈ ['^', '$', '.', '|'] ∨ c ∈ ['?', '*', '+'] ∨ c ∈ ['(', ')'] ∨ c ∈ ['[', ']'] ∨
    c ∈ ['\x7b', '\x7d']

instance : DecidablePred IsOperator :=
  fun _ => inferInstanceAs (Decidable (_ ∨ _))

/-- The group of a tag at the front of a pattern. That of an optional ordinal is tried before
the shorter one of an ordinal. -/
def groupAt? (pattern : List Char) : Option (List Char) :=
  (Tag.all.map Tag.pattern).find? (·.isPrefixOf pattern)

/-- The signs of a pattern, unless it ends behind a backslash or opens a group that is no tag's. -/
def readSigns : List Char → Option (List Sign)
  | [] => some []
  | '\\' :: c :: rest => (readSigns rest).map (.escaped c :: ·)
  | ['\\'] => none
  | '(' :: rest =>
    match groupAt? ('(' :: rest) with
    | some w => (readSigns (rest.drop (w.length - 1))).map (.group w :: ·)
    | none => none
  | c :: rest => (readSigns rest).map (.plain c :: ·)
termination_by pattern => pattern.length

/-- The sign is what the pattern of the token shows. -/
def Sign.StandsFor : Sign → Token → Prop
  | .escaped c, .literal d | .plain c, .literal d => c = d
  | .group w, .tag t => w = t.pattern
  | _, _ => False

/-- A pattern is these signs and they stand for the tokens one by one. A character is escaped
just when it is an operator: none is taken for itself, and no backslash gives a letter a meaning. -/
structure ReadsAs (pattern : List Char) (signs : List Sign) (tokens : List Token) : Prop where
  reads : readSigns pattern = some signs
  standsFor : List.Forall₂ Sign.StandsFor signs tokens
  plain : ∀ c, .plain c ∈ signs → ¬ IsOperator c
  escaped : ∀ c, .escaped c ∈ signs → IsOperator c

/-! ## Groups -/

/-- The groups that a pattern captures: one for each opening parenthesis, unless it is escaped,
in a class, or followed by a question mark. -/
def captureGroupsFrom : Bool → List Char → Nat
  | _, [] => 0
  | inClass, '\\' :: _ :: rest => captureGroupsFrom inClass rest
  | true, c :: rest => captureGroupsFrom (c != ']') rest
  | false, '(' :: '?' :: rest => captureGroupsFrom false rest
  | false, '(' :: rest => captureGroupsFrom false rest + 1
  | false, c :: rest => captureGroupsFrom (c == '[') rest

/-- The groups that a whole pattern captures. -/
def captureGroups (pattern : List Char) : Nat :=
  captureGroupsFrom false pattern

/-! ## Literals and tags as signs -/

theorem ne_of_not_isOperator {c d : Char} (h : ¬ IsOperator c) (hd : IsOperator d) : c ≠ d := by
  rintro rfl
  exact h hd

theorem mem_specialCharacters_iff {c : Char} : c ∈ specialCharacters ↔ IsOperator c := by
  simp only [specialCharacters, IsOperator, List.mem_cons, List.not_mem_nil, or_false, or_assoc]

/-- The sign that a token is written as. -/
def Token.sign : Token → Sign
  | .tag t => .group t.pattern
  | .literal c => if IsOperator c then .escaped c else .plain c

/-- A literal is escaped just when it is an operator. -/
theorem Token.literal_cases (c : Char) :
    (IsOperator c ∧ (literal c).pattern = ['\\', c] ∧ (literal c).sign = .escaped c) ∨
      (¬ IsOperator c ∧ (literal c).pattern = [c] ∧ (literal c).sign = .plain c) := by
  by_cases h : IsOperator c
  · exact .inl ⟨h, if_pos (mem_specialCharacters_iff.2 h), if_pos h⟩
  · exact .inr ⟨h, if_neg (mt mem_specialCharacters_iff.1 h), if_neg h⟩

theorem Tag.head?_pattern (t : Tag) : t.pattern.head? = some '(' := by
  cases t <;> rfl

theorem Token.head?_pattern_ne (t : Token) : t.pattern.head? ≠ some '?' := by
  cases t with
  | tag t => simp [pattern, Tag.head?_pattern]
  | literal c =>
    obtain ⟨-, hp, -⟩ | ⟨h, hp, -⟩ := literal_cases c
    · simp [hp]
    · simpa [hp] using ne_of_not_isOperator h (by decide)

theorem Token.pattern_ne_nil (t : Token) : t.pattern ≠ [] := by
  cases t with
  | tag t => cases t <;> decide
  | literal c => obtain ⟨-, hp, -⟩ | ⟨-, hp, -⟩ := literal_cases c <;> simp [hp]

theorem patternOf_cons (t : Token) (tokens : List Token) :
    patternOf (t :: tokens) = t.pattern ++ patternOf tokens :=
  rfl

/-- Nothing after a group can be taken for its question mark. -/
theorem head?_patternOf_ne (tokens : List Token) : (patternOf tokens).head? ≠ some '?' := by
  cases tokens with
  | nil => simp [patternOf]
  | cons t tokens =>
    rw [patternOf_cons, List.head?_append_of_ne_nil _ t.pattern_ne_nil]
    exact t.head?_pattern_ne

/-! ## Reading a pattern back -/

theorem groupAt?_ordinal (rest : List Char) :
    groupAt? (Tag.ordinal.pattern ++ rest) =
      bif ['?'].isPrefixOf rest then some Tag.optionalOrdinal.pattern
      else some Tag.ordinal.pattern :=
  rfl

theorem groupAt?_pattern (t : Tag) {rest : List Char} (h : rest.head? ≠ some '?') :
    groupAt? (t.pattern ++ rest) = some t.pattern := by
  cases t with
  | ordinal =>
    have : ['?'].isPrefixOf rest = false := by
      cases rest with
      | nil => rfl
      | cons c rest =>
        have hc : '?' ≠ c := by
          rintro rfl
          exact h rfl
        simp [List.isPrefixOf, hc]
    rw [groupAt?_ordinal, this, cond_false]
  | _ => rfl

theorem readSigns_literal (c : Char) (rest : List Char) :
    readSigns ((Token.literal c).pattern ++ rest) =
      (readSigns rest).map ((Token.literal c).sign :: ·) := by
  obtain ⟨-, hp, hs⟩ | ⟨h, hp, hs⟩ := Token.literal_cases c
  · rw [hp, hs, List.cons_append, List.cons_append, List.nil_append, readSigns]
  · have hb : c ≠ '\\' := ne_of_not_isOperator h (by decide)
    have hg : c ≠ '(' := ne_of_not_isOperator h (by decide)
    rw [hp, hs, List.cons_append, List.nil_append, readSigns]
    · simp [hb]
    · simp [hb]
    · exact hg

theorem readSigns_tag (t : Tag) {rest : List Char} (h : rest.head? ≠ some '?') :
    readSigns (t.pattern ++ rest) = (readSigns rest).map ((Token.tag t).sign :: ·) := by
  obtain ⟨w, hw⟩ : ∃ w, t.pattern = '(' :: w := List.head?_eq_some_iff.1 t.head?_pattern
  have hg := groupAt?_pattern t h
  rw [hw, List.cons_append] at hg ⊢
  rw [readSigns, hg]
  simp [Token.sign, hw]

theorem readSigns_patternOf (tokens : List Token) :
    readSigns (patternOf tokens) = some (tokens.map Token.sign) := by
  induction tokens with
  | nil => rw [patternOf, List.flatMap_nil, readSigns, List.map_nil]
  | cons t tokens ih =>
    rw [patternOf_cons]
    cases t with
    | tag t => rw [Token.pattern, readSigns_tag t (head?_patternOf_ne tokens), ih]; rfl
    | literal c => rw [readSigns_literal, ih]; rfl

theorem Token.sign_standsFor (t : Token) : t.sign.StandsFor t := by
  cases t with
  | tag t => rfl
  | literal c =>
    obtain ⟨-, -, hs⟩ | ⟨-, -, hs⟩ := literal_cases c
    all_goals
      rw [hs]
      rfl

theorem Token.not_isOperator_of_sign {t : Token} {c : Char} (h : t.sign = .plain c) :
    ¬ IsOperator c := by
  cases t with
  | tag t => cases h
  | literal d =>
    obtain ⟨-, -, hs⟩ | ⟨hd, -, hs⟩ := literal_cases d
    · cases hs.symm.trans h
    · cases hs.symm.trans h
      exact hd

theorem Token.isOperator_of_sign {t : Token} {c : Char} (h : t.sign = .escaped c) :
    IsOperator c := by
  cases t with
  | tag t => cases h
  | literal d =>
    obtain ⟨hd, -, hs⟩ | ⟨-, -, hs⟩ := literal_cases d
    · cases hs.symm.trans h
      exact hd
    · cases hs.symm.trans h

theorem readsAs_patternOf (tokens : List Token) :
    ReadsAs (patternOf tokens) (tokens.map Token.sign) tokens where
  reads := readSigns_patternOf tokens
  standsFor := by
    rw [List.forall₂_map_left_iff, List.forall₂_same]
    exact fun t _ => t.sign_standsFor
  plain c hc := by
    obtain ⟨t, -, ht⟩ := List.mem_map.1 hc
    exact t.not_isOperator_of_sign ht
  escaped c hc := by
    obtain ⟨t, -, ht⟩ := List.mem_map.1 hc
    exact t.isOperator_of_sign ht

/-! ## Counting groups -/

theorem captureGroupsFrom_tag (t : Tag) (rest : List Char) :
    captureGroupsFrom false (t.pattern ++ rest) = captureGroupsFrom false rest + 1 := by
  cases t <;> rfl

theorem captureGroupsFrom_literal (c : Char) (rest : List Char) :
    captureGroupsFrom false ((Token.literal c).pattern ++ rest) =
      captureGroupsFrom false rest := by
  obtain ⟨-, hp, -⟩ | ⟨h, hp, -⟩ := Token.literal_cases c
  · rw [hp]
    rfl
  · have hb : c ≠ '\\' := ne_of_not_isOperator h (by decide)
    have hg : c ≠ '(' := ne_of_not_isOperator h (by decide)
    have hk : c ≠ '[' := ne_of_not_isOperator h (by decide)
    have : (c == '[') = false := beq_eq_false_iff_ne.2 hk
    simp [hp, captureGroupsFrom, hb, hg, this]

theorem captureGroups_patternOf (tokens : List Token) :
    captureGroups (patternOf tokens) = (tokens.filterMap Token.tag?).length := by
  induction tokens with
  | nil => rfl
  | cons t tokens ih =>
    rw [patternOf_cons, captureGroups]
    cases t with
    | tag t =>
      rw [Token.pattern, captureGroupsFrom_tag, ← captureGroups, ih]
      rfl
    | literal c =>
      rw [captureGroupsFrom_literal, ← captureGroups, ih]
      rfl

/-! ## One format for a pattern and its slots -/

/-- The slots that the groups of a pattern are read by. -/
def slotsOf (tokens : List Token) : List (Option Slot) :=
  (tokens.filterMap Token.tag?).map Tag.slot?

theorem Sign.standsFor_escaped_iff {c : Char} {t : Token} :
    (escaped c).StandsFor t ↔ t = .literal c := by
  cases t <;> simp [StandsFor, eq_comm]

theorem Sign.standsFor_plain_iff {c : Char} {t : Token} :
    (plain c).StandsFor t ↔ t = .literal c := by
  cases t <;> simp [StandsFor, eq_comm]

theorem Sign.standsFor_group_iff {w : List Char} {t : Token} :
    (group w).StandsFor t ↔ ∃ u : Tag, t = .tag u ∧ u.pattern = w := by
  cases t <;> simp [StandsFor, eq_comm]

/-- Tags that have one group between them have slots of their own. -/
theorem Tag.eq_of_pattern_of_slot? {t u : Tag} (hp : t.pattern = u.pattern)
    (hs : t.slot? = u.slot?) : t = u := by
  revert hp hs
  cases t <;> cases u <;> decide

theorem eq_of_standsFor {signs : List Sign} {a b : List Token}
    (ha : List.Forall₂ Sign.StandsFor signs a) (hb : List.Forall₂ Sign.StandsFor signs b)
    (hs : slotsOf a = slotsOf b) :
    a = b := by
  induction ha generalizing b with
  | nil =>
    cases hb
    rfl
  | @cons s t signs a h ha ih =>
    obtain ⟨u, b, h', hb', rfl⟩ := List.forall₂_cons_left_iff.1 hb
    cases s with
    | escaped c =>
      obtain rfl := Sign.standsFor_escaped_iff.1 h
      obtain rfl := Sign.standsFor_escaped_iff.1 h'
      rw [ih hb' hs]
    | plain c =>
      obtain rfl := Sign.standsFor_plain_iff.1 h
      obtain rfl := Sign.standsFor_plain_iff.1 h'
      rw [ih hb' hs]
    | group w =>
      obtain ⟨t, rfl, hp⟩ := Sign.standsFor_group_iff.1 h
      obtain ⟨u, rfl, hp'⟩ := Sign.standsFor_group_iff.1 h'
      obtain ⟨hs, hs'⟩ := List.cons.inj hs
      rw [Tag.eq_of_pattern_of_slot? (hp.trans hp'.symm) hs, ih hb' hs']

theorem ReadsAs.tokens_eq {pattern : List Char} {signs signs' : List Sign} {a b : List Token}
    (ha : ReadsAs pattern signs a) (hb : ReadsAs pattern signs' b)
    (hs : slotsOf a = slotsOf b) :
    a = b := by
  obtain rfl : signs = signs' := Option.some.inj (ha.reads.symm.trans hb.reads)
  exact eq_of_standsFor ha.standsFor hb.standsFor hs

theorem eq_of_tokenize_eq {format other : String}
    (h : tokenize format.toList = tokenize other.toList) : format = other := by
  rw [← String.toList_inj, ← flatMap_text_tokenize format.toList, h, flatMap_text_tokenize]

namespace InputFormat

/-- The pattern that compiling a format writes, before its size counts. -/
def patternFor (format : String) : List Char :=
  patternOf (tokenize format.toList)

/-- The slots that compiling a format collects. -/
def slotsFor (format : String) : List (Option Slot) :=
  slotsOf (tokenize format.toList)

/-- The pattern of any format is read back as its tokens, each literal as itself. The pattern
captures a group for each tag, and each group has its place in the slots. Two formats with one
pattern and the same slots are one format, and a format that compiles has this pattern and these
slots. -/
theorem patternFor_readsAs (format : String) :
    (∃ signs, ReadsAs (patternFor format) signs (tokenize format.toList)) ∧
      captureGroups (patternFor format) =
        ((tokenize format.toList).filterMap Token.tag?).length ∧
      captureGroups (patternFor format) = (slotsFor format).length ∧
      (∀ other : String, patternFor format = patternFor other →
        slotsFor format = slotsFor other → format = other) ∧
      ∀ f, compile format = .ok f → f.pattern = patternFor format ∧ f.slots = slotsFor format := by
  have hc := captureGroups_patternOf (tokenize format.toList)
  refine ⟨⟨_, readsAs_patternOf _⟩, hc, ?_, fun other hp hs => ?_, fun f hf => ?_⟩
  · rw [patternFor, hc, slotsFor, slotsOf, List.length_map]
  · have h := readsAs_patternOf (tokenize format.toList)
    have h' := readsAs_patternOf (tokenize other.toList)
    rw [← patternFor, ← hp] at h'
    exact eq_of_tokenize_eq (h.tokens_eq h' hs)
  · obtain rfl := compile_eq_ok_iff.1 hf
    exact ⟨rfl, rfl⟩

/-- A question mark after an ordinal is its own token, also in the pattern. -/
theorem patternFor_readsAs_or :
    let f : InputFormat := ⟨"or?", by decide⟩
    let other := String.ofList ['o', 'r', '?']
    patternFor "or?" = "(st|nd|rd|th)\\?".toList ∧
      (patternFor "or?" = patternFor other ∧ slotsFor "or?" = slotsFor other ∧ "or?" = other) ∧
      compile "or?" = .ok f ∧ f.pattern = patternFor "or?" ∧ f.slots = slotsFor "or?" := by
  intro f other
  have hp : patternFor "or?" = patternFor other := by decide
  have hs : slotsFor "or?" = slotsFor other := by decide
  have hf : compile "or?" = .ok f := compile_eq_ok_iff.2 rfl
  obtain ⟨-, -, -, hinj, hcompile⟩ := patternFor_readsAs "or?"
  exact ⟨by decide, ⟨hp, hs, hinj other hp hs⟩, hf, hcompile f hf⟩

end InputFormat
end Redate
