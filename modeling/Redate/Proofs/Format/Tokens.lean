/-
The tokens of a format. They spell the format, and no literal makes a tag together with the
character behind it: both together leave one list of tokens for every format. Formats are also read
by bytes, where the first two bytes of what is left are looked up; this never cuts through a
character and finds the same tokens.
-/
import Redate.Format.Token
import Redate.Proofs.Text.Bytes

namespace Redate

/-! ## Tags by their keys -/

theorem Tag.ofKey?_eq_some_iff {key : List Char} {t : Tag} :
    Tag.ofKey? key = some t ↔ key = t.key := by
  constructor
  · exact fun h => (Tag.key_of_ofKey? h).symm
  · rintro rfl
    exact Tag.ofKey?_key t

theorem Tag.byteLength_key (t : Tag) : byteLength t.key = 2 := by
  cases t <;> decide

theorem Tag.exists_key_eq (t : Tag) : ∃ a b, t.key = [a, b] :=
  List.length_eq_two.1 t.length_key

theorem Token.exists_text_eq (t : Token) : ∃ c rest, t.text = c :: rest := by
  cases t with
  | tag t =>
    obtain ⟨a, b, h⟩ := t.exists_key_eq
    exact ⟨a, [b], h⟩
  | literal c => exact ⟨c, [], rfl⟩

/-! ## Canonical tokens -/

/-- No literal and the character that follows it are the key of a tag. -/
def Canonical (tokens : List Token) : Prop :=
  tokens.IsChain fun t u =>
    ∀ c x, t = .literal c → u.text.head? = some x → ∀ g : Tag, g.key ≠ [c, x]

theorem tokenize_key_append (t : Tag) (rest : List Char) :
    tokenize (t.key ++ rest) = .tag t :: tokenize rest := by
  cases t <;> rfl

theorem tokenize_literal {c : Char} {rest : List Char}
    (h : ∀ x, rest.head? = some x → ∀ g : Tag, g.key ≠ [c, x]) :
    tokenize (c :: rest) = .literal c :: tokenize rest := by
  cases rest with
  | nil => rfl
  | cons x rest =>
    have hn : Tag.ofKey? [c, x] = none :=
      Option.eq_none_iff_forall_ne_some.2 fun g hg => h x rfl g (Tag.key_of_ofKey? hg)
    rw [tokenize, hn]

/-- What begins the text of some tokens is what begins the first of them. -/
theorem head?_flatMap_text_cons (t : Token) (tokens : List Token) :
    ((t :: tokens).flatMap Token.text).head? = t.text.head? := by
  obtain ⟨c, rest, h⟩ := t.exists_text_eq
  rw [List.flatMap_cons, h]
  rfl

/-- Canonical tokens are found again in what they spell. -/
theorem tokenize_flatMap_text {tokens : List Token} (h : Canonical tokens) :
    tokenize (tokens.flatMap Token.text) = tokens := by
  induction tokens with
  | nil => rfl
  | cons t tokens ih =>
    rw [List.flatMap_cons]
    cases t with
    | tag t => rw [Token.text, tokenize_key_append, ih h.tail]
    | literal c =>
      rw [Token.text, List.singleton_append, tokenize_literal, ih h.tail]
      intro x hx
      cases tokens with
      | nil => cases hx
      | cons u tokens =>
        rw [head?_flatMap_text_cons] at hx
        exact h.rel c x rfl hx

theorem canonical_tokenize (format : List Char) : Canonical (tokenize format) := by
  fun_induction tokenize format with
  | case1 => exact .nil
  | case2 c => exact .singleton _
  | case3 a b rest t ht ih =>
    refine List.isChain_cons.2 ⟨?_, ih⟩
    rintro u - c x ⟨⟩
  | case4 a b rest hn ih =>
    refine List.isChain_cons.2 ⟨?_, ih⟩
    rintro u hu c x ⟨⟩ hx g hg
    -- the next token begins with `b`, and `a` and `b` were tried as a tag
    have hb : u.text.head? = some b := by
      obtain ⟨more, hm⟩ := List.head?_eq_some_iff.1 hu
      rw [← head?_flatMap_text_cons u more, ← hm, flatMap_text_tokenize]
      rfl
    obtain rfl : b = x := Option.some.inj (hb.symm.trans hx)
    rw [← hg, Tag.ofKey?_key] at hn
    cases hn

/-! ## Tokens by bytes -/

/-- Two bytes name a tag just when the key of the tag begins the format. -/
theorem bind_ofKey?_slice? {format : List Char} {t : Tag} :
    (Span.slice? ⟨0, 2⟩ format).bind Tag.ofKey? = some t ↔ ∃ behind, format = t.key ++ behind := by
  rw [Option.bind_eq_some_iff, ← Span.slice?_front_eq_some_iff, t.byteLength_key]
  constructor
  · rintro ⟨key, hs, hk⟩
    rw [hs, Tag.ofKey?_eq_some_iff.1 hk]
  · exact fun hs => ⟨t.key, hs, Tag.ofKey?_key t⟩

theorem slice?_behind_key (t : Tag) (behind : List Char) :
    Span.slice? ⟨2, byteLength (t.key ++ behind)⟩ (t.key ++ behind) = some behind := by
  rw [← t.byteLength_key]
  exact Span.slice?_behind t.key behind

/-- There always is a next token, and it is the first of the tokens by characters. -/
theorem nextToken?_spec (c : Char) (rest : List Char) :
    ∃ t behind, nextToken? (c :: rest) = some (t, behind) ∧ c :: rest = t.text ++ behind ∧
      tokenize (c :: rest) = t :: tokenize behind := by
  rw [nextToken?]
  cases h : (Span.slice? ⟨0, 2⟩ (c :: rest)).bind Tag.ofKey? with
  | some t =>
    obtain ⟨behind, hb⟩ := bind_ofKey?_slice?.1 h
    refine ⟨.tag t, behind, ?_, hb, hb ▸ tokenize_key_append t behind⟩
    simp only [hb, slice?_behind_key, Option.map_some]
  | none =>
    refine ⟨.literal c, rest, rfl, rfl, tokenize_literal fun x hx g hg => ?_⟩
    obtain ⟨more, rfl⟩ := List.head?_eq_some_iff.1 hx
    have : (Span.slice? ⟨0, 2⟩ (c :: x :: more)).bind Tag.ofKey? = some g :=
      bind_ofKey?_slice?.2 ⟨more, by rw [hg]; rfl⟩
    rw [h] at this
    cases this

theorem tokensByBytes_eq (format : List Char) :
    tokensByBytes format = some (tokenize format) := by
  refine itemsBy?_eq rfl (fun c rest => ?_) format
  obtain ⟨t, behind, hn, hb, ht⟩ := nextToken?_spec c rest
  obtain ⟨x, more, hx⟩ := t.exists_text_eq
  exact ⟨t, t.text, behind, hn, hb, by rw [hx]; exact List.cons_ne_nil _ _, ht⟩

/-- The tokens of a format are the one canonical list that spells it, and canonical tokens are
those of what they spell. Reading by bytes finds the same tokens in every format, and all its cuts
are between characters. -/
theorem tokenize_eq_iff_canonical (format : List Char) :
    (∀ tokens, tokenize format = tokens ↔
      Canonical tokens ∧ tokens.flatMap Token.text = format) ∧
    tokensByBytes format = some (tokenize format) := by
  refine ⟨fun tokens => ⟨?_, ?_⟩, tokensByBytes_eq format⟩
  · rintro rfl
    exact ⟨canonical_tokenize format, flatMap_text_tokenize format⟩
  · rintro ⟨hc, rfl⟩
    exact tokenize_flatMap_text hc

/-- Letters that could begin a tag, and characters of more than one byte, are literals. -/
example : tokenize ['é', 'y', 'y', '4', 'm', 'é'] =
    [.literal 'é', .literal 'y', .tag .year, .literal 'm', .literal 'é'] := by
  decide

end Redate
