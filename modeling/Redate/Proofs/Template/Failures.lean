/-
Why a text is not read. A walk goes through a template as far as the items find pieces of their
shapes, whatever numbers these name. The furthest point that it can come to tells the outcome: an
error is reported exactly when it is true of this point.
-/
import Redate.Proofs.Template.Grammar

namespace Redate
namespace Template

/-! ## Points of a walk -/

/-- A place that a walk can come to: the items done have taken their pieces from the front of the
text, each the longest of its shape, and the rest is left for the items to do. -/
structure Point (t : Template) (text : List Char) where
  done : Template
  todo : Template
  pieces : List (List Char)
  rest : List Char
  items_eq : done ++ todo = t
  text_eq : pieces.flatten ++ rest = text
  takes : done.Takes pieces rest

theorem takes_cons {i : Item} {t : Template} {pieces : List (List Char)} {rest : List Char}
    (h : Takes (i :: t) pieces rest) : ∃ w more, pieces = w :: more ∧
      i.TakesMost w (more.flatten ++ rest) ∧ t.Takes more rest := by
  cases pieces with
  | nil => exact h.elim
  | cons w more => exact ⟨w, more, rfl, h⟩

namespace Point

variable {t : Template} {text : List Char}

/-- The numbers read on the way, of each kind the last one or else its default. -/
def fields (p : Point t text) : Fields :=
  Fields.lastOf (p.done.readings p.pieces) {}

/-- No walk comes to a point behind this one. -/
def IsFurthest (p : Point t text) : Prop :=
  ∀ q : Point t text, q.done <+: p.done

/-- The next item finds no piece of its shape. -/
def Stuck (p : Point t text) : Prop :=
  ∀ i ∈ p.todo.head?, ∀ w, w <+: p.rest → ¬ i.Fits w

/-- The point where nothing is read yet. -/
def start (t : Template) (text : List Char) : Point t text :=
  ⟨[], t, [], text, rfl, rfl, trivial⟩

/-- The point that is reached behind one more piece. -/
def cons {i : Item} {w : List Char} (p : Point t text) (hw : i.TakesMost w text) :
    Point (i :: t) (w ++ text) where
  done := i :: p.done
  todo := p.todo
  pieces := w :: p.pieces
  rest := p.rest
  items_eq := by rw [List.cons_append, p.items_eq]
  text_eq := by rw [List.flatten_cons, List.append_assoc, p.text_eq]
  takes := ⟨by rwa [p.text_eq], p.takes⟩

theorem Stuck.isFurthest_start (h : (start t text).Stuck) : (start t text).IsFurthest := by
  rintro ⟨done, todo, pieces, rest, rfl, rfl, hq⟩
  cases done with
  | nil => exact List.nil_prefix
  | cons i done =>
    obtain ⟨w, more, rfl, hw, -⟩ := takes_cons hq
    refine absurd hw.1 (h i rfl w ⟨more.flatten ++ rest, ?_⟩)
    rw [List.flatten_cons, List.append_assoc]
    rfl

theorem IsFurthest.cons {i : Item} {w : List Char} {p : Point t text} (hp : p.IsFurthest)
    (hw : i.TakesMost w text) : (p.cons hw).IsFurthest := by
  rintro ⟨done, todo, pieces, rest, hi, ht, hq⟩
  cases done with
  | nil => exact List.nil_prefix
  | cons j done =>
    obtain ⟨rfl, hi'⟩ := List.cons.inj hi
    obtain ⟨w', more, rfl, hw', hq⟩ := takes_cons hq
    rw [List.flatten_cons, List.append_assoc] at ht
    -- both points have the same first piece, so they can differ behind it only
    obtain ⟨rfl, ht'⟩ := hw'.unique hw ht
    exact (List.prefix_cons_inj _).2 (hp ⟨done, todo, more, rest, hi', ht', hq⟩)

theorem exists_isFurthest (t : Template) (text : List Char) :
    ∃ p : Point t text, p.IsFurthest ∧ p.Stuck := by
  induction t generalizing text with
  | nil =>
    have h : (start [] text).Stuck := by rintro i ⟨⟩
    exact ⟨_, h.isFurthest_start, h⟩
  | cons i t ih =>
    by_cases h : ∃ w, w <+: text ∧ i.Fits w
    · obtain ⟨v, hp, hv⟩ := h
      obtain ⟨w, rest, rfl, hw⟩ := Item.exists_takesMost hv hp
      obtain ⟨p, hf, hs⟩ := ih rest
      exact ⟨p.cons hw, hf.cons hw, hs⟩
    · have h : (start (i :: t) text).Stuck := by
        rintro j ⟨⟩ w hw hj
        exact h ⟨w, hw, hj⟩
      exact ⟨_, h.isFurthest_start, h⟩

theorem walk_eq (p : Point t text) : walk t {} text = walk p.todo p.fields p.rest := by
  have h := walk_of_takes (u := p.todo) p.takes {}
  rw [p.items_eq, p.text_eq, setAll_readings (fits_of_takes p.takes)] at h
  exact h

theorem year_bounds (p : Point t text) : 0 ≤ p.fields.year ∧ p.fields.year ≤ 9999 :=
  year_bounds_of_fits (fits_of_mem_readings (fits_of_takes p.takes))

end Point

/-! ## Errors at a point -/

/-- What an error says of the point where it is reported. -/
def ParseError.TrueAt {t : Template} {text : List Char} (p : Point t text) : ParseError → Prop
  | .endsEarly => p.todo ≠ [] ∧ p.rest = []
  | .differs expected found =>
    p.todo.head? = some (.literal expected) ∧ p.rest.head? = some found ∧ expected ≠ found
  | .badValue s value =>
    p.todo.head? = some (.slot s) ∧ p.rest ≠ [] ∧ (∀ w, w <+: p.rest → ¬ s.Fits w) ∧
      value = p.rest.takeWhile (· != delimiter)
  | .leftOver behind => p.todo = [] ∧ behind = p.rest ∧ p.rest ≠ []
  | .noSuchDay f => p.todo = [] ∧ p.rest = [] ∧ f = p.fields ∧ ¬ NamesDay p.fields

section Errors

variable {t : Template} {text : List Char} {p : Point t text}

theorem ParseError.TrueAt.unique {e e' : ParseError} (h : e.TrueAt p) (h' : e'.TrueAt p) :
    e = e' := by
  cases e <;> cases e' <;> simp_all [TrueAt]

/-- A walk that is stuck before the end reports an error that is true there. -/
theorem Point.Stuck.walk_todo (hp : p.Stuck) (f : Fields) :
    (p.todo = [] ∧ p.rest = []) ∨
      ∃ e : ParseError, walk p.todo f p.rest = .error e ∧ e.TrueAt p := by
  obtain ⟨done, todo, pieces, rest, hi, ht, hd⟩ := p
  cases todo with
  | nil =>
    cases rest with
    | nil => exact .inl ⟨rfl, rfl⟩
    | cons c rest => exact .inr ⟨.leftOver (c :: rest), rfl, rfl, rfl, by simp⟩
  | cons i more =>
    right
    have hi : ∀ w, w <+: rest → ¬ i.Fits w := hp i rfl
    cases rest with
    | nil => exact ⟨.endsEarly, rfl, by simp, rfl⟩
    | cons c rest =>
      cases i with
      | literal e =>
        have hc : e ≠ c := by
          rintro rfl
          exact hi [e] ⟨rest, rfl⟩ rfl
        exact ⟨.differs e c, if_neg hc.symm, rfl, rfl, hc⟩
      | slot s =>
        have hs : s.take (c :: rest) = none := take_eq_none_iff.2 hi
        refine ⟨.badValue s ((c :: rest).takeWhile (· != delimiter)), ?_, rfl, by simp, hi, rfl⟩
        rw [walk_slot (by simp), hs]

/-- At the end of the walk the only thing that can be wrong is the day. -/
theorem Point.toDate_eq_error_iff (ht : p.todo = []) (hr : p.rest = []) (e : ParseError) :
    p.fields.toDate = .error e ↔ e.TrueAt p := by
  obtain ⟨hok, herror⟩ := toDate_of_namesDay p.year_bounds
  by_cases hn : NamesDay p.fields
  · obtain ⟨d, -, hd⟩ := hok hn
    rw [hd]
    cases e <;> simp [ParseError.TrueAt, ht, hr, hn]
  · have htrue : (ParseError.noSuchDay p.fields).TrueAt p := ⟨ht, hr, rfl, hn⟩
    rw [herror hn]
    constructor
    · rintro ⟨⟩
      exact htrue
    · intro h
      rw [h.unique htrue]

theorem Point.Stuck.parse_eq_error_iff (hp : p.Stuck) (e : ParseError) :
    t.parse text = .error e ↔ e.TrueAt p := by
  rw [parse, p.walk_eq]
  rcases hp.walk_todo p.fields with ⟨ht, hr⟩ | ⟨e', he, htrue⟩
  · rw [← toDate_eq_error_iff ht hr, ht, hr]
    rfl
  · rw [he]
    constructor
    · rintro ⟨⟩
      exact htrue
    · intro h
      rw [h.unique htrue]

end Errors

/-- Every text has a furthest point in a template, and it is refused with an error exactly when
the error is true of this point. What stops the walk are shapes alone: the numbers in the pieces
are judged at the end, and then of each kind the last one counts. -/
theorem parse_eq_error_iff_trueAt (t : Template) (text : List Char) :
    ∃ p : Point t text, p.IsFurthest ∧ ∀ e, t.parse text = .error e ↔ e.TrueAt p := by
  obtain ⟨p, hf, hs⟩ := Point.exists_isFurthest t text
  exact ⟨p, hf, hs.parse_eq_error_iff⟩

/-- A month out of range does not stop the walk, which goes on to a day that is no number. -/
example : (ofText ['%', 'm', ':', '%', 'd']).parse ['1', '3', ':', 'x', ':'] =
    .error (.badValue .paddedDay ['x']) := by decide

end Template
end Redate
