/-
The first decomposition of a text, found without trying one decomposition after the other. Threads
advance over the tokens side by side, in order of preference; of two threads that have come to the
same position only the preferred one goes on. The main statement says that this finds the head of
`decompositions`.
-/
import Std.Data.HashSet.Lemmas
import Redate.Matching.Choice

namespace Redate

/-! ## Threads -/

/-- A decomposition under way: how many characters it has taken, what they leave, and the parts
so far with the latest first. -/
structure Thread where
  position : Nat
  rest : List Char
  parts : List Part

namespace Thread

/-- The ways of a thread over one more token. -/
def advance (t : Token) (th : Thread) : List Thread :=
  (t.choices th.rest).map fun c =>
    ⟨th.position + c.text.length, c.rest, ⟨t, c.taken⟩ :: th.parts⟩

/-- The threads whose positions were not seen before them. -/
def keepFirst (seen : Std.HashSet Nat) : List Thread → List Thread
  | [] => []
  | th :: ths =>
    if th.position ∈ seen then keepFirst seen ths
    else th :: keepFirst (seen.insert th.position) ths

/-- The preferred thread that gets over all tokens. -/
def run : List Token → List Thread → Option Decomposition
  | [], ths => ths.head?.map fun th => ⟨th.parts.reverse, th.rest⟩
  | _ :: _, [] => none
  | t :: ts, th :: ths => run ts (keepFirst ∅ ((th :: ths).flatMap (advance t)))

end Thread

/-- The preferred decomposition at the front of a text. -/
def firstDecomposition (tokens : List Token) (text : List Char) : Option Decomposition :=
  Thread.run tokens [⟨0, text, []⟩]

/-! ## It is the head of all decompositions -/

namespace Thread

/-- What a thread comes to, if all its ways over the tokens are tried in order. -/
def complete (ts : List Token) (th : Thread) : Option Decomposition :=
  (decompositions ts th.rest).head?.map fun d => ⟨th.parts.reverse ++ d.parts, d.rest⟩

/-- The thread has taken its characters from the front of `text`. -/
def In (text : List Char) (th : Thread) : Prop :=
  th.rest = text.drop th.position

theorem In.advance {text : List Char} {t : Token} {th th' : Thread} (h : th.In text)
    (h' : th' ∈ th.advance t) : th'.In text := by
  obtain ⟨c, hc, rfl⟩ := List.mem_map.1 h'
  have := Token.append_of_mem_choices hc
  show c.rest = text.drop (th.position + c.text.length)
  rw [← List.drop_drop, ← h, ← this, List.drop_left]

theorem mem_of_mem_keepFirst {seen : Std.HashSet Nat} {ths : List Thread} {th : Thread}
    (h : th ∈ keepFirst seen ths) : th ∈ ths := by
  fun_induction keepFirst seen ths with
  | case1 => exact h
  | case2 seen th' ths _ ih => exact List.mem_cons_of_mem _ (ih h)
  | case3 seen th' ths _ ih =>
    rcases List.mem_cons.1 h with rfl | h
    · exact List.mem_cons_self
    · exact List.mem_cons_of_mem _ (ih h)

theorem findSome?_keepFirst {β : Type} {f : Thread → Option β} {seen : Std.HashSet Nat}
    {ths : List Thread}
    (hf : ∀ a ∈ ths, ∀ b ∈ ths, a.position = b.position → f a = none → f b = none)
    (hs : ∀ th ∈ ths, th.position ∈ seen → f th = none) :
    (keepFirst seen ths).findSome? f = ths.findSome? f := by
  fun_induction keepFirst seen ths with
  | case1 => rfl
  | case2 seen th ths h ih =>
    rw [List.findSome?_cons, hs th List.mem_cons_self h]
    exact ih (fun a ha b hb => hf a (List.mem_cons_of_mem _ ha) b (List.mem_cons_of_mem _ hb))
      fun a ha => hs a (List.mem_cons_of_mem _ ha)
  | case3 seen th ths _ ih =>
    rw [List.findSome?_cons, List.findSome?_cons]
    cases hth : f th with
    | some x => rfl
    | none =>
      refine ih (fun a ha b hb => hf a (List.mem_cons_of_mem _ ha) b (List.mem_cons_of_mem _ hb))
        fun a ha has => ?_
      rcases Std.HashSet.mem_insert.1 has with h | h
      · exact hf th List.mem_cons_self a (List.mem_cons_of_mem _ ha) (eq_of_beq h) hth
      · exact hs a (List.mem_cons_of_mem _ ha) h

theorem findSome?_advance (t : Token) (ts : List Token) (th : Thread) :
    (th.advance t).findSome? (complete ts) = th.complete (t :: ts) := by
  rw [advance, List.findSome?_map, complete, decompositions, List.head?_flatMap, List.map_findSome?]
  congr 1
  funext c
  simp only [Function.comp_apply, complete, List.head?_map, Option.map_map, List.reverse_cons,
    List.append_assoc, List.singleton_append]
  rfl

theorem complete_none_of_position {text : List Char} {ts : List Token} {a b : Thread}
    (ha : a.In text) (hb : b.In text) (hab : a.position = b.position)
    (h : a.complete ts = none) : b.complete ts = none := by
  have hr : b.rest = a.rest := by rw [ha, hb, hab]
  simpa [complete, hr] using h

theorem run_eq (text : List Char) (ts : List Token) (ths : List Thread)
    (h : ∀ th ∈ ths, th.In text) : run ts ths = ths.findSome? (complete ts) := by
  fun_induction run ts ths with
  | case1 ths => cases ths <;> simp [complete, decompositions]
  | case2 => rfl
  | case3 t ts th ths ih =>
    have hin : ∀ th' ∈ (th :: ths).flatMap (advance t), th'.In text := by
      intro th' hth'
      obtain ⟨a, ha, h'⟩ := List.mem_flatMap.1 hth'
      exact (h a ha).advance h'
    rw [ih fun th' hth' => hin th' (mem_of_mem_keepFirst hth'),
      findSome?_keepFirst
        (fun a ha b hb hab => complete_none_of_position (hin a ha) (hin b hb) hab) (by simp)]
    generalize th :: ths = all
    induction all with
    | nil => rfl
    | cons a all ihall =>
      rw [List.flatMap_cons, List.findSome?_append, findSome?_advance, ihall, List.findSome?_cons]
      cases a.complete (t :: ts) <;> rfl

end Thread

theorem firstDecomposition_eq (tokens : List Token) (text : List Char) :
    firstDecomposition tokens text = (decompositions tokens text).head? := by
  rw [firstDecomposition, Thread.run_eq text _ _ (by simp [Thread.In])]
  simp only [List.findSome?_cons, List.findSome?_nil, Thread.complete, List.reverse_nil,
    List.nil_append]
  cases (decompositions tokens text).head? <;> rfl

theorem append_of_firstDecomposition {tokens : List Token} {text : List Char} {d : Decomposition}
    (h : firstDecomposition tokens text = some d) : d.text ++ d.rest = text :=
  append_of_mem_decompositions (List.mem_of_mem_head? (firstDecomposition_eq tokens text ▸ h))

end Redate
