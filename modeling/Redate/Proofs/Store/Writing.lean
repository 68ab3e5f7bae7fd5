/-
What writing a file does to a store. A file is created only where a walk has come to a file, or to
a name that nothing has; so the path that led there leads to the file afterwards, and it reads as
it was written. All other entries stay.
-/
import Mathlib
import Redate.Store

namespace Redate

namespace Store

/-! ## Entries -/

theorem get?_eq_directory_iff {s : Store} {p : Path} :
    s.get? p = some .directory ↔ p = [] ∨ p ∈ s.directories := by
  unfold get?
  split
  · next h => exact ⟨fun _ => h, fun _ => rfl⟩
  · next h => exact ⟨fun h' => by simp at h', fun h' => absurd h' h⟩

theorem put_put (s : Store) (p : Path) (bytes bytes' : ByteArray) :
    (s.put p bytes).put p bytes' = s.put p bytes' := by
  simp [put, List.filter_filter]

/-! ## Walks -/

/-- The place is of a file with this path, which is there or may be created. -/
def Place.OfFile (p : Path) : Place → Prop
  | .directory => False
  | .file q _ | .vacant q => q = p

/-- A walk to the place of a file comes to the file when it is written, for no directory stands
there and none on the way is written over. -/
theorem walk_put {s : Store} {here p : Path} {names : List String} {place : Place}
    (h : s.walk here names = .ok place) (hp : place.OfFile p) (bytes : ByteArray) :
    s.get? p ≠ some .directory ∧ (s.put p bytes).walk here names = .ok (.file p bytes) := by
  induction names generalizing here with
  | nil =>
    cases h
    exact hp.elim
  | cons name names ih =>
    rw [walk] at h ⊢
    by_cases hdot : name = "" ∨ name = "."
    · rw [if_pos hdot] at h ⊢
      exact ih h
    rw [if_neg hdot] at h ⊢
    by_cases hup : name = ".."
    · rw [if_pos hup] at h ⊢
      exact ih h
    rw [if_neg hup] at h ⊢
    by_cases hlong : nameLimit < name.utf8ByteSize
    · rw [if_pos hlong] at h
      cases h
    rw [if_neg hlong] at h ⊢
    by_cases hg : s.get? (here ++ [name]) = some .directory
    · simp only [hg] at h
      obtain ⟨hd, hw⟩ := ih h
      have hne : here ++ [name] ≠ p := fun he => hd (he ▸ hg)
      rw [get?_put_of_ne hne, hg]
      exact ⟨hd, hw⟩
    · -- no directory stands at the name, so it is the last one and the walk ends there
      obtain ⟨rfl, rfl⟩ : names = [] ∧ here ++ [name] = p := by
        split at h
        · next hd => exact absurd hd hg
        all_goals
          split at h
          · next hnil =>
            cases h
            exact ⟨hnil, hp⟩
          · cases h
      rw [get?_put_self fun h' => hg (get?_eq_directory_iff.2 h')]
      exact ⟨hg, if_pos rfl⟩

theorem resolve_put {s : Store} {path : String} {p : Path} {place : Place}
    (h : s.resolve path = .ok place) (hp : place.OfFile p) (bytes : ByteArray) :
    s.get? p ≠ some .directory ∧ (s.put p bytes).resolve path = .ok (.file p bytes) := by
  unfold resolve at h ⊢
  split at h
  · cases h
  · exact walk_put h hp bytes

/-! ## Paths of files -/

/-- A walk that ends with an empty name ends at a directory. -/
theorem not_ofFile_of_walk_concat_empty {s : Store} {here p : Path} {names : List String}
    {place : Place} (h : s.walk here (names ++ [""]) = .ok place) : ¬ place.OfFile p := by
  induction names generalizing here with
  | nil =>
    cases h
    exact id
  | cons name names ih =>
    rw [List.cons_append, walk] at h
    split at h
    · exact ih h
    split at h
    · exact ih h
    split at h
    · cases h
    split at h
    · exact ih h
    all_goals
      rw [if_neg (by simp)] at h
      cases h

theorem splitSlashes_ne_nil (cs : List Char) : splitSlashes cs ≠ [] := by
  fun_cases splitSlashes cs <;> simp

theorem splitSlashes_concat_slash (cs : List Char) :
    splitSlashes (cs ++ ['/']) = splitSlashes cs ++ [[]] := by
  induction cs with
  | nil => rfl
  | cons c cs ih =>
    rw [List.cons_append, splitSlashes, splitSlashes, ih]
    cases h : splitSlashes cs with
    | nil => exact absurd h (splitSlashes_ne_nil cs)
    | cons name names => split <;> rfl

/-- A written path with a slash at its end, or with slashes only, ends with an empty name. -/
theorem exists_pathNames_eq_concat_empty {path : String}
    (h : path.toList.getLast? = some '/' ∨ namesBefore? (pathNames path) = none) :
    ∃ names, pathNames path = names ++ [""] := by
  rcases h with h | h
  · obtain ⟨cs, hcs⟩ := List.getLast?_eq_some_iff.1 h
    refine ⟨(splitSlashes cs).map String.ofList, ?_⟩
    rw [pathNames, hcs, splitSlashes_concat_slash, List.map_append]
    rfl
  · unfold namesBefore? at h
    split at h
    · next hnames =>
      rcases List.eq_nil_or_concat (pathNames path) with hnil | ⟨names, name, hlast⟩
      · exact absurd (List.map_eq_nil_iff.1 hnil) (splitSlashes_ne_nil _)
      · have hname : name = "" := by
          have hall := List.dropWhile_eq_nil_iff.1 hnames name (by simp [hlast])
          simpa using hall
        exact ⟨names, by rw [hlast, List.concat_eq_append, hname]⟩
    · cases h

/-- A file can be created where its path leads to a file, or to a name that nothing has. -/
theorem creatable_eq_ok_iff {s : Store} {path : String} {p : Path} :
    s.creatable path = .ok p ↔ ∃ place, s.resolve path = .ok place ∧ place.OfFile p := by
  unfold creatable resolve
  cases refusal? path with
  | some cause => simp
  | none =>
    simp only
    by_cases hend : path.toList.getLast? = some '/' ∨ namesBefore? (pathNames path) = none
    · obtain ⟨names, hnames⟩ := exists_pathNames_eq_concat_empty hend
      refine ⟨fun h => ?_, fun ⟨place, hw, hp⟩ => ?_⟩
      · -- such a path is refused wherever it leads
        split at h
        · cases h
        · next before hb =>
          rw [if_pos (hend.resolve_right (by simp [hb]))] at h
          cases hw : s.walk [] (before ++ [""]) <;> rw [hw] at h <;> cases h
      · simp only [hnames] at hw
        exact absurd hp (not_ofFile_of_walk_concat_empty hw)
    · obtain ⟨hslash, hbefore⟩ := not_or.1 hend
      obtain ⟨before, hb⟩ := Option.ne_none_iff_exists'.1 hbefore
      simp only [hb, if_neg hslash]
      rcases s.walk [] (pathNames path) with cause | (_ | ⟨q, bytes⟩ | q) <;> simp [Place.OfFile]

theorem read_eq_ok_iff {s : Store} {path : String} {bytes : ByteArray} :
    s.read path = .ok bytes ↔ ∃ p, s.resolve path = .ok (.file p bytes) := by
  unfold read
  split
  · next h => simp [h]
  · next h => simp [h]
  · next h => simp [h]
  · next h => simp [h]

/-- A file that was created and written is there, and its path reads as the bytes written. -/
theorem read_put {s : Store} {path : String} {p : Path} (h : s.creatable path = .ok p)
    (bytes : ByteArray) :
    (s.put p bytes).get? p = some (.file bytes) ∧ (s.put p bytes).read path = .ok bytes := by
  obtain ⟨place, hw, hp⟩ := creatable_eq_ok_iff.1 h
  obtain ⟨hd, hw'⟩ := resolve_put hw hp bytes
  exact ⟨get?_put_self fun h' => hd (get?_eq_directory_iff.2 h'), read_eq_ok_iff.2 ⟨p, hw'⟩⟩

end Store
end Redate
