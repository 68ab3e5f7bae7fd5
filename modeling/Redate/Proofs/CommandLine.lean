/-
Words of a command line. Up to the first double dash, which itself is none of them, a word may ask
for help or for the version; any other word is a value, whatever it begins with, and so is every
word behind the double dash. The main statement says which words are arguments, and that of all
others the first one from the left that is at fault tells the error; arguments are missing only
where no word is at fault.
-/
import Mathlib
import Redate.CommandLine

namespace Redate

/-! ## Words and their roles -/

/-- The words before the first double dash. -/
def leading (words : List String) : List String :=
  words.takeWhile (· ≠ "--")

/-- The words behind the first double dash. -/
def trailing (words : List String) : List String :=
  (words.dropWhile (· ≠ "--")).drop 1

/-- What a word is taken for. A value keeps in mind if an option might stand in its place. -/
inductive Role
  | help
  | version
  | value (word : String) (optionsAllowed : Bool)
  deriving DecidableEq

namespace Role

/-- The role of a word, by whether options are still read where it stands. -/
def ofWord (optionsAllowed : Bool) (word : String) : Role :=
  if optionsAllowed ∧ word ∈ ["-h", "--help"] then help
  else if optionsAllowed ∧ word ∈ ["-V", "--version"] then version
  else value word optionsAllowed

/-- The value of a role, if it is one. -/
def value? : Role → Option String
  | value word _ => some word
  | help | version => none

/-- What is wrong with a word that stands behind some number of values. Only the names of the two
files, which are the first and the third value, must not be empty. -/
def fault? (before : Nat) : Role → Option ArgumentError
  | help => some .help
  | version => some .version
  | value word optionsAllowed =>
    if 4 ≤ before then some (.unexpected word optionsAllowed)
    else if word = "" ∧ before = 0 then some (.emptyValue .inputFile)
    else if word = "" ∧ before = 2 then some (.emptyValue .outputFile)
    else none

end Role

/-- The roles of the words of a command line. -/
def roles (words : List String) : List Role :=
  (leading words).map (.ofWord true) ++ (trailing words).map (.ofWord false)

/-- The values among some roles. -/
def values (rs : List Role) : List String :=
  rs.filterMap Role.value?

/-- No word is at fault, where so many values stand before them. -/
def Faultless (before : Nat) (rs : List Role) : Prop :=
  ∀ pre r post, rs = pre ++ r :: post → r.fault? (before + (values pre).length) = none

/-- The roles of words that stand where options are allowed, or where they are not. -/
def rolesFrom (optionsAllowed : Bool) (words : List String) : List Role :=
  if optionsAllowed then roles words else words.map (.ofWord false)

theorem rolesFrom_nil (optionsAllowed : Bool) : rolesFrom optionsAllowed [] = [] := by
  cases optionsAllowed <;> rfl

theorem rolesFrom_dash (words : List String) :
    rolesFrom true ("--" :: words) = rolesFrom false words := by
  simp [rolesFrom, roles, leading, trailing]

theorem rolesFrom_cons {optionsAllowed : Bool} {word : String} (words : List String)
    (h : ¬ (optionsAllowed ∧ word = "--")) :
    rolesFrom optionsAllowed (word :: words) =
      .ofWord optionsAllowed word :: rolesFrom optionsAllowed words := by
  cases optionsAllowed with
  | false => rfl
  | true =>
    have hw : word ≠ "--" := fun hw => h ⟨rfl, hw⟩
    simp [rolesFrom, roles, leading, trailing, hw]

theorem Role.ofWord_of_option {optionsAllowed : Bool} {word : String} {e : ArgumentError}
    (h : (if optionsAllowed then optionOf? word else none) = some e) :
    (ofWord optionsAllowed word = help ∧ e = .help) ∨
      (ofWord optionsAllowed word = version ∧ e = .version) := by
  unfold optionOf? at h
  grind [ofWord]

theorem Role.ofWord_of_no_option {optionsAllowed : Bool} {word : String}
    (h : (if optionsAllowed then optionOf? word else none) = none) :
    ofWord optionsAllowed word = value word optionsAllowed := by
  unfold optionOf? at h
  grind [ofWord]

/-! ## Reading roles -/

/-- The values of the open parameters, read from the roles of the words. -/
def readRoles : List Parameter → List Role → Except ArgumentError (List String)
  | [], [] => .ok []
  | p :: ps, [] => .error (.missing (p :: ps))
  | _, .help :: _ => .error .help
  | _, .version :: _ => .error .version
  | [], .value word optionsAllowed :: _ => .error (.unexpected word optionsAllowed)
  | p :: ps, .value word _ :: rs =>
    if word = "" ∧ ¬ p.mayBeEmpty then .error (.emptyValue p)
    else (readRoles ps rs).map (word :: ·)

/-- Words are read by their roles. -/
theorem readValues_eq (optionsAllowed : Bool) (ps : List Parameter) (words : List String) :
    readValues optionsAllowed ps words = readRoles ps (rolesFrom optionsAllowed words) := by
  fun_induction readValues optionsAllowed ps words with
  | case1 => rw [rolesFrom_nil, readRoles]
  | case2 => rw [rolesFrom_nil, readRoles]
  | case3 optionsAllowed ps word words h ih =>
    obtain ⟨rfl, rfl⟩ := h
    rw [rolesFrom_dash, ih]
  | case4 optionsAllowed ps word words h e he =>
    rw [rolesFrom_cons words h]
    rcases Role.ofWord_of_option he with ⟨hr, rfl⟩ | ⟨hr, rfl⟩
    · rw [hr, readRoles]
    · rw [hr, readRoles]
  | case5 optionsAllowed word words h hn =>
    rw [rolesFrom_cons words h, Role.ofWord_of_no_option hn, readRoles]
  | case6 optionsAllowed word words h hn p ps hp =>
    rw [rolesFrom_cons words h, Role.ofWord_of_no_option hn, readRoles, if_pos hp]
  | case7 optionsAllowed word words h hn p ps hp ih =>
    rw [rolesFrom_cons words h, Role.ofWord_of_no_option hn, readRoles, if_neg hp, ih]

/-! ## Words without fault -/

theorem Role.exists_value_of_fault? {n : Nat} {r : Role} (h : r.fault? n = none) :
    ∃ word, r.value? = some word := by
  cases r with
  | help | version => cases h
  | value word optionsAllowed => exact ⟨word, rfl⟩

theorem values_cons {r : Role} {word : String} (h : r.value? = some word) (rs : List Role) :
    values (r :: rs) = word :: values rs :=
  List.filterMap_cons_some h

/-- A word that is not at fault is one more value before those behind it. -/
theorem add_length_values_cons {n : Nat} {r : Role} (h : r.fault? n = none) (rs : List Role) :
    n + (values (r :: rs)).length = n + 1 + (values rs).length := by
  obtain ⟨word, hw⟩ := Role.exists_value_of_fault? h
  rw [values_cons hw, List.length_cons]
  omega

theorem faultless_nil (n : Nat) : Faultless n [] := by
  intro pre r post h
  simp at h

theorem faultless_cons_iff {n : Nat} {r : Role} {rs : List Role} :
    Faultless n (r :: rs) ↔ r.fault? n = none ∧ Faultless (n + 1) rs := by
  constructor
  · intro h
    have hr : r.fault? n = none := h [] r rs rfl
    refine ⟨hr, ?_⟩
    rintro pre s post rfl
    rw [← add_length_values_cons hr]
    exact h (r :: pre) s post rfl
  · rintro ⟨hr, h⟩ pre s post hs
    cases pre with
    | nil =>
      cases hs
      exact hr
    | cons q pre =>
      cases hs
      rw [add_length_values_cons hr]
      exact h pre s post rfl

/-- If any word is at fault, there is a first one. -/
theorem faultless_or_exists_fault (n : Nat) (rs : List Role) :
    Faultless n rs ∨ ∃ pre r post e, rs = pre ++ r :: post ∧ Faultless n pre ∧
      r.fault? (n + (values pre).length) = some e := by
  induction rs generalizing n with
  | nil => exact .inl (faultless_nil n)
  | cons r rs ih =>
    cases hr : r.fault? n with
    | some e => exact .inr ⟨[], r, rs, e, rfl, faultless_nil n, hr⟩
    | none =>
      rcases ih (n + 1) with h | ⟨pre, s, post, e, rfl, h, he⟩
      · exact .inl (faultless_cons_iff.2 ⟨hr, h⟩)
      · refine .inr ⟨r :: pre, s, post, e, rfl, faultless_cons_iff.2 ⟨hr, h⟩, ?_⟩
        rw [add_length_values_cons hr, he]

/-! ## The first fault -/

theorem readRoles_of_fault {n : Nat} {r : Role} {e : ArgumentError} (h : r.fault? n = some e)
    (rs : List Role) : readRoles (Parameter.all.drop n) (r :: rs) = .error e := by
  cases r with
  | help | version => cases h; rw [readRoles]
  | value word optionsAllowed =>
    -- one case for each parameter, and one for no parameter left
    rcases n with _ | _ | _ | _ | n <;>
      simp_all [Role.fault?, Parameter.all, readRoles, Parameter.mayBeEmpty]

/-- A word that is not at fault is the value of the next parameter. -/
theorem readRoles_of_fault?_eq_none {n : Nat} {r : Role} {word : String} (h : r.fault? n = none)
    (hw : r.value? = some word) (rs : List Role) :
    readRoles (Parameter.all.drop n) (r :: rs) =
      (readRoles (Parameter.all.drop (n + 1)) rs).map (word :: ·) := by
  cases r with
  | help | version => cases h
  | value word optionsAllowed =>
    cases hw
    rcases n with _ | _ | _ | _ | n <;>
      simp_all [Role.fault?, Parameter.all, readRoles, Parameter.mayBeEmpty]

/-- Words without fault are the values of as many parameters. -/
theorem readRoles_append {n : Nat} {pre : List Role} (h : Faultless n pre) (rs : List Role) :
    readRoles (Parameter.all.drop n) (pre ++ rs) =
      (readRoles (Parameter.all.drop (n + (values pre).length)) rs).map (values pre ++ ·) := by
  induction pre generalizing n with
  | nil => cases hr : readRoles (Parameter.all.drop n) rs <;> simp [values, hr, Except.map]
  | cons r pre ih =>
    obtain ⟨hr, h⟩ := faultless_cons_iff.1 h
    obtain ⟨word, hw⟩ := Role.exists_value_of_fault? hr
    rw [List.cons_append, readRoles_of_fault?_eq_none hr hw, ih h, add_length_values_cons hr,
      values_cons hw]
    cases readRoles (Parameter.all.drop (n + 1 + (values pre).length)) rs <;> rfl

/-! ## Values that fit -/

/-- The words that ask for help or for the version. -/
def requestWords : List String :=
  ["-h", "--help", "-V", "--version"]

theorem Role.value?_ofWord_true (word : String) :
    (ofWord true word).value? = if word ∈ requestWords then none else some word := by
  grind [ofWord, value?, requestWords]

theorem Role.value?_ofWord_false (word : String) : (ofWord false word).value? = some word := by
  simp [ofWord, value?]

theorem map_value?_roles {words : List String} (h : ∀ word ∈ leading words, word ∉ requestWords) :
    (roles words).map Role.value? = (leading words ++ trailing words).map some := by
  rw [roles, List.map_append, List.map_append, List.map_map, List.map_map]
  refine congrArg₂ (· ++ ·) (List.map_congr_left fun word hw => ?_)
    (List.map_congr_left fun word _ => Role.value?_ofWord_false word)
  exact (Role.value?_ofWord_true word).trans (if_neg (h word hw))

/-- A request before the double dash is no value. -/
theorem none_mem_map_value?_roles {words : List String} {word : String}
    (hw : word ∈ leading words) (hr : word ∈ requestWords) :
    none ∈ (roles words).map Role.value? := by
  refine List.mem_map.2 ⟨.ofWord true word, ?_, ?_⟩
  · exact List.mem_append_left _ (List.mem_map_of_mem hw)
  · rw [Role.value?_ofWord_true, if_pos hr]

/-- All words are values if no request is among those where options are allowed. -/
theorem map_value?_roles_eq_iff {words vs : List String} :
    (roles words).map Role.value? = vs.map some ↔
      (∀ word ∈ leading words, word ∉ requestWords) ∧ leading words ++ trailing words = vs := by
  constructor
  · intro h
    have hn : ∀ word ∈ leading words, word ∉ requestWords := by
      intro word hw hr
      have hmem := none_mem_map_value?_roles hw hr
      rw [h] at hmem
      simp at hmem
    rw [map_value?_roles hn] at h
    exact ⟨hn, List.map_injective_iff.2 (Option.some_injective String) h⟩
  · rintro ⟨hn, rfl⟩
    exact map_value?_roles hn

/-- The words that are read are values, one for each parameter, and not empty but where they may
be. -/
theorem readRoles_eq_ok_iff {ps : List Parameter} {rs : List Role} {vs : List String} :
    readRoles ps rs = .ok vs ↔
      rs.map Role.value? = vs.map some ∧
        List.Forall₂ (fun p v => v = "" → p.mayBeEmpty) ps vs := by
  fun_induction readRoles ps rs generalizing vs with
  | case1 => cases vs <;> simp
  | case2 p ps => cases vs <;> simp
  | case3 | case4 => cases vs <;> simp [Role.value?]
  | case5 word optionsAllowed rs => cases vs <;> simp
  | case6 p ps word optionsAllowed rs h =>
    obtain ⟨rfl, hp⟩ := h
    refine iff_of_false nofun ?_
    rintro ⟨hv, hf⟩
    obtain ⟨v, vs, hpv, -, rfl⟩ := List.forall₂_cons_left_iff.1 hf
    simp only [List.map_cons, Role.value?, List.cons.injEq, Option.some.injEq] at hv
    exact hp (hpv hv.1.symm)
  | case7 p ps word optionsAllowed rs h ih =>
    have hmap : ∀ v vs, (readRoles ps rs).map (word :: ·) = .ok (v :: vs) ↔
        word = v ∧ readRoles ps rs = .ok vs := by
      intro v vs
      cases readRoles ps rs <;> simp [Except.map]
    cases vs with
    | nil => cases readRoles ps rs <;> simp [Except.map]
    | cons v vs =>
      rw [hmap, ih]
      simp only [List.map_cons, Role.value?, List.cons.injEq, Option.some.injEq, List.forall₂_cons]
      grind

/-! ## Command lines -/

namespace Arguments

/-- The arguments in their order. -/
def toList (args : Arguments) : List String :=
  [args.inputFile, args.inputFormat, args.outputFile, args.outputFormat]

theorem map_toList_ofWords (words : List String) :
    (ofWords words).map toList = readRoles Parameter.all (roles words) := by
  rw [show roles words = rolesFrom true words from rfl, ← readValues_eq]
  unfold ofWords
  cases h : readValues true Parameter.all words with
  | error e => rfl
  | ok vs =>
    have hl : vs.length = 4 := length_of_readValues h
    match vs, hl with
    | [a, b, c, d], _ => rfl

theorem ofWords_eq_ok_iff {words : List String} {args : Arguments} :
    ofWords words = .ok args ↔ readRoles Parameter.all (roles words) = .ok args.toList := by
  rw [← map_toList_ofWords]
  cases ofWords words with
  | error e => simp [Except.map]
  | ok args' =>
    obtain ⟨a, b, c, d⟩ := args
    obtain ⟨a', b', c', d'⟩ := args'
    simp [Except.map, toList]

theorem ofWords_eq_error_iff {words : List String} {e : ArgumentError} :
    ofWords words = .error e ↔ readRoles Parameter.all (roles words) = .error e := by
  rw [← map_toList_ofWords]
  cases ofWords words <;> simp [Except.map]

/-- Words are arguments if none of them asks for something and they are four, of which the first and
the third are not empty. -/
theorem ofWords_eq_ok_iff_four {words : List String} {args : Arguments} :
    ofWords words = .ok args ↔
      (∀ word ∈ leading words, word ∉ requestWords) ∧
        leading words ++ trailing words = args.toList ∧
        args.inputFile ≠ "" ∧ args.outputFile ≠ "" := by
  rw [ofWords_eq_ok_iff, readRoles_eq_ok_iff, map_value?_roles_eq_iff, and_assoc]
  simp [Parameter.all, toList, Parameter.mayBeEmpty]

/-- The first word at fault tells the error. -/
theorem ofWords_of_fault {words : List String} {pre post : List Role} {r : Role} {e : ArgumentError}
    (hw : roles words = pre ++ r :: post) (hp : Faultless 0 pre)
    (he : r.fault? (values pre).length = some e) : ofWords words = .error e := by
  have h := readRoles_append hp (r :: post)
  rw [Nat.zero_add, readRoles_of_fault he, ← hw] at h
  exact ofWords_eq_error_iff.2 h

/-- Without a fault the only thing that can be wrong is that values are missing. -/
theorem ofWords_of_faultless {words : List String} (h : Faultless 0 (roles words))
    (e : ArgumentError) :
    ofWords words = .error e ↔ (values (roles words)).length < 4 ∧
      e = .missing (Parameter.all.drop (values (roles words)).length) := by
  have h := readRoles_append h []
  rw [List.append_nil, Nat.zero_add, List.drop_zero] at h
  rw [ofWords_eq_error_iff, h]
  generalize (values (roles words)).length = n
  rcases n with _ | _ | _ | _ | n <;>
    simp [Parameter.all, readRoles, Except.map, eq_comm]

/-- A command line is read word by word. It gives arguments just when no word before the double dash
asks for something and the words are four, of which the first and the third are not empty; the
arguments are these words. Otherwise the first word that is at fault tells the error: a request, an
empty name of a file, or a fifth value. Where no word is at fault there are fewer than four values,
and the others are missing. Behind a double dash any four words are arguments, if only the names of
the files are not empty. -/
theorem ofWords_first_fault (words : List String) :
    (∀ args, ofWords words = .ok args ↔
      (∀ word ∈ leading words, word ∉ requestWords) ∧
        leading words ++ trailing words =
          [args.inputFile, args.inputFormat, args.outputFile, args.outputFormat] ∧
        args.inputFile ≠ "" ∧ args.outputFile ≠ "") ∧
    (∀ e, ofWords words = .error e ↔
      (∃ pre r post, roles words = pre ++ r :: post ∧ Faultless 0 pre ∧
        r.fault? (values pre).length = some e) ∨
      Faultless 0 (roles words) ∧ (values (roles words)).length < 4 ∧
        e = .missing (Parameter.all.drop (values (roles words)).length)) ∧
    ∀ a b c d, ofWords ["--", a, b, c, d] = .ok ⟨a, b, c, d⟩ ↔ a ≠ "" ∧ c ≠ "" := by
  refine ⟨fun args => ofWords_eq_ok_iff_four, fun e => ⟨fun h => ?_, ?_⟩, fun a b c d => ?_⟩
  · rcases faultless_or_exists_fault 0 (roles words) with hf | ⟨pre, r, post, e', hw, hp, he⟩
    · exact .inr ⟨hf, (ofWords_of_faultless hf e).1 h⟩
    · rw [Nat.zero_add] at he
      cases (ofWords_of_fault hw hp he).symm.trans h
      exact .inl ⟨pre, r, post, hw, hp, he⟩
  · rintro (⟨pre, r, post, hw, hp, he⟩ | ⟨hf, h⟩)
    · exact ofWords_of_fault hw hp he
    · exact (ofWords_of_faultless hf e).2 h
  · rw [ofWords_eq_ok_iff_four]
    simp [leading, trailing, toList]

/-- The empty name of a file comes before the request and the missing value. -/
example : ofWords ["a", "", "", "--help"] = .error (.emptyValue .outputFile) := by decide

end Arguments
end Redate
