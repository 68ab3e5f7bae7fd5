/-
Output formats: how dates are written. A format is compiled to steps, in which literal characters
that stand together form one run; writing the steps is writing the tokens one by one. The steps are
also put together in a loop over the tokens, which holds literal characters back until their run is
over.
-/
import Redate.Format.Token

namespace Redate

/-- What is written at one go: a run of literal characters, or what a tag writes. -/
inductive Step
  | literal (text : List Char)
  | tag (t : Tag)
  deriving DecidableEq, Repr

namespace Step

/-- The steps with one more token in front: a literal joins the run it meets. -/
def push : Token → List Step → List Step
  | .literal c, .literal text :: steps => .literal (c :: text) :: steps
  | .literal c, steps => .literal [c] :: steps
  | .tag t, steps => .tag t :: steps

/-- The steps of some tokens. -/
def ofTokens (tokens : List Token) : List Step :=
  tokens.foldr push []

/-- The text that a step writes of a date. -/
def render (d : Date) : Step → List Char
  | literal text => text
  | tag t => t.render d

end Step

/-- The text of a date as a token writes it. -/
def Token.render (d : Date) : Token → List Char
  | tag t => t.render d
  | literal c => [c]

/-- How far the steps of a format have come: literal characters behind the last tag are pending,
since more of them may follow. -/
structure StepBuilder where
  steps : List Step
  pending : List Char

namespace StepBuilder

/-- The steps, with the pending characters as a run of their own if there are any. -/
def flush (b : StepBuilder) : List Step :=
  if b.pending = [] then b.steps else b.steps ++ [.literal b.pending]

/-- The builder after one more token. -/
def take (b : StepBuilder) : Token → StepBuilder
  | .literal c => { b with pending := b.pending ++ [c] }
  | .tag t => ⟨b.flush ++ [.tag t], []⟩

/-- The steps of some tokens, taken from left to right. -/
def build (ts : List Token) : List Step :=
  (ts.foldl take ⟨[], []⟩).flush

end StepBuilder

/-- A format to write dates in, with its steps. -/
structure OutputFormat where
  text : String
  steps : List Step
  steps_eq : steps = Step.ofTokens (tokenize text.toList)
  deriving DecidableEq

namespace OutputFormat

/-- The output format of a text. It never fails: what is no tag is literal text. -/
def compile (text : String) : OutputFormat :=
  ⟨text, Step.ofTokens (tokenize text.toList), rfl⟩

/-- The text of a date in the format. -/
def render (f : OutputFormat) (d : Date) : List Char :=
  f.steps.flatMap (Step.render d)

theorem compile_eq_iff {text : String} {f : OutputFormat} : compile text = f ↔ f.text = text := by
  constructor
  · rintro rfl
    rfl
  · rintro rfl
    obtain ⟨text, steps, rfl⟩ := f
    rfl

end OutputFormat

theorem Step.flatMap_render_push (d : Date) (t : Token) (steps : List Step) :
    (push t steps).flatMap (Step.render d) = t.render d ++ steps.flatMap (Step.render d) := by
  fun_cases push t steps <;> simp [Step.render, Token.render]

theorem Step.flatMap_render_ofTokens (d : Date) (tokens : List Token) :
    (ofTokens tokens).flatMap (Step.render d) = tokens.flatMap (Token.render d) := by
  unfold ofTokens
  induction tokens with
  | nil => rfl
  | cons t ts ih => rw [List.foldr_cons, flatMap_render_push, ih, List.flatMap_cons]

/-- A date is written token by token. -/
theorem OutputFormat.render_eq (f : OutputFormat) (d : Date) :
    f.render d = (tokenize f.text.toList).flatMap (Token.render d) := by
  rw [render, f.steps_eq, Step.flatMap_render_ofTokens]

end Redate
