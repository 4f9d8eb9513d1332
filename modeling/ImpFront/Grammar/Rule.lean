import ImpFront.Token.Lexer

/-!
# Rules

A `Rule` reads a value off the front of a list of tokens. The rules of the
language are put together from a handful of forms – a token, one rule after
another, a choice, an optional part, a repetition – and each form has an
equation of its own here.

**Choices are ordered and repetitions are greedy.** A choice takes the first
alternative that matches, a repetition goes on as long as its item matches, and
an item that fails is as if it had not been tried.

**Failures remember how far they got.** A failure keeps the tokens that were
left when it arose and what would have been acceptable there. A match can
*survive* failures – an optional part that was not there, the item that ended a
repetition – and keeps the furthest of them: if the input turns out to be wrong
right after, that failure says best what is wrong. Alternatives that fail before
one matches leave no trace.
-/

namespace ImpFront

/-- **What would have been acceptable** at some place of the input. -/
inductive Expectation
  | token (t : Token)
  | endOfInput
  deriving DecidableEq

/-- **Why a rule does not match**: the tokens left where it got stuck, and what
was expected instead. -/
structure Failure where
  /-- The tokens from the place of the failure on. -/
  rest : List Lexeme
  /-- What was expected there, in no particular order. -/
  expected : List Expectation
  deriving DecidableEq

/-- Of two failures the one that got further; at the same place, both. -/
def Failure.furthest (a b : Failure) : Failure :=
  if a.rest.length < b.rest.length then a
  else if b.rest.length < a.rest.length then b
  else ⟨a.rest, a.expected ++ b.expected⟩

/-- The further one of two failures that may be absent. -/
def furthest? : Option Failure → Option Failure → Option Failure
  | none, b => b
  | some a, none => some a
  | some a, some b => some (a.furthest b)

@[simp] theorem furthest?_none_left (b : Option Failure) : furthest? none b = b := rfl

@[simp] theorem furthest?_none_right (a : Option Failure) : furthest? a none = a := by
  cases a <;> rfl

/-- **What comes of applying a rule.** -/
inductive Outcome (α : Type)
  /-- The rule matches: its value, the tokens left, and the furthest failure
  survived on the way. -/
  | ok (value : α) (rest : List Lexeme) (survived : Option Failure)
  /-- The rule does not match. -/
  | fail (failure : Failure)

namespace Outcome

/-- Applies a function to the value. -/
def map {α β : Type} (f : α → β) : Outcome α → Outcome β
  | ok a rest survived => ok (f a) rest survived
  | fail e => fail e

/-- Takes into account a failure survived before. -/
def remember {α : Type} (earlier : Option Failure) : Outcome α → Outcome α
  | ok a rest survived => ok a rest (furthest? earlier survived)
  | fail e =>
    match earlier with
    | none => fail e
    | some e' => fail (e'.furthest e)

@[simp] theorem remember_none {α : Type} (o : Outcome α) : o.remember none = o := by
  cases o <;> rfl

end Outcome

/-- **A rule of the grammar**, as a reader of tokens. -/
def Rule (α : Type) : Type := List Lexeme → Outcome α

namespace Rule

variable {α β : Type}

/-- One rule after another; the second may depend on what the first has read. -/
protected def bind (p : Rule α) (f : α → Rule β) : Rule β := fun ts =>
  match p ts with
  | .ok a rest survived => (f a rest).remember survived
  | .fail e => .fail e

instance : Monad Rule where
  pure a := fun ts => .ok a ts none
  bind := Rule.bind

/-- The first of two rules that matches. -/
protected def orElse (p q : Rule α) : Rule α := fun ts =>
  match p ts with
  | .ok a rest survived => .ok a rest survived
  | .fail e =>
    match q ts with
    | .ok b rest survived => .ok b rest survived
    | .fail e' => .fail (e.furthest e')

instance : OrElse (Rule α) := ⟨fun p q => p.orElse (q ())⟩

/-- A part that may be missing. -/
def optional (p : Rule α) : Rule (Option α) := fun ts =>
  match p ts with
  | .ok a rest survived => .ok (some a) rest survived
  | .fail e => .ok none ts (some e)

/-- **As many items as there are.** An item that matches without reading
anything would match for ever; it ends the repetition. -/
def many (p : Rule α) (ts : List Lexeme) : Outcome (List α) :=
  match p ts with
  | .ok a rest survived =>
    if rest.length < ts.length then ((many p rest).map (a :: ·)).remember survived
    else .ok [a] rest survived
  | .fail e => .ok [] ts (some e)
termination_by ts.length

/-- At least one item, with separators between them. A separator that no item
follows is left where it is. -/
def separatedBy (item : Rule α) (separator : Rule β) : Rule (α × List α) := do
  let first ← item
  let others ← many (do let _ ← separator; item)
  return (first, others)

/-- A given token; the value is its place. -/
def token (t : Token) : Rule Span
  | [] => .fail ⟨[], [.token t]⟩
  | ⟨t', span⟩ :: rest =>
    if t' = t then .ok span rest none else .fail ⟨⟨t', span⟩ :: rest, [.token t]⟩

/-- A given keyword. -/
def keyword (k : Keyword) : Rule Span := token (.keyword k)

/-- A given symbol. -/
def symbol (s : Symbol) : Rule Span := token (.symbol s)

/-- **One of several operators.** Messages never suggest an operator, so nothing
counts as expected where none stands. -/
def operator (symbols : List Symbol) : Rule Span
  | ⟨.symbol s, span⟩ :: rest =>
    if s ∈ symbols then .ok span rest none else .fail ⟨⟨.symbol s, span⟩ :: rest, []⟩
  | ts => .fail ⟨ts, []⟩

/-- Nothing is left. -/
def endOfInput : Rule Unit
  | [] => .ok () [] none
  | ts => .fail ⟨ts, [.endOfInput]⟩

/-! ## One equation per form -/

@[simp] theorem pure_apply (a : α) (ts : List Lexeme) :
    (pure a : Rule α) ts = .ok a ts none := rfl

theorem bind_apply (p : Rule α) (f : α → Rule β) (ts : List Lexeme) :
    (p >>= f) ts = match p ts with
      | .ok a rest survived => (f a rest).remember survived
      | .fail e => .fail e := rfl

theorem orElse_apply (p q : Rule α) (ts : List Lexeme) :
    (p <|> q) ts = match p ts with
      | .ok a rest survived => .ok a rest survived
      | .fail e =>
        match q ts with
        | .ok b rest survived => .ok b rest survived
        | .fail e' => .fail (e.furthest e') := rfl

/-- A repetition tries its item and, if that read something, goes on behind
it. -/
theorem many_apply (p : Rule α) (ts : List Lexeme) :
    many p ts = match p ts with
      | .ok a rest survived =>
        if rest.length < ts.length then ((many p rest).map (a :: ·)).remember survived
        else .ok [a] rest survived
      | .fail e => .ok [] ts (some e) := by
  rw [many]

end Rule

end ImpFront
