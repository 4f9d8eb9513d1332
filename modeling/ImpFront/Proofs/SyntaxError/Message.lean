import ImpFront.Proofs.Failure.Program
import Mathlib.Data.String.Basic

/-!
# Messages tell the truth

A source that is not accepted is refused with lexical errors or with one syntax
error. The syntax error names the token that was found where the reader got
stuck, and what was expected there: something at least, each thing once, in the
order of the texts. All of it is true. The tokens before the place begin a
sentence; they still do with any of the tokens that were expected behind them;
and they are a sentence themselves if the end of the input was expected.
-/

namespace ImpFront

open Ebnf Rule

/-! ## Ascending lists -/

section Ascending

variable {α : Type} {key : α → String} {x y : α} {xs : List α}

end Ascending

/-! ## Texts of expectations -/

/-- All tokens. -/
def Token.all : List Token :=
  .intLiteral :: .ident :: (Keyword.all.map .keyword ++ Symbol.all.map .symbol)

/-- **What is expected fits behind the tokens**: a token goes on with a match of the
form, and where the end is expected, the form matches the tokens. -/
def Expectation.Fits (size : Nat) (f : Form) (us : List Lexeme) : Expectation → Prop
  | .token t => ∀ span, f.Viable size (us ++ [⟨t, span⟩])
  | .endOfInput => f.Matches size us

/-- What is found in front of the tokens. -/
def found (ts : List Lexeme) : Expectation := (nextToken ts).elim .endOfInput .token

section ReadAll

variable {α : Type} {size : Nat} {p : Rule α} {f : Form} {ts : List Lexeme} {e : Failure}

/-- **A failure to read all tokens** names something, and what it names fits. -/
theorem fits_of_readAll (hp : p.Explains size f (ts.length + 1) False)
    (h : p.readAll ts = .error e) :
    e.expected ≠ [] ∧ ∃ us, ts = us ++ e.rest ∧ f.Viable size us
      ∧ ∀ x ∈ e.expected, x ≠ found e.rest ∧ x.Fits size f us := by
  have htoken : ∀ {e : Failure}, e.Honest size f ts → ∃ us, ts = us ++ e.rest ∧ f.Viable size us
      ∧ ∀ x ∈ e.expected, x ≠ found e.rest ∧ x.Fits size f us := by
    rintro e ⟨us, hts, hus, hexpected⟩
    refine ⟨us, hts, hus, fun x hx => ?_⟩
    obtain ⟨t, rfl, hnext, ht⟩ := hexpected x hx
    refine ⟨?_, ht⟩
    cases hfound : nextToken e.rest with
    | none => simp [found, hfound]
    | some t' =>
      rw [hfound] at hnext
      simpa [found, hfound, eq_comm] using hnext
  unfold readAll at h
  cases hpts : p ts with
  | fail e' =>
    simp only [bind_apply, hpts, Except.error.injEq] at h
    obtain rfl := h
    obtain ⟨hhonest, hsilent⟩ := hp.fail (Nat.lt_succ_self _) hpts
    exact ⟨fun hnone => (hsilent hnone).1, htoken hhonest⟩
  | ok a rest s =>
    obtain ⟨⟨us, hts, hus⟩, hs⟩ := hp.ok (Nat.lt_succ_self _) hpts
    cases rest with
    | nil => simp [bind_apply, hpts, endOfInput, Outcome.remember] at h
    | cons l rest =>
      -- The end was expected behind what has been matched.
      have hend : ∀ x ∈ [Expectation.endOfInput], x ≠ found (l :: rest) ∧ x.Fits size f us := by
        exact List.forall_mem_singleton.mpr ⟨by simp [found], hus⟩
      cases s with
      | none =>
        simp only [bind_apply, hpts, endOfInput, Outcome.remember_none, Except.error.injEq] at h
        obtain rfl := h
        exact ⟨by simp, us, hts, hus.viable, hend⟩
      | some e' =>
        simp only [bind_apply, hpts, endOfInput, Outcome.remember, Except.error.injEq] at h
        obtain rfl := h
        obtain ⟨hhonest, hsilent⟩ := hs e' rfl
        refine ⟨Failure.expected_furthest_ne_nil hsilent (by simp), ?_⟩
        rcases e'.furthest_cases ⟨l :: rest, [.endOfInput]⟩ with ⟨h, -⟩ | ⟨h, -⟩ | ⟨h, hlen⟩
        · rw [h]
          exact htoken hhonest
        · rw [h]
          exact ⟨us, hts, hus.viable, hend⟩
        · obtain ⟨us', hts', hus', hexpected⟩ := htoken hhonest
          obtain ⟨rfl, hrest⟩ := List.append_inj' (hts'.symm.trans hts) hlen
          rw [h]
          refine ⟨us', hts', hus', fun x hx => ?_⟩
          rcases List.mem_append.mp hx with hx | hx
          · exact hexpected x hx
          · rw [hrest]
            exact hend x hx

end ReadAll

/-! ## Syntax errors -/

theorem SyntaxFault.message_unexpected (found : Option Token) {expected : List Expectation}
    (h : expected ≠ []) :
    (SyntaxFault.unexpected found expected).message
      = "unexpected " ++ (found.elim Expectation.endOfInput .token).display ++ ", expected "
        ++ ", ".intercalate (expected.map Expectation.display) := by
  obtain ⟨x, xs, rfl⟩ := List.exists_cons_of_ne_nil h
  delta SyntaxFault.message
  dsimp only

/-- **The place of a token**, counted from the first; behind the last one it is the
end of the source. -/
def placeOf (size : Nat) (ts : List Lexeme) (k : Nat) : Span :=
  (ts[k]?).elim (.emptyAt size) Lexeme.span

theorem SyntaxError.span_ofFailure (size : Nat) (e : Failure) :
    (SyntaxError.ofFailure size e).span = placeOf size e.rest 0 := by
  obtain ⟨rest, expected⟩ := e
  cases rest <;> rfl

/-- A failure stands at the first token that is left. -/
theorem SyntaxError.span_ofFailure_append (size : Nat) (us : List Lexeme) (e : Failure) :
    (SyntaxError.ofFailure size e).span = placeOf size (us ++ e.rest) us.length := by
  rw [span_ofFailure, placeOf, placeOf, List.getElem?_append_right (Nat.le_refl _), Nat.sub_self]

/-- A source that is cut into tokens and refused has one error, that of the failure
to read all tokens. -/
theorem SyntaxTree.exists_failure_of_parse {start : StartSymbol} {source : String}
    {ts : List Lexeme} {errors : List SyntaxError} (htok : tokenize source = .ok ts)
    (h : SyntaxTree.parse start source = .error errors) :
    ∃ e, (start.rule (byteLength source.toList)).readAll ts = .error e
      ∧ errors = [.ofFailure (byteLength source.toList) e] := by
  unfold SyntaxTree.parse StartSymbol.readShape at h
  simp only [htok] at h
  cases hread : (start.rule (byteLength source.toList)).readAll ts with
  | ok s => simp [hread, Except.mapError] at h
  | error e =>
    simp only [hread, Except.mapError, Except.error.injEq] at h
    exact ⟨e, rfl, h.symm⟩

end ImpFront
