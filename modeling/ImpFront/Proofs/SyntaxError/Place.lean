import ImpFront.Proofs.SyntaxError.Message
import Mathlib.Data.Nat.Find
import Mathlib.Order.Bounds.Basic

/-!
# Where syntax errors stand

A reader could at best stop at the first token that no sentence goes on with, or at
the end if all tokens begin a sentence. The error of a source that is refused stands
exactly there – unless a call is open at that place. The rule for a call fails as a
whole then, its name is read as a variable, and the failure of the call is
forgotten, so that the error stands at the parenthesis of the outermost call that
is open. Which one that is does not depend on how the tokens are completed to a
sentence.
-/

namespace ImpFront

open Ebnf Rule

section ReadAll

variable {α : Type} {p : Rule α} {ts : List Lexeme} {e : Failure}

/-- The failure to read all tokens is the furthest one. -/
theorem length_rest_of_readAll (h : p.readAll ts = .error e) : e.rest.length = (p ts).reach := by
  unfold readAll at h
  cases hpts : p ts with
  | fail e' =>
    simp only [bind_apply, hpts, Except.error.injEq] at h
    rw [h]
    rfl
  | ok a rest s =>
    cases rest with
    | nil => simp [bind_apply, hpts, endOfInput, Outcome.remember] at h
    | cons l rest =>
      cases s with
      | none =>
        simp only [bind_apply, hpts, endOfInput, Outcome.remember_none, Except.error.injEq] at h
        rw [← h]
        rfl
      | some e' =>
        simp only [bind_apply, hpts, endOfInput, Outcome.remember, Except.error.injEq] at h
        rw [← h]
        exact length_rest_furthest e' _

end ReadAll

/-- **The first token that no phrase goes on with**, counted from zero; if all of them
begin a phrase, their number. -/
def Ebnf.Form.IsFirstBad (size : Nat) (f : Form) (ts : List Lexeme) : Nat → Prop :=
  IsLeast {k | ts.length ≤ k ∨ ¬ f.Viable size (ts.take (k + 1))}

section FirstBad

variable {size m : Nat} {f : Form} {ts : List Lexeme}

theorem exists_isFirstBad (size : Nat) (f : Form) (ts : List Lexeme) :
    ∃ m, f.IsFirstBad size ts m := by
  classical
  have hsome : ∃ k, ts.length ≤ k ∨ ¬ f.Viable size (ts.take (k + 1)) :=
    ⟨ts.length, .inl (Nat.le_refl _)⟩
  exact ⟨Nat.find hsome, Nat.find_spec hsome, fun k hk => Nat.find_min' hsome hk⟩

/-- The tokens before the first bad one begin a phrase. -/
theorem Ebnf.Form.IsFirstBad.viable (h : f.IsFirstBad size ts m) (hf : ∃ us, f.Matches size us) :
    f.Viable size (ts.take m) := by
  cases m with
  | zero => exact hf
  | succ k =>
    by_contra hnot
    have := h.2 (.inr hnot)
    omega

/-- No phrase goes on with it. -/
theorem Ebnf.Form.IsFirstBad.stuck (h : f.IsFirstBad size ts m) :
    f.Stuck size (ts.take m) (ts.drop m) := by
  intro l hl hviable
  rw [List.head?_drop, Option.mem_def] at hl
  obtain ⟨hlt, rfl⟩ := List.getElem?_eq_some_iff.mp hl
  rw [List.take_append_getElem] at hviable
  exact h.1.elim (fun hle => by omega) fun hnot => hnot hviable

end FirstBad

/-- **The reader has got stuck** at the first bad token, or at the call that is open. -/
theorem rest_of_readAll {α : Type} {size m : Nat} {p : Rule α} {f : Form} {ts d : List Lexeme}
    {e : Failure} (hp : p.Blames size f (ts.length + 1) False) (h : p.readAll ts = .error e)
    (hm : f.IsFirstBad size ts m) (hbegun : Begun size f (ts.take m) d) :
    e.rest = d ++ ts.drop m := by
  obtain ⟨-, us, hts, -⟩ := fits_of_readAll hp.toExplains h
  obtain ⟨c, hc⟩ := hbegun.suffix
  have hsplit : ts = c ++ (d ++ ts.drop m) := by
    rw [← List.append_assoc, hc, List.take_append_drop]
  have hlen : e.rest.length = (d ++ ts.drop m).length := by
    have hreach := hp.located (by simp) hbegun hm.stuck
    rw [List.take_append_drop] at hreach
    rw [length_rest_of_readAll h, hreach]
  exact (List.append_inj' (hts.symm.trans hsplit) hlen).2

/-- **The error stands where it should**: the tokens before the `m`-th begin a sentence,
`d` is what stands open behind them, and no sentence goes on with the `m`-th. -/
structure SyntaxError.Located (size : Nat) (f : Form) (ts : List Lexeme) (m : Nat)
    (d : List Lexeme) (e : SyntaxError) : Prop where
  /-- The `m`-th token is the first bad one. -/
  firstBad : f.IsFirstBad size ts m
  /-- What stands open is the same for all sentences that begin like this. -/
  unique : ∀ d', Begun size f (ts.take m) d' ↔ d' = d
  /-- If no call is open, the error stands at the first bad token, or at the end. -/
  atToken : d = [] → e.span = placeOf size ts m
  /-- If calls are open, it stands at the parenthesis of the outermost one. -/
  atCall : d ≠ [] → ∃ j opening, ts[j]? = some ⟨.symbol .openParen, opening⟩
    ∧ d = (ts.take m).drop j ∧ e.span = opening

theorem SyntaxError.located_ofFailure {α : Type} {size m : Nat} {p : Rule α} {f : Form}
    {ts d : List Lexeme} {e : Failure} (hp : p.Blames size f (ts.length + 1) False)
    (h : p.readAll ts = .error e) (hm : f.IsFirstBad size ts m)
    (hbegun : Begun size f (ts.take m) d) :
    (SyntaxError.ofFailure size e).Located size f ts m d := by
  have hrest := rest_of_readAll hp h hm hbegun
  constructor
  case firstBad => exact hm
  case unique =>
    refine fun d' => ⟨fun hbegun' => ?_, fun heq => heq ▸ hbegun⟩
    have hrest' := rest_of_readAll hp h hm hbegun'
    exact List.append_cancel_right (hrest'.symm.trans hrest)
  case atToken =>
    intro hd
    rw [span_ofFailure, hrest, hd, List.nil_append, placeOf, placeOf, List.getElem?_drop,
      Nat.add_zero]
  case atCall =>
    intro hd
    obtain ⟨opening, ds, rfl⟩ := hbegun.openParen hd
    obtain ⟨c, hc⟩ := hbegun.suffix
    refine ⟨c.length, opening, ?_, ?_, ?_⟩
    · rw [← List.take_append_drop m ts, ← hc, List.append_assoc,
        List.getElem?_append_right (Nat.le_refl _), Nat.sub_self]
      rfl
    · rw [← hc, List.drop_left]
    · rw [span_ofFailure, hrest]
      rfl

/-- **Where the error of a refused source stands**: at the first token that no sentence
goes on with, or at the end of the source – but if calls are open there, at the
parenthesis of the outermost one. -/
theorem SyntaxTree.error_located (start : StartSymbol) (source : String) {ts : List Lexeme}
    {errors : List SyntaxError} (htok : tokenize source = .ok ts)
    (h : SyntaxTree.parse start source = .error errors) :
    ∃ e m d, errors = [e]
      ∧ e.Located (byteLength source.toList) (.rule start.nonterminal) ts m d := by
  obtain ⟨e, hread, rfl⟩ := exists_failure_of_parse htok h
  have hblames : (start.rule (byteLength source.toList)).Blames (byteLength source.toList)
      (.rule start.nonterminal) (ts.length + 1) False :=
    Grammar.start_blames start
  obtain ⟨m, hm⟩ := exists_isFirstBad (byteLength source.toList) (.rule start.nonterminal) ts
  obtain ⟨d, hd⟩ := exists_begun (hm.viable hblames.completable)
  exact ⟨_, m, d, rfl, SyntaxError.located_ofFailure hblames hread hm hd⟩

/-- A comma that no argument follows: the error stands at the parenthesis. -/
theorem SyntaxTree.error_located_call :
    tokenize "f(1,)" = .ok [⟨.ident, ⟨0, 1⟩⟩, ⟨.symbol .openParen, ⟨1, 2⟩⟩, ⟨.intLiteral, ⟨2, 3⟩⟩,
        ⟨.symbol .comma, ⟨3, 4⟩⟩, ⟨.symbol .closeParen, ⟨4, 5⟩⟩]
      ∧ SyntaxTree.parse .expression "f(1,)"
        = .error [⟨⟨1, 2⟩, .unexpected (some (.symbol .openParen)) [.endOfInput]⟩]
      ∧ ∃ e m d, [(⟨⟨1, 2⟩, .unexpected (some (.symbol .openParen)) [.endOfInput]⟩ : SyntaxError)]
          = [e]
        ∧ e.Located (byteLength "f(1,)".toList) (.rule .expr) [⟨.ident, ⟨0, 1⟩⟩,
          ⟨.symbol .openParen, ⟨1, 2⟩⟩, ⟨.intLiteral, ⟨2, 3⟩⟩, ⟨.symbol .comma, ⟨3, 4⟩⟩,
          ⟨.symbol .closeParen, ⟨4, 5⟩⟩] m d :=
  ⟨by decide +kernel, by decide +kernel,
    error_located .expression "f(1,)" (by decide +kernel) (by decide +kernel)⟩

end ImpFront
