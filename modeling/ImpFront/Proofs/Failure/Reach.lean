import ImpFront.Proofs.Failure.Begun
import ImpFront.Proofs.Failure.Honest

/-!
# How far a rule gets

The failure that is reported in the end is the furthest one, whether it stopped
the reader or was survived. `Outcome.reach` counts the tokens left at that place.

A rule gets no further than some match of its form could begin, since failures are
honest (`Explains.le_reach`). So it does not move at all in front of a token that
does not begin its form, and for this the tokens that forms begin with are listed
here (`Form.first`). That it gets as far as it can is another matter, and not quite
true (`Rule.Blames`).
-/

namespace ImpFront

open Ebnf Rule

/-! ## The tokens that forms begin with -/

namespace Ebnf

/-- The tokens that expressions begin with. -/
def expressionStarts : List Token :=
  [.intLiteral, .keyword .trueWord, .keyword .falseWord, .ident, .symbol .openParen]

/-- **The tokens that a nonterminal begins with.** -/
def Nonterminal.first : Nonterminal → List Token
  | .program | .varDecl | .funcDecl | .paramList | .param | .type => typeWords
  | .block => [.symbol .openBrace]
  | .statement => statementStarts
  | .assign | .call | .location => [.ident]
  | .ifStmt => [.keyword .ifWord]
  | .elseIf | .elseClause => [.keyword .elseWord]
  | .whileStmt => [.keyword .whileWord]
  | .returnStmt => [.keyword .returnWord]
  | .breakStmt => [.keyword .breakWord]
  | .continueStmt => [.keyword .continueWord]
  | .expr | .level _ | .atom | .argList => expressionStarts
  | .group => [.symbol .openParen]

/-- **The tokens that a form begins with**, if it does not match the empty list. -/
def Form.first : Form → List Token
  | .nothing => []
  | .token t => [t]
  | .leaf _ tokens => tokens
  | .rule n => n.first
  | .sequence f g => if f.consumes then f.first else f.first ++ g.first
  | .choice f g => f.first ++ g.first
  | .repeated f => f.first

theorem first_production (n : Nonterminal) : (production n).first ⊆ n.first := by
  cases n with
  | level l => cases l <;> decide
  | _ => decide

variable {size k : Nat} {f g : Form} {l : Lexeme} {c d x us vs rest : List Lexeme}

/-- What a form derives begins with one of its first tokens. -/
theorem Derives.head_mem_first {parts : List TreeShape} (h : Derives size f us parts)
    (hl : us.head? = some l) : l.token ∈ f.first := by
  induction h with
  | nothing => cases hl
  | token t span =>
    cases hl
    exact List.mem_singleton_self _
  | leaf kind span ht =>
    cases hl
    exact ht
  | rule n _ ih => exact first_production n (ih hl)
  | @sequence f g ts us _ _ hf _ ihf ihg =>
    show l.token ∈ if f.consumes then f.first else f.first ++ g.first
    cases ts with
    | nil =>
      have hempty : ¬ f.consumes = true := fun hc => hf.ne_nil hc rfl
      rw [if_neg hempty]
      exact List.mem_append_right _ (ihg hl)
    | cons t ts =>
      have hmem := ihf hl
      split
      · exact hmem
      · exact List.mem_append_left _ hmem
  | left g _ ih => exact List.mem_append_left _ (ih hl)
  | right f _ ih => exact List.mem_append_right _ (ih hl)
  | done => cases hl
  | @again f ts us _ _ _ _ ihf ihfs =>
    cases ts with
    | nil => exact ihfs hl
    | cons t ts => exact ihf hl

theorem Form.Viable.mem_first (h : f.Viable size (l :: us)) : l.token ∈ f.first := by
  obtain ⟨vs, _, h⟩ := h
  exact h.head_mem_first rfl

/-- **No phrase goes on** with the first of the tokens `x` behind `c`. -/
def Form.Stuck (size : Nat) (f : Form) (c x : List Lexeme) : Prop :=
  ∀ l ∈ x.head?, ¬ f.Viable size (c ++ [l])

/-- Where no phrase goes on, no longer one begins. -/
theorem Form.Stuck.exists_append (h : f.Stuck size c x) (hus : f.Viable size us)
    (heq : c ++ x = us ++ rest) : ∃ ws, c = us ++ ws ∧ rest = ws ++ x := by
  rcases List.append_eq_append_iff.mp heq with ⟨ws, rfl, rfl⟩ | ⟨ws, rfl, rfl⟩
  · cases ws with
    | nil => exact ⟨[], by simp, rfl⟩
    | cons l ws =>
      refine absurd ?_ (h l rfl)
      rw [List.append_cons] at hus
      exact hus.of_append
  · exact ⟨ws, rfl, rfl⟩

theorem Form.Stuck.length_le (h : f.Stuck size c x) (hus : f.Viable size us)
    (heq : c ++ x = us ++ rest) : x.length ≤ rest.length := by
  obtain ⟨ws, -, rfl⟩ := h.exists_append hus heq
  simp

theorem Form.Stuck.mono (h : g.Stuck size (us ++ c) x)
    (hfg : ∀ vs, f.Viable size vs → g.Viable size (us ++ vs)) : f.Stuck size c x := by
  intro l hl hviable
  refine h l hl ?_
  rw [List.append_assoc]
  exact hfg _ hviable

end Ebnf

/-! ## The place that an outcome got to -/

/-- The tokens left at the furthest of a place and of a failure survived. -/
def leftAt (s : Option Failure) (left : Nat) : Nat := s.elim left fun e => min e.rest.length left

/-- **The tokens left at the furthest place** that a rule got to. -/
def Outcome.reach {α : Type} : Outcome α → Nat
  | .ok _ rest s => leftAt s rest.length
  | .fail e => e.rest.length

section Reach

variable {α β : Type} {s s' : Option Failure} {m n t : Nat}

theorem leftAt_le (s : Option Failure) (n : Nat) : leftAt s n ≤ n := by
  cases s with
  | none => exact Nat.le_refl n
  | some e => exact Nat.min_le_right _ _

theorem leftAt_mono (s : Option Failure) (h : m ≤ n) : leftAt s m ≤ leftAt s n := by
  cases s with
  | none => exact h
  | some e =>
    simp only [leftAt, Option.elim_some]
    omega

/-- A further place than that of the failure is the further one of all. -/
theorem leftAt_eq_of_le (hs : n ≤ leftAt s n) (h : m ≤ n) : leftAt s m = m := by
  cases s with
  | none => rfl
  | some e =>
    simp only [leftAt, Option.elim_some] at hs ⊢
    omega

theorem le_leftAt (hs : t ≤ leftAt s n) (h : t ≤ m) : t ≤ leftAt s m := by
  cases s with
  | none => exact h
  | some e =>
    simp only [leftAt, Option.elim_some] at hs ⊢
    omega

theorem length_rest_furthest (a b : Failure) :
    (a.furthest b).rest.length = min a.rest.length b.rest.length := by
  rcases a.furthest_cases b with ⟨h, hlen⟩ | ⟨h, hlen⟩ | ⟨h, hlen⟩
  · rw [h, Nat.min_eq_left (Nat.le_of_lt hlen)]
  · rw [h, Nat.min_eq_right (Nat.le_of_lt hlen)]
  · rw [h, ← hlen, Nat.min_self]

theorem leftAt_furthest? (s s' : Option Failure) (n : Nat) :
    leftAt (furthest? s s') n = leftAt s (leftAt s' n) := by
  cases s with
  | none => rfl
  | some a =>
    cases s' with
    | none => rfl
    | some b =>
      simp only [furthest?, leftAt, Option.elim_some, length_rest_furthest, Nat.min_assoc]

theorem reach_remember (o : Outcome α) (s : Option Failure) :
    (o.remember s).reach = leftAt s o.reach := by
  cases o with
  | ok a rest s' => exact leftAt_furthest? s s' _
  | fail e =>
    cases s with
    | none => rfl
    | some e' => exact length_rest_furthest e' e

theorem reach_map (o : Outcome α) (h : α → β) : (o.map h).reach = o.reach := by
  cases o <;> rfl

theorem reach_bind_of_fail {p : Rule α} {q : α → Rule β} {ts : List Lexeme} {e : Failure}
    (h : p ts = .fail e) : ((p >>= q) ts).reach = e.rest.length := by
  rw [Rule.bind_apply, h]
  rfl

theorem reach_bind_of_ok {p : Rule α} {q : α → Rule β} {ts rest : List Lexeme} {a : α}
    (h : p ts = .ok a rest s) : ((p >>= q) ts).reach = leftAt s (q a rest).reach := by
  rw [Rule.bind_apply, h]
  exact reach_remember _ s

/-- What is made of the value does not matter. -/
theorem reach_bind_pure (p : Rule α) (h : α → β) (ts : List Lexeme) :
    ((p >>= fun a => pure (h a)) ts).reach = (p ts).reach := by
  cases hp : p ts with
  | fail e => exact reach_bind_of_fail hp
  | ok a rest s => exact reach_bind_of_ok hp

/-- An alternative that got no further than the first one counts for nothing. -/
theorem reach_orElse_left {p q : Rule α} {ts : List Lexeme} {e : Failure} (h : q ts = .fail e)
    (hle : (p ts).reach ≤ e.rest.length) : ((p <|> q) ts).reach = (p ts).reach := by
  rw [Rule.orElse_apply, h]
  cases hp : p ts with
  | ok a rest s => rfl
  | fail e' =>
    rw [hp] at hle
    exact (length_rest_furthest e' e).trans (Nat.min_eq_left hle)

/-- An alternative that failed no further than the second one counts for nothing. -/
theorem reach_orElse_right {p q : Rule α} {ts : List Lexeme} {e : Failure} (h : p ts = .fail e)
    (hle : (q ts).reach ≤ e.rest.length) : ((p <|> q) ts).reach = (q ts).reach := by
  rw [Rule.orElse_apply, h]
  cases hq : q ts with
  | ok a rest s => rfl
  | fail e' =>
    rw [hq] at hle
    exact (length_rest_furthest e e').trans (Nat.min_eq_right hle)

end Reach

namespace Rule

variable {α β : Type} {size bound bound' k : Nat} {f g : Form} {p q : Rule α} {mute : Prop}
  {c x us rest ts : List Lexeme}

/-! ## How far rules get at most -/

/-- **A rule gets no further than a match of its form may begin.** -/
theorem Explains.le_reach_of_viable (hp : p.Explains size f bound mute) (hlen : ts.length < bound)
    {n : Nat} (h : ∀ us rest, f.Viable size us → ts = us ++ rest → n ≤ rest.length) :
    n ≤ (p ts).reach := by
  cases hrun : p ts with
  | fail e =>
    obtain ⟨us, hts, hus, -⟩ := (hp.fail hlen hrun).1
    exact h us e.rest hus hts
  | ok a rest s =>
    obtain ⟨⟨us, hts, hus⟩, hs⟩ := hp.ok hlen hrun
    have hrest := h us rest hus.viable hts
    cases s with
    | none => exact hrest
    | some e =>
      obtain ⟨us', hts', hus', -⟩ := (hs e rfl).1
      exact Nat.le_min.mpr ⟨h us' e.rest hus' hts', hrest⟩

/-- Where no phrase goes on, the rule gets no further. -/
theorem Explains.le_reach (hp : p.Explains size f bound mute) (hlen : (c ++ x).length < bound)
    (hstuck : f.Stuck size c x) : x.length ≤ (p (c ++ x)).reach :=
  hp.le_reach_of_viable hlen fun _ _ hus heq => hstuck.length_le hus heq

theorem Explains.reach_le (hp : p.Explains size f bound mute) (hlen : ts.length < bound) :
    (p ts).reach ≤ ts.length := by
  cases hrun : p ts with
  | fail e => exact (hp.fail hlen hrun).1.suffix.length_le
  | ok a rest s =>
    obtain ⟨⟨us, rfl, -⟩, -⟩ := hp.ok hlen hrun
    refine Nat.le_trans (leftAt_le s _) ?_
    simp

/-- The failure of a part that may be missing is survived, and not forgotten. -/
theorem Explains.reach_optional (hp : p.Explains size f bound mute) (hlen : ts.length < bound) :
    (Rule.optional p ts).reach = (p ts).reach := by
  have hle := hp.reach_le hlen
  unfold Rule.optional
  cases hrun : p ts with
  | ok a rest s => rfl
  | fail e =>
    rw [hrun] at hle
    exact Nat.min_eq_left hle

/-- **A rule does not move** in front of a token that does not begin its form. -/
theorem Explains.reach_eq (hp : p.Explains size f bound mute) (hlen : ts.length < bound)
    {t : Token} (hnext : nextToken ts = some t) (ht : t ∉ f.first) : (p ts).reach = ts.length := by
  have hstuck : f.Stuck size [] ts := by
    intro l hl hviable
    obtain rfl : l.token = t := by
      rw [nextToken, Option.mem_def.mp hl] at hnext
      exact Option.some.inj hnext
    exact ht hviable.mem_first
  exact Nat.le_antisymm (hp.reach_le hlen) (hp.le_reach (c := []) hlen hstuck)

/-- Nor does it match. -/
theorem Explains.fails (hp : p.Explains size f bound mute) (hlen : ts.length < bound)
    (hf : f.consumes = true) (hnext : ∀ t ∈ f.first, nextToken ts ≠ some t) : p.Fails ts := by
  cases hrun : p ts with
  | fail e => exact ⟨e, hrun⟩
  | ok a rest s =>
    obtain ⟨⟨us, rfl, hus⟩, -⟩ := hp.ok hlen hrun
    obtain ⟨l, us, rfl⟩ := List.exists_cons_of_ne_nil (hus.ne_nil hf)
    exact absurd rfl (hnext l.token hus.viable.mem_first)

end Rule

end ImpFront
