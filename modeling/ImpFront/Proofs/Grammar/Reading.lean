import ImpFront.Grammar.Program
import Mathlib.Data.List.Basic
import Mathlib.Tactic.Common

/-!
# What a rule reads

An outcome carries three things: a value, the tokens left, and the failures
survived. Only the first two decide what the language is; the failures decide
messages. `Rule.Reads p ts a rest` says that `p` matches the front of `ts`,
with value `a` and with `rest` left, and `Rule.Fails p ts` that it does not
match – both forget about failures.

Every form of rule has one equation for `Reads` and one for `Fails`. Between
them they are all that later proofs know of the forms: a rule of the grammar,
written as a chain of steps, unfolds into a chain of existential statements, one
for each step.
-/

namespace ImpFront

/-- The token that comes next, if any does. -/
def nextToken (ts : List Lexeme) : Option Token := ts.head?.map Lexeme.token

@[simp] theorem nextToken_nil : nextToken [] = none := rfl

@[simp] theorem nextToken_cons (l : Lexeme) (ts : List Lexeme) :
    nextToken (l :: ts) = some l.token := rfl

namespace Rule

variable {α β : Type}

/-- **The rule matches the front of `ts`**, with a value and the tokens left. -/
def Reads (p : Rule α) (ts : List Lexeme) (a : α) (rest : List Lexeme) : Prop :=
  ∃ survived, p ts = .ok a rest survived

/-- **The rule does not match** any front of `ts`. -/
def Fails (p : Rule α) (ts : List Lexeme) : Prop := ∃ e, p ts = .fail e

/-- A rule reads one thing at most. -/
theorem Reads.unique {p : Rule α} {ts rest rest' : List Lexeme} {a a' : α}
    (h : p.Reads ts a rest) (h' : p.Reads ts a' rest') : a = a' ∧ rest = rest' := by
  obtain ⟨s, hs⟩ := h
  obtain ⟨s', hs'⟩ := h'
  rw [hs] at hs'
  injection hs' with ha hrest
  exact ⟨ha, hrest⟩

/-- A rule that reads something does not fail. -/
theorem Reads.not_fails {p : Rule α} {ts rest : List Lexeme} {a : α}
    (h : p.Reads ts a rest) : ¬ p.Fails ts := by
  rintro ⟨e, he⟩
  obtain ⟨s, hs⟩ := h
  rw [hs] at he
  simp at he

/-- A rule that fails without a certain token in front reads only with it. -/
theorem Reads.nextToken_eq {p : Rule α} {ts rest : List Lexeme} {a : α} {t : Token}
    (h : p.Reads ts a rest) (hp : nextToken ts ≠ some t → p.Fails ts) :
    nextToken ts = some t := by
  by_contra hne
  exact h.not_fails (hp hne)

/-- What a failure survived before does not change what is read. -/
theorem remember_eq_ok {o : Outcome α} {earlier : Option Failure} {a : α}
    {rest : List Lexeme} :
    (∃ s, o.remember earlier = .ok a rest s) ↔ ∃ s, o = .ok a rest s := by
  cases o with
  | ok b r s => simp [Outcome.remember]
  | fail e => cases earlier <;> simp [Outcome.remember]

theorem remember_eq_fail {o : Outcome α} {earlier : Option Failure} :
    (∃ e, o.remember earlier = .fail e) ↔ ∃ e, o = .fail e := by
  cases o with
  | ok b r s => simp [Outcome.remember]
  | fail e => cases earlier <;> simp [Outcome.remember]

/-! ## Steps -/

@[simp] theorem reads_pure {a b : α} {ts rest : List Lexeme} :
    (pure a : Rule α).Reads ts b rest ↔ a = b ∧ ts = rest := by
  simp [Reads]

@[simp] theorem fails_pure {a : α} {ts : List Lexeme} : ¬ (pure a : Rule α).Fails ts := by
  simp [Fails]

/-- Two steps read what the second leaves of what the first leaves. -/
theorem reads_bind {p : Rule α} {f : α → Rule β} {ts rest : List Lexeme} {b : β} :
    (p >>= f).Reads ts b rest
      ↔ ∃ a mid, p.Reads ts a mid ∧ (f a).Reads mid b rest := by
  unfold Reads
  rw [bind_apply]
  cases p ts with
  | fail e => simp
  | ok a mid s => simp [remember_eq_ok, and_assoc]

theorem fails_bind {p : Rule α} {f : α → Rule β} {ts : List Lexeme} :
    (p >>= f).Fails ts
      ↔ p.Fails ts ∨ ∃ a mid, p.Reads ts a mid ∧ (f a).Fails mid := by
  unfold Fails Reads
  rw [bind_apply]
  cases p ts with
  | fail e => simp
  | ok a mid s => simp [remember_eq_fail, and_assoc]

/-- A first step that fails is the end of it. -/
theorem Fails.bind {p : Rule α} {f : α → Rule β} {ts : List Lexeme} (h : p.Fails ts) :
    (p >>= f).Fails ts :=
  fails_bind.mpr (.inl h)

/-! ## Choices, optional parts, repetitions -/

/-- A choice reads with its second rule only where the first fails. -/
theorem reads_orElse {p q : Rule α} {ts rest : List Lexeme} {a : α} :
    (p <|> q).Reads ts a rest ↔ p.Reads ts a rest ∨ p.Fails ts ∧ q.Reads ts a rest := by
  unfold Fails Reads
  rw [orElse_apply]
  cases p ts with
  | ok b r s => simp
  | fail e => cases q ts <;> simp

theorem fails_orElse {p q : Rule α} {ts : List Lexeme} :
    (p <|> q).Fails ts ↔ p.Fails ts ∧ q.Fails ts := by
  unfold Fails
  rw [orElse_apply]
  cases p ts with
  | ok b r s => simp
  | fail e => cases q ts <;> simp

theorem reads_optional {p : Rule α} {ts rest : List Lexeme} {o : Option α} :
    (optional p).Reads ts o rest
      ↔ (∃ a, o = some a ∧ p.Reads ts a rest) ∨ o = none ∧ ts = rest ∧ p.Fails ts := by
  unfold Fails Reads optional
  cases p ts with
  | ok a r s =>
    constructor
    · rintro ⟨_, h⟩
      simp only [Outcome.ok.injEq] at h
      exact .inl ⟨a, h.1.symm, s, by rw [h.2.1]⟩
    · rintro (⟨b, rfl, _, h⟩ | ⟨-, -, _, h⟩)
      · simp only [Outcome.ok.injEq] at h
        exact ⟨s, by rw [h.1, h.2.1]⟩
      · simp at h
  | fail e => simp [eq_comm]

@[simp] theorem fails_optional {p : Rule α} {ts : List Lexeme} : ¬ (optional p).Fails ts := by
  unfold Fails optional
  cases p ts <;> simp

theorem reads_map {o : Outcome α} {f : α → β} {b : β} {rest : List Lexeme} :
    (∃ s, o.map f = .ok b rest s) ↔ ∃ a, f a = b ∧ ∃ s, o = .ok a rest s := by
  cases o with
  | ok a r s =>
    constructor
    · rintro ⟨_, h⟩
      simp only [Outcome.map, Outcome.ok.injEq] at h
      exact ⟨a, h.1, s, by rw [h.2.1]⟩
    · rintro ⟨_, rfl, _, h⟩
      simp only [Outcome.ok.injEq] at h
      exact ⟨s, by rw [Outcome.map, h.1, h.2.1]⟩
  | fail e => simp [Outcome.map]

/-- A repetition ends where its item fails. -/
theorem reads_many_nil {p : Rule α} {ts : List Lexeme} (h : p.Fails ts) :
    Reads (many p) ts [] ts := by
  obtain ⟨e, he⟩ := h
  exact ⟨some e, by rw [many_apply, he]⟩

/-- A repetition goes on behind an item. -/
theorem reads_many_cons {p : Rule α} {ts mid rest : List Lexeme} {a : α} {as : List α}
    (ha : p.Reads ts a mid) (hlt : mid.length < ts.length)
    (has : Reads (many p) mid as rest) : Reads (many p) ts (a :: as) rest := by
  obtain ⟨s, hs⟩ := ha
  obtain ⟨s', hs'⟩ := has
  refine ⟨furthest? s s', ?_⟩
  rw [many_apply, hs]
  simp only [if_pos hlt, hs', Outcome.map, Outcome.remember]

/-- **A chain of items**, each read from where the one before stopped. -/
inductive Chain (p : Rule α) : List Lexeme → List α → List Lexeme → Prop
  | nil (ts : List Lexeme) : Chain p ts [] ts
  | cons {ts mid rest : List Lexeme} {a : α} {as : List α} (ha : p.Reads ts a mid)
      (has : Chain p mid as rest) : Chain p ts (a :: as) rest

/-- A repetition reads a chain of items; what the chain does not say is that it
goes on for as long as it can. -/
theorem chain_of_reads_many {p : Rule α} {ts rest : List Lexeme} {as : List α}
    (h : Reads (many p) ts as rest) : Chain p ts as rest := by
  induction hn : ts.length using Nat.strongRecOn generalizing ts as with
  | _ n ih =>
    obtain ⟨s, hs⟩ := h
    rw [many_apply] at hs
    cases hp : p ts with
    | fail e =>
      rw [hp] at hs
      simp only [Outcome.ok.injEq] at hs
      obtain ⟨rfl, rfl, -⟩ := hs
      exact .nil ts
    | ok a mid s' =>
      rw [hp] at hs
      by_cases hlt : mid.length < ts.length
      · simp only [if_pos hlt] at hs
        obtain ⟨as', rfl, has⟩ := reads_map.mp (remember_eq_ok.mp ⟨s, hs⟩)
        exact .cons ⟨s', hp⟩ (ih _ (hn ▸ hlt) has rfl)
      · simp only [if_neg hlt, Outcome.ok.injEq] at hs
        obtain ⟨rfl, rfl, -⟩ := hs
        exact .cons ⟨s', hp⟩ (.nil mid)

@[simp] theorem fails_many {p : Rule α} {ts : List Lexeme} : ¬ Fails (many p) ts := by
  induction hn : ts.length using Nat.strongRecOn generalizing ts with
  | _ n ih =>
    rintro ⟨e, he⟩
    rw [many_apply] at he
    cases hp : p ts with
    | fail e' => simp [hp] at he
    | ok a mid s =>
      rw [hp] at he
      by_cases hlt : mid.length < ts.length
      · simp only [if_pos hlt] at he
        obtain ⟨e', he'⟩ := remember_eq_fail.mp ⟨e, he⟩
        cases hm : many p mid with
        | ok b r s' => simp [hm, Outcome.map] at he'
        | fail e'' => exact ih _ (hn ▸ hlt) rfl ⟨e'', hm⟩
      · simp [if_neg hlt] at he

/-- The steps behind a repetition. -/
theorem reads_many_bind {p : Rule α} {f : List α → Rule β} {ts rest : List Lexeme} {b : β} :
    (bind (m := Rule) (many p) f).Reads ts b rest
      ↔ ∃ as mid, Reads (many p) ts as mid ∧ (f as).Reads mid b rest :=
  reads_bind

/-! ## Single tokens -/

@[simp] theorem reads_token {t : Token} {ts rest : List Lexeme} {span : Span} :
    (token t).Reads ts span rest ↔ ts = ⟨t, span⟩ :: rest := by
  cases ts with
  | nil => simp [Reads, token]
  | cons l ts =>
    obtain ⟨t', span'⟩ := l
    by_cases h : t' = t
    · simp [Reads, token, h]
    · simp [Reads, token, h]

@[simp] theorem fails_token {t : Token} {ts : List Lexeme} :
    (token t).Fails ts ↔ nextToken ts ≠ some t := by
  cases ts with
  | nil => simp [Fails, token]
  | cons l ts =>
    obtain ⟨t', span'⟩ := l
    by_cases h : t' = t
    · simp [Fails, token, h]
    · simp [Fails, token, h]

@[simp] theorem reads_keyword {k : Keyword} {ts rest : List Lexeme} {span : Span} :
    (keyword k).Reads ts span rest ↔ ts = ⟨.keyword k, span⟩ :: rest := reads_token

@[simp] theorem fails_keyword {k : Keyword} {ts : List Lexeme} :
    (keyword k).Fails ts ↔ nextToken ts ≠ some (.keyword k) := fails_token

@[simp] theorem reads_symbol {s : Symbol} {ts rest : List Lexeme} {span : Span} :
    (symbol s).Reads ts span rest ↔ ts = ⟨.symbol s, span⟩ :: rest := reads_token

@[simp] theorem fails_symbol {s : Symbol} {ts : List Lexeme} :
    (symbol s).Fails ts ↔ nextToken ts ≠ some (.symbol s) := fails_token

theorem reads_operator {symbols : List Symbol} {ts rest : List Lexeme} {span : Span} :
    (operator symbols).Reads ts span rest
      ↔ ∃ s ∈ symbols, ts = ⟨.symbol s, span⟩ :: rest := by
  unfold Reads operator
  split
  · split <;> simp_all
  · rename_i h
    simp only [reduceCtorEq, exists_false, false_iff, not_exists, not_and]
    rintro s - rfl
    exact h s span rest rfl

theorem fails_operator {symbols : List Symbol} {ts : List Lexeme} :
    (operator symbols).Fails ts ↔ ∀ s ∈ symbols, nextToken ts ≠ some (.symbol s) := by
  unfold Fails operator
  split
  · rename_i s span rest
    split
    · rename_i h
      simpa using h
    · rename_i h
      simp only [Outcome.fail.injEq, exists_eq', true_iff]
      rintro s' hs' hs
      obtain rfl : s = s' := by simpa using hs
      exact h hs'
  · rename_i h
    simp only [Outcome.fail.injEq, exists_eq', true_iff]
    intro s _ hs
    cases ts with
    | nil => simp at hs
    | cons l ts =>
      obtain ⟨t, span⟩ := l
      obtain rfl : t = .symbol s := by simpa using hs
      exact h s span ts rfl

@[simp] theorem reads_endOfInput {ts rest : List Lexeme} {u : Unit} :
    endOfInput.Reads ts u rest ↔ ts = [] ∧ rest = [] := by
  cases ts <;> simp [Reads, endOfInput, eq_comm]

end Rule

/-! ## The forms that only the grammar of the language uses -/

namespace Grammar

open Rule

variable {α : Type} {ts rest : List Lexeme} {t : TreeShape}

@[simp] theorem reads_leaf {kind : NodeKind} {token : Token} :
    (leaf kind token).Reads ts t rest
      ↔ ∃ span, ts = ⟨token, span⟩ :: rest ∧ t = ⟨kind, span, []⟩ := by
  simp only [leaf, reads_bind, reads_token, reads_pure]
  constructor
  · rintro ⟨span, mid, rfl, rfl, rfl⟩
    exact ⟨span, rfl, rfl⟩
  · rintro ⟨span, rfl, rfl⟩
    exact ⟨span, rest, rfl, rfl, rfl⟩

@[simp] theorem fails_leaf {kind : NodeKind} {token : Token} :
    (leaf kind token).Fails ts ↔ nextToken ts ≠ some token := by
  simp [leaf, fails_bind]

@[simp] theorem reads_ident :
    ident.Reads ts t rest ↔ ∃ span, ts = ⟨.ident, span⟩ :: rest ∧ t = ⟨.ident, span, []⟩ :=
  reads_leaf

@[simp] theorem fails_ident : ident.Fails ts ↔ nextToken ts ≠ some .ident := fails_leaf

theorem reads_operatorLeaf {symbols : List Symbol} :
    (operatorLeaf symbols).Reads ts t rest
      ↔ ∃ s ∈ symbols, ∃ span, ts = ⟨.symbol s, span⟩ :: rest ∧ t = ⟨.operator, span, []⟩ := by
  simp only [operatorLeaf, reads_bind, reads_operator, reads_pure]
  constructor
  · rintro ⟨span, mid, ⟨s, hs, rfl⟩, rfl, rfl⟩
    exact ⟨s, hs, span, rfl, rfl⟩
  · rintro ⟨s, hs, span, rfl, rfl⟩
    exact ⟨span, rest, ⟨s, hs, rfl⟩, rfl, rfl⟩

theorem fails_operatorLeaf {symbols : List Symbol} :
    (operatorLeaf symbols).Fails ts ↔ ∀ s ∈ symbols, nextToken ts ≠ some (.symbol s) := by
  simp [operatorLeaf, fails_bind, fails_operator]

theorem reads_parenthesized {p : Rule α} {opening closing : Span} {a : α} :
    (parenthesized p).Reads ts (opening, a, closing) rest
      ↔ ∃ inner, ts = ⟨.symbol .openParen, opening⟩ :: inner
          ∧ p.Reads inner a (⟨.symbol .closeParen, closing⟩ :: rest) := by
  simp only [parenthesized, reads_bind, reads_symbol, reads_pure, Prod.mk.injEq]
  constructor
  · rintro ⟨_, inner, rfl, _, _, hp, _, _, rfl, ⟨rfl, rfl, rfl⟩, rfl⟩
    exact ⟨inner, rfl, hp⟩
  · rintro ⟨inner, rfl, hp⟩
    exact ⟨opening, inner, rfl, a, _, hp, closing, rest, rfl, ⟨rfl, rfl, rfl⟩, rfl⟩

/-- Parentheses need an opening one. -/
theorem fails_parenthesized {p : Rule α} (h : nextToken ts ≠ some (.symbol .openParen)) :
    (parenthesized p).Fails ts :=
  (fails_symbol.mpr h).bind

end Grammar

end ImpFront
