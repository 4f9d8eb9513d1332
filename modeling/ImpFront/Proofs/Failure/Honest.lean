import ImpFront.Proofs.Grammar.Completeness.Program
import ImpFront.Proofs.Grammar.Sentences

/-!
# What failures say

A failure names a place and what would have been acceptable there. Whether it
tells the truth is a matter of the grammar: the tokens before the place have to
begin something that the form matches, and each token named has to go on with
it (`Failure.Honest`). That a failure is worth reporting is another matter – it
should name something. An operator that is not there is passed over in silence,
and the failures that a match survives may be silent too; but a silent failure
never lies beyond what has been matched, so that a later one, which does name
something, comes before it or joins it.

`Rule.Explains` puts both together with what a match reads. It is closed under
the forms of rules, one lemma for each, and each rule of the grammar follows by
going through its steps.
-/

namespace ImpFront

open Ebnf Rule

/-! ## The further of two failures -/

/-- Which of two failures is taken, or that both are. -/
theorem Failure.furthest_cases (a b : Failure) :
    a.furthest b = a ∧ a.rest.length < b.rest.length
      ∨ a.furthest b = b ∧ b.rest.length < a.rest.length
      ∨ a.furthest b = ⟨a.rest, a.expected ++ b.expected⟩ ∧ a.rest.length = b.rest.length := by
  unfold furthest
  split
  · exact .inl ⟨rfl, ‹_›⟩
  · split
    · exact .inr (.inl ⟨rfl, ‹_›⟩)
    · exact .inr (.inr ⟨rfl, by omega⟩)

/-- **A failure that names something is not lost**, if a silent one lies no further. -/
theorem Failure.expected_furthest_ne_nil {a b : Failure}
    (ha : a.expected = [] → b.rest.length ≤ a.rest.length) (hb : b.expected ≠ []) :
    (a.furthest b).expected ≠ [] := by
  intro hnone
  rcases a.furthest_cases b with ⟨h, hlt⟩ | ⟨h, -⟩ | ⟨h, -⟩
  · rw [h] at hnone
    have := ha hnone
    omega
  · exact hb (h ▸ hnone)
  · rw [h] at hnone
    exact hb (List.append_eq_nil_iff.mp hnone).2

/-- What two failures have in common the further one has. -/
theorem forall_mem_furthest? {P : Failure → Prop} (hP : ∀ a b, P a → P b → P (a.furthest b))
    {s s' : Option Failure} (hs : ∀ e ∈ s, P e) (hs' : ∀ e ∈ s', P e) :
    ∀ e ∈ furthest? s s', P e := by
  cases s with
  | none => simpa using hs'
  | some a =>
    cases s' with
    | none => simpa using hs
    | some b =>
      rintro e ⟨⟩
      exact hP a b (hs a rfl) (hs' b rfl)

/-! ## Honest failures -/

section Honest

variable {size : Nat} {f g : Form} {ts us : List Lexeme} {e : Failure}

/-- **The failure tells the truth**: what was read before its place begins a match
of the form, and so it does with any of the tokens that were expected there. None
of these is the token that was found. -/
def Failure.Honest (size : Nat) (f : Form) (ts : List Lexeme) (e : Failure) : Prop :=
  ∃ us, ts = us ++ e.rest ∧ f.Viable size us
    ∧ ∀ x ∈ e.expected, ∃ t, x = .token t ∧ nextToken e.rest ≠ some t
        ∧ ∀ span, f.Viable size (us ++ [⟨t, span⟩])

/-- A failure behind some tokens is one of whatever they go on with. -/
theorem Failure.Honest.behind (h : e.Honest size f ts)
    (hfg : ∀ vs, f.Viable size vs → g.Viable size (us ++ vs)) : e.Honest size g (us ++ ts) := by
  obtain ⟨vs, rfl, hvs, hexpected⟩ := h
  refine ⟨us ++ vs, (List.append_assoc ..).symm, hfg vs hvs, fun x hx => ?_⟩
  obtain ⟨t, rfl, hnext, ht⟩ := hexpected x hx
  refine ⟨t, rfl, hnext, fun span => ?_⟩
  rw [List.append_assoc]
  exact hfg _ (ht span)

theorem Failure.Honest.mono (h : e.Honest size f ts)
    (hfg : ∀ vs, f.Viable size vs → g.Viable size vs) : e.Honest size g ts := by
  rw [← List.nil_append ts]
  exact h.behind hfg

theorem Failure.Honest.suffix (h : e.Honest size f ts) : e.rest <:+ ts := by
  obtain ⟨us, hts, -⟩ := h
  exact ⟨us, hts.symm⟩

theorem Failure.Honest.furthest {a b : Failure} (ha : a.Honest size f ts)
    (hb : b.Honest size f ts) : (a.furthest b).Honest size f ts := by
  rcases a.furthest_cases b with ⟨h, -⟩ | ⟨h, -⟩ | ⟨h, hlen⟩
  · rwa [h]
  · rwa [h]
  · obtain ⟨us, hts, hus, hexpected⟩ := ha
    obtain ⟨us', hts', -, hexpected'⟩ := hb
    -- At the same place both have read the same.
    obtain ⟨rfl, hrest⟩ := List.append_inj' (hts.symm.trans hts') hlen
    rw [h]
    refine ⟨us, hts, hus, fun x hx => ?_⟩
    rcases List.mem_append.mp hx with hx | hx
    · exact hexpected x hx
    · rw [hrest]
      exact hexpected' x hx

end Honest

/-- **A failure worth keeping** by a rule that has gone on to the last `left`
tokens: it is honest, and if it names nothing, it does not lie beyond. -/
def Failure.Told (size : Nat) (f : Form) (ts : List Lexeme) (left : Nat) (e : Failure) : Prop :=
  e.Honest size f ts ∧ (e.expected = [] → left ≤ e.rest.length)

theorem Failure.Told.furthest {size : Nat} {f : Form} {ts : List Lexeme} {left : Nat}
    {a b : Failure} (ha : a.Told size f ts left) (hb : b.Told size f ts left) :
    (a.furthest b).Told size f ts left := by
  refine ⟨ha.1.furthest hb.1, fun hnone => ?_⟩
  rcases a.furthest_cases b with ⟨h, -⟩ | ⟨h, -⟩ | ⟨h, -⟩
  · rw [h] at hnone ⊢
    exact ha.2 hnone
  · rw [h] at hnone ⊢
    exact hb.2 hnone
  · rw [h] at hnone ⊢
    exact ha.2 (List.append_eq_nil_iff.mp hnone).1

/-! ## Rules that explain their failures -/

namespace Rule

variable {α β : Type} {size bound bound' : Nat} {f g : Form} {p q : Rule α} {mute : Prop}

/-- **The rule reads the form and tells what is wrong where it does not**, on fewer
than `bound` tokens. Only a rule that may be `mute` fails without naming
anything, and then on the first token. -/
structure Explains (size : Nat) (p : Rule α) (f : Form) (bound : Nat) (mute : Prop) : Prop where
  /-- Some tokens are matched by the form. -/
  completable : ∃ us, f.Matches size us
  /-- What is read is matched, and the failure survived is worth keeping. -/
  ok : ∀ ⦃ts a rest s⦄, ts.length < bound → p ts = .ok a rest s →
    (∃ us, ts = us ++ rest ∧ f.Matches size us) ∧ ∀ e ∈ s, e.Told size f ts rest.length
  /-- A failure is honest, and silent only if the rule may be mute. -/
  fail : ∀ ⦃ts e⦄, ts.length < bound → p ts = .fail e →
    e.Honest size f ts ∧ (e.expected = [] → mute ∧ e.rest = ts)

namespace Explains

theorem mono (h : p.Explains size f bound mute) (hle : bound' ≤ bound) :
    p.Explains size f bound' mute :=
  ⟨h.completable, fun _ _ _ _ hlen => h.ok (by omega), fun _ _ hlen => h.fail (by omega)⟩

/-- Only what the form matches counts. -/
theorem congr (h : p.Explains size f bound mute)
    (hfg : ∀ us, f.Matches size us ↔ g.Matches size us) : p.Explains size g bound mute := by
  have hviable : ∀ us, f.Viable size us → g.Viable size us := by
    rintro us ⟨vs, hvs⟩
    exact ⟨vs, (hfg _).mp hvs⟩
  refine ⟨?_, fun ts a rest s hlen hp => ?_, fun ts e hlen hp => ?_⟩
  · obtain ⟨us, hus⟩ := h.completable
    exact ⟨us, (hfg us).mp hus⟩
  · obtain ⟨⟨us, hts, hus⟩, hs⟩ := h.ok hlen hp
    exact ⟨⟨us, hts, (hfg us).mp hus⟩, fun e he => ⟨(hs e he).1.mono hviable, (hs e he).2⟩⟩
  · obtain ⟨hhonest, hsilent⟩ := h.fail hlen hp
    exact ⟨hhonest.mono hviable, hsilent⟩

theorem of_steps (h : p.Explains size f bound mute) (hfg : f.steps = g.steps) :
    p.Explains size g bound mute :=
  h.congr fun _ => Form.matches_congr hfg

theorem rule {n : Nonterminal} (h : p.Explains size (production n) bound mute) :
    p.Explains size (.rule n) bound mute :=
  h.congr fun _ => Form.matches_rule.symm

theorem pure (a : α) : (Pure.pure a : Rule α).Explains size .nothing bound mute := by
  refine ⟨⟨[], Form.matches_nothing.mpr rfl⟩, ?_, ?_⟩
  · intro ts b rest s _ h
    simp only [pure_apply, Outcome.ok.injEq] at h
    obtain ⟨-, rfl, rfl⟩ := h
    exact ⟨⟨[], rfl, Form.matches_nothing.mpr rfl⟩, by simp⟩
  · intro ts e _ h
    simp at h

theorem token (t : Token) : (Rule.token t).Explains size (.token t) bound False := by
  have hone : ∀ span, (Form.token t).Matches size [⟨t, span⟩] := fun span =>
    Form.matches_token.mpr ⟨span, rfl⟩
  refine ⟨⟨[⟨t, ⟨0, 0⟩⟩], hone _⟩, ?_, ?_⟩
  · intro ts span rest s _ h
    obtain rfl := reads_token.mp ⟨s, h⟩
    simp only [Rule.token, if_true, Outcome.ok.injEq] at h
    obtain ⟨-, -, rfl⟩ := h
    exact ⟨⟨[⟨t, span⟩], rfl, hone span⟩, by simp⟩
  · intro ts e _ h
    have hnext := fails_token.mp ⟨e, h⟩
    obtain rfl : e = ⟨ts, [.token t]⟩ := by
      cases ts with
      | nil => exact (Outcome.fail.inj h).symm
      | cons l ts =>
        have hne : l.token ≠ t := by simpa using hnext
        simp only [Rule.token, if_neg hne, Outcome.fail.injEq] at h
        exact h.symm
    refine ⟨⟨[], rfl, ?_, ?_⟩, by simp⟩
    · exact ⟨_, hone ⟨0, 0⟩⟩
    · exact List.forall_mem_singleton.mpr ⟨t, rfl, hnext, fun span => (hone span).viable⟩

theorem operator {symbols : List Symbol} (hs : symbols ≠ []) :
    (Rule.operator symbols).Explains size (.operator symbols) bound True := by
  have hone : ∀ s ∈ symbols, ∀ span, (Form.operator symbols).Matches size [⟨.symbol s, span⟩] :=
    fun s hs span => Form.matches_leaf.mpr ⟨_, List.mem_map_of_mem hs, span, rfl⟩
  obtain ⟨first, hfirst⟩ := List.exists_mem_of_ne_nil symbols hs
  refine ⟨⟨_, hone first hfirst ⟨0, 0⟩⟩, ?_, ?_⟩
  · intro ts span rest s _ h
    obtain ⟨op, hop, rfl⟩ := reads_operator.mp ⟨s, h⟩
    simp only [Rule.operator, if_pos hop, Outcome.ok.injEq] at h
    obtain ⟨-, -, rfl⟩ := h
    exact ⟨⟨[⟨.symbol op, span⟩], rfl, hone op hop span⟩, by simp⟩
  · intro ts e _ h
    obtain rfl : e = ⟨ts, []⟩ := by
      unfold Rule.operator at h
      split at h
      · split at h
        · simp at h
        · exact (Outcome.fail.inj h).symm
      · exact (Outcome.fail.inj h).symm
    exact ⟨⟨[], rfl, ⟨_, hone first hfirst ⟨0, 0⟩⟩, by simp⟩, fun _ => ⟨trivial, rfl⟩⟩

/-- **One rule after another** explains one form after another. The second rule
may be held to a smaller bound, if the first reads enough. -/
theorem bind [Nonempty α] {q : α → Rule β} (hp : p.Explains size f bound mute)
    (hq : ∀ a, (q a).Explains size g bound' False)
    (hbound : ∀ us rest : List Lexeme, f.Matches size us → (us ++ rest).length < bound →
      rest.length < bound') :
    (p >>= q).Explains size (f ++ g) bound mute := by
  obtain ⟨a₀⟩ := ‹Nonempty α›
  have hg := (hq a₀).completable
  -- A failure of the first rule is one of the sequence, as the second part can be completed.
  have hfirst : ∀ {ts} {e : Failure}, e.Honest size f ts → e.Honest size (f ++ g) ts :=
    fun he => he.mono fun _ hvs => hvs.first hg
  refine ⟨?_, ?_, ?_⟩
  · obtain ⟨us, hus⟩ := hp.completable
    obtain ⟨vs, hvs⟩ := hg
    exact ⟨us ++ vs, hus.append hvs⟩
  · intro ts b rest s hlen h
    rw [bind_apply] at h
    cases hpts : p ts with
    | fail e => simp [hpts] at h
    | ok a mid s₁ =>
      obtain ⟨⟨us, rfl, hus⟩, hs₁⟩ := hp.ok hlen hpts
      simp only [hpts] at h
      cases hqmid : q a mid with
      | fail e => cases s₁ <;> simp [hqmid, Outcome.remember] at h
      | ok c rest' s₂ =>
        simp only [hqmid, Outcome.remember, Outcome.ok.injEq] at h
        obtain ⟨rfl, rfl, rfl⟩ := h
        obtain ⟨⟨vs, rfl, hvs⟩, hs₂⟩ := (hq a).ok (hbound us _ hus hlen) hqmid
        refine ⟨⟨us ++ vs, (List.append_assoc ..).symm, hus.append hvs⟩, ?_⟩
        refine forall_mem_furthest? (fun _ _ => Failure.Told.furthest) ?_ ?_
        · intro e he
          obtain ⟨hhonest, hsilent⟩ := hs₁ e he
          refine ⟨hfirst hhonest, fun hnone => Nat.le_trans ?_ (hsilent hnone)⟩
          simp
        · intro e he
          obtain ⟨hhonest, hsilent⟩ := hs₂ e he
          exact ⟨hhonest.behind fun _ hws => hus.second hws, hsilent⟩
  · intro ts e hlen h
    rw [bind_apply] at h
    cases hpts : p ts with
    | fail e' =>
      simp only [hpts, Outcome.fail.injEq] at h
      obtain rfl := h
      obtain ⟨hhonest, hsilent⟩ := hp.fail hlen hpts
      exact ⟨hfirst hhonest, hsilent⟩
    | ok a mid s₁ =>
      obtain ⟨⟨us, rfl, hus⟩, hs₁⟩ := hp.ok hlen hpts
      simp only [hpts] at h
      cases hqmid : q a mid with
      | ok c rest' s₂ => simp [hqmid, Outcome.remember] at h
      | fail e' =>
        obtain ⟨hhonest', hsilent'⟩ := (hq a).fail (hbound us mid hus hlen) hqmid
        have hlater := hhonest'.behind fun _ hws => hus.second hws
        cases s₁ with
        | none =>
          simp only [hqmid, Outcome.remember, Outcome.fail.injEq] at h
          obtain rfl := h
          exact ⟨hlater, fun hnone => (hsilent' hnone).1.elim⟩
        | some e₁ =>
          simp only [hqmid, Outcome.remember, Outcome.fail.injEq] at h
          obtain rfl := h
          obtain ⟨hhonest, hsilent⟩ := hs₁ e₁ rfl
          have hmid := hhonest'.suffix.length_le
          exact ⟨(hfirst hhonest).furthest hlater, fun hnone => absurd hnone
            (Failure.expected_furthest_ne_nil (fun h => Nat.le_trans hmid (hsilent h))
              fun h => (hsilent' h).1)⟩

/-- The second rule is held to the same bound. -/
theorem andThen [Nonempty α] {q : α → Rule β} (hp : p.Explains size f bound mute)
    (hq : ∀ a, (q a).Explains size g bound False) :
    (p >>= q).Explains size (f ++ g) bound mute := by
  refine hp.bind hq fun us rest _ hlen => ?_
  rw [List.length_append] at hlen
  omega

theorem orElse (hp : p.Explains size f bound False) (hq : q.Explains size g bound False) :
    (p <|> q).Explains size (f <|> g) bound False := by
  refine ⟨?_, ?_, ?_⟩
  · obtain ⟨us, hus⟩ := hp.completable
    exact ⟨us, hus.left⟩
  · intro ts a rest s hlen h
    rw [orElse_apply] at h
    cases hpts : p ts with
    | ok b mid s₁ =>
      simp only [hpts, Outcome.ok.injEq] at h
      obtain ⟨rfl, rfl, rfl⟩ := h
      obtain ⟨⟨us, hts, hus⟩, hs⟩ := hp.ok hlen hpts
      exact ⟨⟨us, hts, hus.left⟩, fun e he => ⟨(hs e he).1.mono fun _ h => h.left, (hs e he).2⟩⟩
    | fail e =>
      cases hqts : q ts with
      | fail e' => simp [hpts, hqts] at h
      | ok b mid s₁ =>
        simp only [hpts, hqts, Outcome.ok.injEq] at h
        obtain ⟨rfl, rfl, rfl⟩ := h
        obtain ⟨⟨us, hts, hus⟩, hs⟩ := hq.ok hlen hqts
        exact ⟨⟨us, hts, hus.right⟩,
          fun e he => ⟨(hs e he).1.mono fun _ h => h.right, (hs e he).2⟩⟩
  · intro ts e hlen h
    rw [orElse_apply] at h
    cases hpts : p ts with
    | ok b mid s₁ => simp [hpts] at h
    | fail e₁ =>
      cases hqts : q ts with
      | ok b mid s₁ => simp [hpts, hqts] at h
      | fail e₂ =>
        simp only [hpts, hqts, Outcome.fail.injEq] at h
        obtain rfl := h
        obtain ⟨hhonest₁, hsilent₁⟩ := hp.fail hlen hpts
        obtain ⟨hhonest₂, hsilent₂⟩ := hq.fail hlen hqts
        exact ⟨(hhonest₁.mono fun _ h => h.left).furthest (hhonest₂.mono fun _ h => h.right),
          fun hnone => absurd hnone (Failure.expected_furthest_ne_nil
            (fun h => (hsilent₁ h).1.elim) fun h => (hsilent₂ h).1)⟩

theorem optional (hp : p.Explains size f bound mute) :
    (Rule.optional p).Explains size f.optional bound False := by
  refine ⟨⟨[], Form.matches_absent f⟩, ?_, ?_⟩
  · intro ts a rest s hlen h
    unfold Rule.optional at h
    cases hpts : p ts with
    | ok b mid s₁ =>
      simp only [hpts, Outcome.ok.injEq] at h
      obtain ⟨-, rfl, rfl⟩ := h
      obtain ⟨⟨us, hts, hus⟩, hs⟩ := hp.ok hlen hpts
      exact ⟨⟨us, hts, hus.left⟩, fun e he => ⟨(hs e he).1.mono fun _ h => h.left, (hs e he).2⟩⟩
    | fail e =>
      simp only [hpts, Outcome.ok.injEq] at h
      obtain ⟨-, rfl, rfl⟩ := h
      obtain ⟨hhonest, hsilent⟩ := hp.fail hlen hpts
      refine ⟨⟨[], rfl, Form.matches_absent f⟩, ?_⟩
      rintro e' ⟨⟩
      refine ⟨hhonest.mono fun _ h => h.left, fun hnone => ?_⟩
      exact Nat.le_of_eq (congrArg List.length (hsilent hnone).2.symm)
  · intro ts e _ h
    exact absurd ⟨e, h⟩ fails_optional

/-- **A repetition ends at a failure of its item**, and keeps it. -/
theorem many (hp : p.Explains size f bound mute) :
    Explains size (Rule.many p) (.repeated f) bound False := by
  refine ⟨⟨[], Form.matches_done f⟩, ?_, ?_⟩
  · intro ts as rest s hlen h
    induction hn : ts.length using Nat.strongRecOn generalizing ts as rest s with
    | _ n ih =>
      rw [many_apply] at h
      cases hpts : p ts with
      | fail e =>
        simp only [hpts, Outcome.ok.injEq] at h
        obtain ⟨-, rfl, rfl⟩ := h
        obtain ⟨hhonest, hsilent⟩ := hp.fail hlen hpts
        refine ⟨⟨[], rfl, Form.matches_done f⟩, ?_⟩
        rintro e' ⟨⟩
        refine ⟨hhonest.mono fun _ h => h.item, fun hnone => ?_⟩
        exact Nat.le_of_eq (congrArg List.length (hsilent hnone).2.symm)
      | ok a mid s₁ =>
        obtain ⟨⟨us, rfl, hus⟩, hs₁⟩ := hp.ok hlen hpts
        have hitem : ∀ e ∈ s₁, e.Told size (.repeated f) (us ++ mid) mid.length := fun e he =>
          ⟨(hs₁ e he).1.mono fun _ h => h.item, (hs₁ e he).2⟩
        simp only [hpts] at h
        split at h
        · rename_i hlt
          cases hmany : Rule.many p mid with
          | fail e => exact absurd ⟨e, hmany⟩ fails_many
          | ok bs rest' s₂ =>
            simp only [hmany, Outcome.map, Outcome.remember, Outcome.ok.injEq] at h
            obtain ⟨-, rfl, rfl⟩ := h
            obtain ⟨⟨vs, rfl, hvs⟩, hs₂⟩ := ih _ (hn ▸ hlt) (by omega) hmany rfl
            refine ⟨⟨us ++ vs, (List.append_assoc ..).symm, hus.again hvs⟩, ?_⟩
            refine forall_mem_furthest? (fun _ _ => Failure.Told.furthest) ?_ ?_
            · intro e he
              refine ⟨(hitem e he).1, fun hnone => Nat.le_trans ?_ ((hitem e he).2 hnone)⟩
              simp
            · intro e he
              exact ⟨(hs₂ e he).1.behind fun _ h => hus.further h, (hs₂ e he).2⟩
        · simp only [Outcome.ok.injEq] at h
          obtain ⟨-, rfl, rfl⟩ := h
          exact ⟨⟨us, rfl, hus.item⟩, hitem⟩
  · intro ts e _ h
    exact absurd ⟨e, h⟩ fails_many

end Explains

end Rule

end ImpFront
