import ImpFront.Proofs.Failure.Reach

/-!
# Where a part ends

A reader that looks one token ahead has to know from that token whether a part has
ended. `Form.Continues` lists the tokens that may go on with what a form matches:
an operator may go on with an expression, and `else` with a conditional. As long as
none of them begins what follows, a rule reads each part to its end and no further
(`Rule.Recognizes`). Both are closed under the ways of putting forms together.

The two are close. A rule that reads a match of its form wherever none of some tokens
comes next can be asked about two matches, one of them longer, and must take both
unless the longer one goes on with such a token (`continues_of_recognizes`). So
where completeness is known already, the tokens that go on need no proof of their
own.
-/

namespace ImpFront

open Ebnf Rule

variable {α β : Type} {size bound bound' : Nat} {f g : Form} {p q : Rule α} {mute : Prop}
  {l : Lexeme} {us vs rest : List Lexeme} {conts others : List Token}

/-! ## The tokens that go on with a form -/

namespace Ebnf

/-- **Only these tokens go on** with what the form matches, if anything does. -/
def Form.Continues (size : Nat) (f : Form) (conts : List Token) : Prop :=
  ∀ ⦃us l vs⦄, f.Matches size us → f.Viable size (us ++ l :: vs) → l.token ∈ conts

/-- Behind two parts in a row only the second one goes on – or the first, if the second
is empty. -/
theorem Form.Continues.viable_second (hf : f.Continues size conts)
    (hdisj : ∀ t ∈ conts, t ∉ g.first) {ts ws : List Lexeme} (hts : f.Matches size ts)
    (hws : g.Matches size ws) (h : (f ++ g).Viable size (ts ++ ws ++ l :: vs)) :
    g.Viable size (ws ++ l :: vs) ∨ ws = [] ∧ l.token ∈ conts := by
  obtain ⟨more, hmore⟩ := h
  obtain ⟨ts', ws', heq, hts', hws'⟩ := matches_append.mp hmore
  rw [List.append_assoc, List.append_assoc] at heq
  rcases List.append_eq_append_iff.mp heq with ⟨ks, rfl, hks⟩ | ⟨ks, rfl, rfl⟩
  · cases ks with
    | nil =>
      refine .inl ⟨more, ?_⟩
      rwa [List.append_assoc, hks]
    | cons k ks =>
      -- The first part of the longer phrase is longer.
      have hk := hf hts hts'.viable
      cases ws with
      | nil =>
        obtain ⟨rfl, -⟩ : l = k ∧ _ := by simpa using hks
        exact .inr ⟨rfl, hk⟩
      | cons w ws =>
        obtain ⟨rfl, -⟩ : w = k ∧ _ := by simpa using hks
        exact absurd hws.viable.mem_first (hdisj _ hk)
  · cases ks with
    | nil => exact .inl ⟨more, by rwa [List.append_assoc]⟩
    | cons k ks =>
      have hk := hf hts' hts.viable
      exact absurd (hws'.viable.mem_first) (hdisj _ hk)

theorem continues_congr (h : f.Continues size conts)
    (hfg : ∀ us, f.Matches size us ↔ g.Matches size us) : g.Continues size conts := by
  rintro us l vs hus ⟨ws, hws⟩
  exact h ((hfg us).mpr hus) ⟨ws, (hfg _).mpr hws⟩

namespace Form.Continues

theorem weaken (h : f.Continues size conts) (hsub : conts ⊆ others) : f.Continues size others :=
  fun _ _ _ hus hviable => hsub (h hus hviable)

theorem append (hf : f.Continues size conts) (hg : g.Continues size others)
    (hdisj : ∀ t ∈ conts, t ∉ g.first) (hconts : g.consumes = true ∨ conts ⊆ others) :
    (f ++ g).Continues size others := by
  intro us l vs hus hviable
  obtain ⟨ts, ws, rfl, hts, hws⟩ := matches_append.mp hus
  rcases hf.viable_second hdisj hts hws hviable with h | ⟨rfl, hl⟩
  · exact hg hws h
  · exact hconts.resolve_left (fun hc => hws.ne_nil hc rfl) hl

theorem optional (hf : f.Continues size conts) : f.optional.Continues size (f.first ++ conts) := by
  rintro us l vs hus ⟨ws, hws⟩
  rcases matches_orElse.mp hws with h | h
  · rcases matches_orElse.mp hus with hus | hus
    · exact List.mem_append_right _ (hf hus ⟨ws, h⟩)
    · obtain rfl := matches_nothing.mp hus
      exact List.mem_append_left _ h.viable.of_append.mem_first
  · simp at h

theorem repeated (hf : f.Continues size conts) (hdisj : ∀ t ∈ conts, t ∉ f.first) :
    (Form.repeated f).Continues size (f.first ++ conts) := by
  intro us l vs hus hviable
  induction hus using Form.Matches.repeated_induction with
  | done => exact List.mem_append_left _ hviable.mem_first
  | again us ws hus hws ih =>
    obtain ⟨more, hmore⟩ := hviable
    have hitems := (matches_repeated.mp hmore).resolve_left (by simp)
    rcases hf.viable_second (g := .repeated f) hdisj hus hws ⟨more, hitems⟩ with h | ⟨-, hl⟩
    · exact ih h
    · exact List.mem_append_right _ hl

end Form.Continues

/-- Behind a match a form is stuck, unless a token comes that goes on with it. -/
theorem Form.Continues.stuck (h : f.Continues size conts) (hus : f.Matches size us)
    (hnext : ∀ t ∈ conts, nextToken rest ≠ some t) : f.Stuck size us rest := by
  intro l hl hviable
  refine hnext l.token (h hus hviable) ?_
  rw [nextToken, Option.mem_def.mp hl]
  rfl

end Ebnf

/-! ## Reading up to the end of a match -/

/-- **The rule reads what the form matches**, if no token comes next that may go on
with it, and there are fewer than `bound` tokens. -/
def Rule.Recognizes (size : Nat) (p : Rule α) (f : Form) (bound : Nat) (conts : List Token) :
    Prop :=
  ∀ ⦃us rest⦄, (us ++ rest).length < bound → f.Matches size us →
    (∀ t ∈ conts, nextToken rest ≠ some t) → ∃ a, p.Reads (us ++ rest) a rest

/-- The tokens up to which a rule reads are those that go on with the form. -/
theorem Ebnf.continues_of_recognizes (h : ∀ bound, p.Recognizes size f bound conts) :
    f.Continues size conts := by
  rintro us l vs hus ⟨ws, hws⟩
  by_contra hnot
  have hnext : ∀ t ∈ conts, nextToken (l :: vs ++ ws) ≠ some t := by
    rintro t ht heq
    obtain rfl : l.token = t := by simpa using heq
    exact hnot ht
  -- The rule would read both the longer match and the shorter one.
  have hlen : (us ++ l :: vs ++ ws ++ []).length < (us ++ l :: vs ++ ws ++ []).length + 1 :=
    Nat.lt_succ_self _
  obtain ⟨a, ha⟩ := h _ hlen hws (by simp)
  obtain ⟨b, hb⟩ := h _ (Nat.lt_succ_self _) hus hnext
  rw [List.append_nil, List.append_assoc] at ha
  exact absurd (ha.unique hb).2 (by simp)

namespace Rule.Recognizes

theorem weaken (h : p.Recognizes size f bound conts) (hsub : conts ⊆ others) :
    p.Recognizes size f bound others :=
  fun _ _ hlen hus hnext => h hlen hus fun t ht => hnext t (hsub ht)

theorem of_accepts {p : Rule TreeShape} {n : Nonterminal} {follow : List Lexeme → Prop}
    (h : p.Accepts size n bound follow)
    (hfollow : ∀ rest, (∀ t ∈ conts, nextToken rest ≠ some t) → follow rest) :
    p.Recognizes size (.rule n) bound conts := by
  rintro us rest hlen ⟨parts, hus⟩ hnext
  rw [List.length_append] at hlen
  obtain ⟨t, -, ht⟩ := h (by omega) hus (hfollow rest hnext)
  exact ⟨t, ht⟩

theorem token (t : Token) : (Rule.token t).Recognizes size (.token t) bound [] := by
  rintro us rest - hus -
  obtain ⟨span, rfl⟩ := Form.matches_token.mp hus
  exact ⟨span, reads_token.mpr rfl⟩

/-- The second part begins with none of the tokens that go on with the first, and if
it may be empty, they go on with the sequence. -/
theorem bind {q : α → Rule β} (hp : p.Recognizes size f bound conts)
    (hq : ∀ a, (q a).Recognizes size g bound' others) (hdisj : ∀ t ∈ conts, t ∉ g.first)
    (hconts : g.consumes = true ∨ conts ⊆ others)
    (hbound : ∀ us rest : List Lexeme, f.Matches size us → (us ++ rest).length < bound →
      rest.length < bound') :
    (p >>= q).Recognizes size (f ++ g) bound others := by
  intro us rest hlen hus hnext
  obtain ⟨us, vs, rfl, hf, hg⟩ := Form.matches_append.mp hus
  rw [List.append_assoc] at hlen ⊢
  have hmid : ∀ t ∈ conts, nextToken (vs ++ rest) ≠ some t := by
    intro t ht
    cases vs with
    | nil => exact hnext t (hconts.resolve_left (fun hc => hg.ne_nil hc rfl) ht)
    | cons l vs =>
      rintro heq
      obtain rfl : l.token = t := by simpa using heq
      exact hdisj _ ht hg.viable.mem_first
  obtain ⟨a, ha⟩ := hp hlen hf hmid
  obtain ⟨b, hb⟩ := hq a (hbound us _ hf hlen) hg hnext
  exact ⟨b, reads_bind.mpr ⟨a, _, ha, hb⟩⟩

/-- What is made of the value does not matter. -/
theorem map (hp : p.Recognizes size f bound conts) (h : α → β) :
    (p >>= fun a => Pure.pure (h a)).Recognizes size f bound conts := by
  intro us rest hlen hus hnext
  obtain ⟨a, ha⟩ := hp hlen hus hnext
  exact ⟨h a, reads_bind.mpr ⟨a, rest, ha, reads_pure.mpr ⟨rfl, rfl⟩⟩⟩

theorem congr (h : p.Recognizes size f bound conts)
    (hfg : ∀ us, f.Matches size us ↔ g.Matches size us) : p.Recognizes size g bound conts :=
  fun us _ hlen hus hnext => h hlen ((hfg us).mpr hus) hnext

theorem rule {n : Nonterminal} (h : p.Recognizes size (production n) bound conts) :
    p.Recognizes size (.rule n) bound conts :=
  h.congr fun _ => Form.matches_rule.symm

/-- Where an optional part may begin, its absence is not known yet. -/
theorem optional (hp : p.Recognizes size f bound conts) (hexplains : p.Explains size f bound mute)
    (hf : f.consumes = true) :
    (Rule.optional p).Recognizes size f.optional bound (f.first ++ conts) := by
  intro us rest hlen hus hnext
  rcases Form.matches_orElse.mp hus with h | h
  · obtain ⟨a, ha⟩ := hp hlen h fun t ht => hnext t (List.mem_append_right _ ht)
    exact ⟨some a, reads_optional.mpr (.inl ⟨a, rfl, ha⟩)⟩
  · obtain rfl := Form.matches_nothing.mp h
    have hfails := hexplains.fails hlen hf fun t ht => hnext t (List.mem_append_left _ ht)
    exact ⟨none, reads_optional.mpr (.inr ⟨rfl, rfl, hfails⟩)⟩

/-- **A repetition is read to its end**, if no token that begins an item may go on
with the one before. -/
theorem many (hp : p.Recognizes size f bound conts) (hexplains : p.Explains size f bound mute)
    (hf : f.consumes = true) (hdisj : ∀ t ∈ conts, t ∉ f.first) :
    Recognizes size (Rule.many p) (.repeated f) bound (f.first ++ conts) := by
  intro us rest hlen hus hnext
  induction hus using Form.Matches.repeated_induction with
  | done =>
    have hfails := hexplains.fails hlen hf fun t ht => hnext t (List.mem_append_left _ ht)
    exact ⟨[], reads_many_nil hfails⟩
  | again us vs hus hvs ih =>
    rw [List.append_assoc] at hlen ⊢
    have hpos := List.length_pos_iff.mpr (hus.ne_nil hf)
    have hmid : ∀ t ∈ conts, nextToken (vs ++ rest) ≠ some t := by
      intro t ht heq
      cases vs with
      | nil => exact hnext t (List.mem_append_right _ ht) heq
      | cons l vs =>
        obtain rfl : l.token = t := by simpa using heq
        exact hdisj _ ht hvs.viable.mem_first
    obtain ⟨a, ha⟩ := hp hlen hus hmid
    rw [List.length_append] at hlen
    obtain ⟨as, has⟩ := ih (by omega)
    refine ⟨a :: as, reads_many_cons ha ?_ has⟩
    simp only [List.length_append]
    omega

end Rule.Recognizes

end ImpFront
