import ImpFront.Proofs.Grammar.Derivation

/-!
# Sentences and how they begin

Which tokens a form matches, whatever trees they make (`Form.Matches`), and which
tokens some match of it begins with (`Form.Viable`). A rule that reads its tokens
from left to right and meets a token that does not fit has read something viable;
so this is the language in which failures are described.

The productions of the grammar group their parts to the left, while a rule goes
through its steps one by one, to the right. `Form.steps` forgets the difference:
forms with the same steps match the same tokens.
-/

namespace ImpFront.Ebnf

variable {size : Nat} {f g : Form} {ts us vs : List Lexeme} {parts : List TreeShape}

/-! ## Forms that consume tokens -/

/-- Whether a form derives no empty list of tokens. -/
def Form.consumes : Form → Bool
  | .nothing | .repeated _ => false
  | .token _ | .leaf _ _ => true
  | .rule n => n ≠ .program
  | .sequence f g => f.consumes || g.consumes
  | .choice f g => f.consumes && g.consumes

theorem consumes_production {n : Nonterminal} (hn : n ≠ .program) :
    (production n).consumes = true := by
  cases n with
  | program => exact absurd rfl hn
  | level l => cases l <;> rfl
  | _ => rfl

/-- **A form that consumes tokens derives some.** -/
theorem Derives.ne_nil (h : Derives size f ts parts) (hf : f.consumes = true) : ts ≠ [] := by
  induction h with
  | nothing => simp [Form.consumes] at hf
  | token => simp
  | leaf => simp
  | rule n _ ih => exact ih (consumes_production (by simpa [Form.consumes] using hf))
  | @sequence f g ts us _ _ _ _ ihf ihg =>
    have hf : (f.consumes || g.consumes) = true := hf
    rw [ne_eq, List.append_eq_nil_iff, not_and_or]
    rcases (Bool.or_eq_true _ _).mp hf with h | h
    · exact .inl (ihf h)
    · exact .inr (ihg h)
  | @left f g _ _ _ ih =>
    have hf : (f.consumes && g.consumes) = true := hf
    exact ih ((Bool.and_eq_true _ _).mp hf).1
  | @right f g _ _ _ ih =>
    have hf : (f.consumes && g.consumes) = true := hf
    exact ih ((Bool.and_eq_true _ _).mp hf).2
  | done => simp [Form.consumes] at hf
  | again => simp [Form.consumes] at hf

/-! ## What a form matches -/

namespace Form

/-- **The form matches all of the tokens.** -/
def Matches (size : Nat) (f : Form) (us : List Lexeme) : Prop := ∃ parts, Derives size f us parts

/-- **Some match of the form begins with the tokens.** -/
def Viable (size : Nat) (f : Form) (us : List Lexeme) : Prop := ∃ vs, f.Matches size (us ++ vs)

@[simp] theorem matches_nothing : nothing.Matches size us ↔ us = [] := by
  simp [Matches]

theorem matches_token {t : Token} : (token t).Matches size us ↔ ∃ span, us = [⟨t, span⟩] := by
  simp [Matches]

theorem matches_leaf {kind : NodeKind} {tokens : List Token} :
    (leaf kind tokens).Matches size us ↔ ∃ t ∈ tokens, ∃ span, us = [⟨t, span⟩] := by
  constructor
  · rintro ⟨_, h⟩
    obtain ⟨t, ht, span, rfl, -⟩ := derives_leaf.mp h
    exact ⟨t, ht, span, rfl⟩
  · rintro ⟨t, ht, span, rfl⟩
    exact ⟨_, .leaf kind span ht⟩

theorem matches_rule {n : Nonterminal} :
    (rule n).Matches size us ↔ (production n).Matches size us := by
  constructor
  · rintro ⟨_, h⟩
    obtain ⟨inner, h, -⟩ := derives_rule.mp h
    exact ⟨inner, h⟩
  · rintro ⟨inner, h⟩
    exact ⟨_, .rule n h⟩

theorem matches_append :
    (f ++ g).Matches size us
      ↔ ∃ ts vs, us = ts ++ vs ∧ f.Matches size ts ∧ g.Matches size vs := by
  constructor
  · rintro ⟨_, h⟩
    obtain ⟨ts, vs, _, _, rfl, -, hf, hg⟩ := derives_append.mp h
    exact ⟨ts, vs, rfl, ⟨_, hf⟩, ⟨_, hg⟩⟩
  · rintro ⟨ts, vs, rfl, ⟨_, hf⟩, ⟨_, hg⟩⟩
    exact ⟨_, .sequence hf hg⟩

theorem matches_orElse :
    (f <|> g).Matches size us ↔ f.Matches size us ∨ g.Matches size us := by
  simp only [Matches, derives_orElse, exists_or]

theorem Matches.append (hf : f.Matches size ts) (hg : g.Matches size us) :
    (f ++ g).Matches size (ts ++ us) :=
  matches_append.mpr ⟨ts, us, rfl, hf, hg⟩

theorem Matches.left (h : f.Matches size us) : (f <|> g).Matches size us :=
  matches_orElse.mpr (.inl h)

theorem Matches.right (h : g.Matches size us) : (f <|> g).Matches size us :=
  matches_orElse.mpr (.inr h)

theorem matches_done (f : Form) : (repeated f).Matches size [] := ⟨[], .done f⟩

theorem Matches.again (hf : f.Matches size ts) (hfs : (repeated f).Matches size us) :
    (repeated f).Matches size (ts ++ us) := by
  obtain ⟨_, hf⟩ := hf
  obtain ⟨_, hfs⟩ := hfs
  exact ⟨_, hf.again hfs⟩

theorem Matches.item (h : f.Matches size us) : (repeated f).Matches size us := by
  have hrepeated := h.again (matches_done f)
  rwa [List.append_nil] at hrepeated

/-- **Item by item**: what a repetition matches are items in a row. -/
theorem Matches.repeated_induction
    {motive : (us : List Lexeme) → (repeated f).Matches size us → Prop}
    (done : motive [] (matches_done f))
    (again : ∀ ts us (hf : f.Matches size ts) (hfs : (repeated f).Matches size us),
      motive us hfs → motive (ts ++ us) (hf.again hfs))
    {us : List Lexeme} (h : (repeated f).Matches size us) : motive us h := by
  obtain ⟨parts, hder⟩ := h
  suffices hform : ∀ form, Derives size form us parts → repeated f = form → ∀ h, motive us h from
    hform _ hder rfl _
  intro form hder hform
  induction hder with
  | done => exact fun _ => done
  | again hf hfs _ ih =>
    cases hform
    exact fun _ => again _ _ ⟨_, hf⟩ ⟨_, hfs⟩ (ih hfs rfl _)
  | nothing => cases hform
  | token => cases hform
  | leaf => cases hform
  | rule => cases hform
  | sequence => cases hform
  | left => cases hform
  | right => cases hform

/-- A repetition is nothing, or an item and a repetition. -/
theorem matches_repeated :
    (repeated f).Matches size us ↔ us = [] ∨ (f ++ repeated f).Matches size us := by
  constructor
  · rintro ⟨_, h⟩
    cases h with
    | done => exact .inl rfl
    | again hf hfs => exact .inr ⟨_, hf.sequence hfs⟩
  · rintro (rfl | h)
    · exact matches_done f
    · obtain ⟨ts, us, rfl, hf, hfs⟩ := matches_append.mp h
      exact hf.again hfs

theorem matches_absent (f : Form) : f.optional.Matches size [] := .right (matches_nothing.mpr rfl)

theorem Matches.ne_nil (h : f.Matches size us) (hf : f.consumes = true) : us ≠ [] := by
  obtain ⟨_, h⟩ := h
  exact h.ne_nil hf

/-! ## What a form may begin with -/

theorem Matches.viable (h : f.Matches size us) : f.Viable size us :=
  ⟨[], by rwa [List.append_nil]⟩

/-- What begins something viable is viable. -/
theorem Viable.of_append (h : f.Viable size (us ++ vs)) : f.Viable size us := by
  obtain ⟨ws, h⟩ := h
  exact ⟨vs ++ ws, by rwa [← List.append_assoc]⟩

theorem viable_rule {n : Nonterminal} :
    (rule n).Viable size us ↔ (production n).Viable size us := by
  simp only [Viable, matches_rule]

theorem Viable.left (h : f.Viable size us) : (f <|> g).Viable size us := by
  obtain ⟨vs, h⟩ := h
  exact ⟨vs, h.left⟩

theorem Viable.right (h : g.Viable size us) : (f <|> g).Viable size us := by
  obtain ⟨vs, h⟩ := h
  exact ⟨vs, h.right⟩

/-- A sequence begins like its first part, if the second part can be completed. -/
theorem Viable.first (h : f.Viable size us) (hg : ∃ vs, g.Matches size vs) :
    (f ++ g).Viable size us := by
  obtain ⟨vs, h⟩ := h
  obtain ⟨ws, hg⟩ := hg
  exact ⟨vs ++ ws, by simpa using h.append hg⟩

/-- Behind its first part a sequence goes on like the second. -/
theorem Matches.second (hf : f.Matches size ts) (h : g.Viable size us) :
    (f ++ g).Viable size (ts ++ us) := by
  obtain ⟨vs, h⟩ := h
  exact ⟨vs, by simpa using hf.append h⟩

theorem Viable.item (h : f.Viable size us) : (repeated f).Viable size us := by
  obtain ⟨vs, h⟩ := h
  exact ⟨vs, h.item⟩

theorem Matches.further (hf : f.Matches size ts) (h : (repeated f).Viable size us) :
    (repeated f).Viable size (ts ++ us) := by
  obtain ⟨vs, h⟩ := h
  exact ⟨vs, by simpa using hf.again h⟩

/-- Behind any number of items a repetition goes on. -/
theorem Matches.further_items (hts : (repeated f).Matches size ts)
    (h : (repeated f).Viable size us) : (repeated f).Viable size (ts ++ us) := by
  induction hts using Matches.repeated_induction with
  | done => exact h
  | again ts vs hts _ ih =>
    rw [List.append_assoc]
    exact hts.further ih

/-! ## Sequences as steps -/

/-- **The steps of a form**: what it consists of, one part after another. -/
def steps : Form → List Form
  | nothing => []
  | sequence f g => f.steps ++ g.steps
  | f => [f]

/-- Several forms in sequence, grouped to the right. -/
def inOrder (fs : List Form) : Form := fs.foldr (· ++ ·) nothing

/-- **A relation that does not see how sequences are grouped.** -/
structure Regroups (R : Form → Form → Prop) : Prop where
  /-- It is an equivalence. -/
  equivalence : Equivalence R
  /-- It goes along with sequences. -/
  append : ∀ {f f' g g'}, R f f' → R g g' → R (f ++ g) (f' ++ g')
  /-- Grouping is not seen. -/
  assoc : ∀ f g h, R (f ++ (g ++ h)) (f ++ g ++ h)
  /-- A part without tokens is not seen in front. -/
  nothing_append : ∀ f, R (nothing ++ f) f
  /-- A part without tokens is not seen behind. -/
  append_nothing : ∀ f, R (f ++ nothing) f

namespace Regroups

variable {R : Form → Form → Prop}

theorem inOrder_append (hR : Regroups R) (fs gs : List Form) :
    R (inOrder (fs ++ gs)) (inOrder fs ++ inOrder gs) := by
  induction fs with
  | nil => exact hR.equivalence.symm (hR.nothing_append _)
  | cons f fs ih =>
    exact hR.equivalence.trans (hR.append (hR.equivalence.refl f) ih) (hR.assoc _ _ _)

theorem inOrder_steps (hR : Regroups R) (f : Form) : R (inOrder f.steps) f := by
  induction f with
  | sequence f g ihf ihg =>
    exact hR.equivalence.trans (hR.inOrder_append f.steps g.steps) (hR.append ihf ihg)
  | nothing => exact hR.equivalence.refl _
  | token => exact hR.append_nothing _
  | leaf => exact hR.append_nothing _
  | rule => exact hR.append_nothing _
  | choice => exact hR.append_nothing _
  | repeated => exact hR.append_nothing _

/-- **Forms with the same steps are related.** -/
theorem of_steps (hR : Regroups R) (h : f.steps = g.steps) : R f g := by
  have hf := hR.inOrder_steps f
  rw [h] at hf
  exact hR.equivalence.trans (hR.equivalence.symm hf) (hR.inOrder_steps g)

end Regroups

/-- What a sequence matches does not depend on its grouping. -/
theorem regroups_matches (size : Nat) :
    Regroups fun f g => ∀ us, f.Matches size us ↔ g.Matches size us := by
  constructor
  case equivalence =>
    exact ⟨fun _ _ => Iff.rfl, fun h us => (h us).symm, fun h h' us => (h us).trans (h' us)⟩
  case append =>
    intro f f' g g' hf hg us
    simp only [matches_append, hf, hg]
  case assoc =>
    intro f g h us
    constructor
    · intro hfgh
      obtain ⟨ts, _, rfl, hf, hgh⟩ := matches_append.mp hfgh
      obtain ⟨vs, ws, rfl, hg, hh⟩ := matches_append.mp hgh
      rw [← List.append_assoc]
      exact (hf.append hg).append hh
    · intro hfgh
      obtain ⟨_, ws, rfl, hfg, hh⟩ := matches_append.mp hfgh
      obtain ⟨ts, vs, rfl, hf, hg⟩ := matches_append.mp hfg
      rw [List.append_assoc]
      exact hf.append (hg.append hh)
  case nothing_append =>
    intro f us
    simp [matches_append]
  case append_nothing =>
    intro f us
    simp [matches_append]

theorem matches_singleton : (f ++ nothing).Matches size us ↔ f.Matches size us :=
  (regroups_matches size).append_nothing f us

/-- **Forms with the same steps match the same.** -/
theorem matches_congr (h : f.steps = g.steps) : f.Matches size us ↔ g.Matches size us :=
  (regroups_matches size).of_steps h us

end Form

end ImpFront.Ebnf
