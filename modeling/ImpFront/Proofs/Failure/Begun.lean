import ImpFront.Proofs.Grammar.Sentences

/-!
# Phrases that have begun

`Begun size f c d` looks at tokens `c` that begin a phrase of the form `f` and
says what stands open behind them: `d` is the last part of `c`, from the
parenthesis of the outermost call on whose arguments are not closed yet, and
empty if no call is open.

Only calls count here. The parenthesis of a group, of a condition or of a list
of parameters may be open as well, but a reader that gets stuck inside of them has
no other way to go, whereas a name with a parenthesis behind it could have been a
variable.
-/

namespace ImpFront.Ebnf

open Form

/-- **A phrase has begun**, with an open call or without. -/
inductive Begun (size : Nat) : Form → List Lexeme → List Lexeme → Prop
  /-- No token has been read. -/
  | none {f : Form} {us : List Lexeme} (h : f.Matches size us) : Begun size f [] []
  /-- The phrase is complete. -/
  | whole {f : Form} {us : List Lexeme} (h : f.Matches size us) : Begun size f us []
  /-- The name of a call. -/
  | name (span : Span) : Begun size (.rule .call) [⟨.ident, span⟩] []
  /-- The name of a call, its parenthesis, and some of the arguments. -/
  | open {span opening : Span} {c vs : List Lexeme} (hvs : vs ≠ [])
      (h : (rule .call).Matches size
        (⟨.ident, span⟩ :: ⟨.symbol .openParen, opening⟩ :: (c ++ vs))) :
      Begun size (.rule .call) (⟨.ident, span⟩ :: ⟨.symbol .openParen, opening⟩ :: c)
        (⟨.symbol .openParen, opening⟩ :: c)
  /-- A phrase of another nonterminal. -/
  | rule {n : Nonterminal} {c d : List Lexeme} (hn : n ≠ .call)
      (h : Begun size (production n) c d) : Begun size (.rule n) c d
  /-- The first part of a sequence. -/
  | first {f g : Form} {c d vs : List Lexeme} (h : Begun size f c d) (hg : g.Matches size vs) :
      Begun size (f ++ g) c d
  /-- The second part, behind a first one that is complete. -/
  | second {f g : Form} {us c d : List Lexeme} (hf : f.Matches size us)
      (h : Begun size g c d) : Begun size (f ++ g) (us ++ c) d
  | left {f : Form} (g : Form) {c d : List Lexeme} (h : Begun size f c d) :
      Begun size (f <|> g) c d
  | right (f : Form) {g : Form} {c d : List Lexeme} (h : Begun size g c d) :
      Begun size (f <|> g) c d
  /-- An item of a repetition. -/
  | item {f : Form} {c d : List Lexeme} (h : Begun size f c d) : Begun size (.repeated f) c d
  /-- An item behind a complete one. -/
  | again {f : Form} {us c d : List Lexeme} (hf : f.Matches size us)
      (h : Begun size (.repeated f) c d) : Begun size (.repeated f) (us ++ c) d

variable {size : Nat} {f g : Form} {c d us vs : List Lexeme}

/-! ## Phrases that have begun can be completed -/

theorem Begun.viable (h : Begun size f c d) : f.Viable size c := by
  induction h with
  | none h => exact ⟨_, h⟩
  | whole h => exact h.viable
  | name span =>
    have hempty : (Form.rule .call).Matches size
        [⟨.ident, span⟩, ⟨.symbol .openParen, ⟨0, 0⟩⟩, ⟨.symbol .closeParen, ⟨0, 0⟩⟩] :=
      ⟨_, .rule .call ((((Derives.ident span).sequence (.mark .openParen ⟨0, 0⟩)).sequence
        (.absent _)).sequence (.mark .closeParen ⟨0, 0⟩))⟩
    exact ⟨_, hempty⟩
  | «open» _ h => exact ⟨_, h⟩
  | rule _ _ ih => exact viable_rule.mpr ih
  | first _ hg ih => exact ih.first ⟨_, hg⟩
  | second hf _ ih => exact hf.second ih
  | left _ _ ih => exact ih.left
  | right _ _ ih => exact ih.right
  | item _ ih => exact ih.item
  | again hf _ ih => exact hf.further ih

/-- The call of a phrase begins with a name and a parenthesis. -/
theorem matches_call {us : List Lexeme} (h : (Form.rule .call).Matches size us) :
    ∃ span opening vs, us = ⟨.ident, span⟩ :: ⟨.symbol .openParen, opening⟩ :: vs := by
  obtain ⟨_, h⟩ := matches_rule.mp h
  obtain ⟨_, closing, rfl, h₁⟩ := derives_append_mark.mp h
  obtain ⟨_, vs, _, _, rfl, -, h₂, -⟩ := derives_append.mp h₁
  obtain ⟨_, opening, rfl, h₃⟩ := derives_append_mark.mp h₂
  obtain ⟨span, rfl, -⟩ := derives_ident.mp h₃
  exact ⟨span, opening, vs ++ [⟨.symbol .closeParen, closing⟩], by simp⟩

/-- **What a call begins with**: nothing, its name, its name and the parenthesis with what
stands open behind it, or all of it. -/
theorem exists_begun_call {vs : List Lexeme} (hcall : (Form.rule .call).Matches size (c ++ vs)) :
    ∃ d, Begun size (.rule .call) c d := by
  obtain ⟨span, opening, ws, hws⟩ := matches_call hcall
  match c with
  | [] => exact ⟨[], .none hcall⟩
  | [l] =>
    obtain ⟨rfl, -⟩ : l = ⟨.ident, span⟩ ∧ vs = ⟨.symbol .openParen, opening⟩ :: ws := by
      simpa using hws
    exact ⟨[], .name span⟩
  | l :: l' :: c =>
    obtain ⟨rfl, rfl, rfl⟩ : l = ⟨.ident, span⟩ ∧ l' = ⟨.symbol .openParen, opening⟩
        ∧ c ++ vs = ws := by simpa using hws
    by_cases hvs : vs = []
    · subst hvs
      rw [List.append_nil] at hcall
      exact ⟨[], .whole hcall⟩
    · exact ⟨_, .open hvs hcall⟩

/-- **Whatever begins a phrase has begun it**: its derivation says where. -/
theorem exists_begun (h : f.Viable size c) : ∃ d, Begun size f c d := by
  obtain ⟨vs, _, hder⟩ := h
  generalize hts : c ++ vs = ts at hder
  induction hder generalizing c vs with
  | nothing =>
    obtain ⟨rfl, -⟩ := List.append_eq_nil_iff.mp hts
    exact ⟨[], .none (matches_nothing.mpr rfl)⟩
  | token t span =>
    have hone : (Form.token t).Matches size [⟨t, span⟩] := matches_token.mpr ⟨span, rfl⟩
    rcases List.append_eq_singleton_iff.mp hts with ⟨rfl, -⟩ | ⟨rfl, -⟩
    · exact ⟨[], .none hone⟩
    · exact ⟨[], .whole hone⟩
  | @leaf kind tokens t span ht =>
    have hone : (Form.leaf kind tokens).Matches size [⟨t, span⟩] :=
      matches_leaf.mpr ⟨t, ht, span, rfl⟩
    rcases List.append_eq_singleton_iff.mp hts with ⟨rfl, -⟩ | ⟨rfl, -⟩
    · exact ⟨[], .none hone⟩
    · exact ⟨[], .whole hone⟩
  | rule n hinner ih =>
    by_cases hn : n = .call
    · subst hn
      have hcall : (Form.rule .call).Matches size (c ++ vs) := hts ▸ ⟨_, .rule .call hinner⟩
      exact exists_begun_call hcall
    · obtain ⟨d, hd⟩ := ih _ hts
      exact ⟨d, .rule hn hd⟩
  | sequence hf hg ihf ihg =>
    rcases List.append_eq_append_iff.mp hts.symm with ⟨ws, rfl, hws⟩ | ⟨ws, hws, -⟩
    · obtain ⟨d, hd⟩ := ihg _ hws.symm
      exact ⟨d, .second ⟨_, hf⟩ hd⟩
    · obtain ⟨d, hd⟩ := ihf _ hws.symm
      exact ⟨d, .first hd ⟨_, hg⟩⟩
  | left g _ ih =>
    obtain ⟨d, hd⟩ := ih _ hts
    exact ⟨d, .left g hd⟩
  | right f _ ih =>
    obtain ⟨d, hd⟩ := ih _ hts
    exact ⟨d, .right f hd⟩
  | done f =>
    obtain ⟨rfl, -⟩ := List.append_eq_nil_iff.mp hts
    exact ⟨[], .none (matches_done f)⟩
  | again hf _ ihf ihfs =>
    rcases List.append_eq_append_iff.mp hts.symm with ⟨ws, rfl, hws⟩ | ⟨ws, hws, -⟩
    · obtain ⟨d, hd⟩ := ihfs _ hws.symm
      exact ⟨d, .again ⟨_, hf⟩ hd⟩
    · obtain ⟨d, hd⟩ := ihf _ hws.symm
      exact ⟨d, .item hd⟩

/-! ## What stands open -/

/-- What stands open is the last part of what has been read. -/
theorem Begun.suffix (h : Begun size f c d) : d <:+ c := by
  induction h with
  | none => exact List.suffix_rfl
  | whole => exact List.nil_suffix
  | name => exact List.nil_suffix
  | «open» => exact List.suffix_cons _ _
  | rule _ _ ih => exact ih
  | first _ _ ih => exact ih
  | second _ _ ih => exact ih.trans (List.suffix_append _ _)
  | left _ _ ih => exact ih
  | right _ _ ih => exact ih
  | item _ ih => exact ih
  | again _ _ ih => exact ih.trans (List.suffix_append _ _)

/-- What stands open starts with the parenthesis of a call. -/
theorem Begun.openParen (h : Begun size f c d) (hd : d ≠ []) :
    ∃ opening ds, d = ⟨.symbol .openParen, opening⟩ :: ds := by
  induction h with
  | none => exact absurd rfl hd
  | whole => exact absurd rfl hd
  | name => exact absurd rfl hd
  | «open» => exact ⟨_, _, rfl⟩
  | rule _ _ ih => exact ih hd
  | first _ _ ih => exact ih hd
  | second _ _ ih => exact ih hd
  | left _ _ ih => exact ih hd
  | right _ _ ih => exact ih hd
  | item _ ih => exact ih hd
  | again _ _ ih => exact ih hd

/-- There is more than what stands open: at least the name of the call. -/
theorem Begun.length_lt (h : Begun size f c d) (hd : d ≠ []) : d.length < c.length := by
  induction h with
  | none => exact absurd rfl hd
  | whole => exact absurd rfl hd
  | name => exact absurd rfl hd
  | «open» => exact Nat.lt_succ_self _
  | rule _ _ ih => exact ih hd
  | first _ _ ih => exact ih hd
  | second _ _ ih =>
    rw [List.length_append]
    exact Nat.lt_add_left _ (ih hd)
  | left _ _ ih => exact ih hd
  | right _ _ ih => exact ih hd
  | item _ ih => exact ih hd
  | again _ _ ih =>
    rw [List.length_append]
    exact Nat.lt_add_left _ (ih hd)

theorem Begun.open_nil (h : Begun size f [] d) : d = [] := List.suffix_nil.mp h.suffix

/-! ## One inversion per form -/

/-- A form of one token is not begun, or complete. -/
theorem Begun.of_nothing (h : Begun size .nothing c d) : c = [] := by
  obtain ⟨vs, hvs⟩ := h.viable
  exact (List.append_eq_nil_iff.mp (matches_nothing.mp hvs)).1

/-- A single token is complete once it has begun. -/
theorem Begun.of_leaf {kind : NodeKind} {tokens : List Token}
    (h : Begun size (.leaf kind tokens) c d) (hc : c ≠ []) :
    d = [] ∧ (Form.leaf kind tokens).Matches size c := by
  cases h with
  | none => exact absurd rfl hc
  | whole h => exact ⟨rfl, h⟩

theorem Begun.of_token {t : Token} (h : Begun size (.token t) c d) (hc : c ≠ []) :
    d = [] ∧ (Form.token t).Matches size c := by
  cases h with
  | none => exact absurd rfl hc
  | whole h => exact ⟨rfl, h⟩

theorem begun_rule {n : Nonterminal} (hn : n ≠ .call) :
    Begun size (.rule n) c d ↔ Begun size (production n) c d := by
  constructor
  · intro h
    cases h with
    | none h => exact .none (matches_rule.mp h)
    | whole h => exact .whole (matches_rule.mp h)
    | name => exact absurd rfl hn
    | «open» => exact absurd rfl hn
    | rule _ h => exact h
  · exact .rule hn

theorem begun_orElse :
    Begun size (f <|> g) c d ↔ Begun size f c d ∨ Begun size g c d := by
  constructor
  · intro h
    cases h with
    | none h => exact (matches_orElse.mp h).imp .none .none
    | whole h => exact (matches_orElse.mp h).imp .whole .whole
    | left _ h => exact .inl h
    | right _ h => exact .inr h
  · rintro (h | h)
    · exact .left g h
    · exact .right f h

theorem begun_append :
    Begun size (f ++ g) c d
      ↔ (Begun size f c d ∧ ∃ vs, g.Matches size vs)
        ∨ ∃ us cs, c = us ++ cs ∧ cs ≠ [] ∧ f.Matches size us ∧ Begun size g cs d := by
  constructor
  · intro h
    cases h with
    | none h =>
      obtain ⟨us, vs, -, hf, hg⟩ := matches_append.mp h
      exact .inl ⟨.none hf, vs, hg⟩
    | whole h =>
      obtain ⟨us, vs, rfl, hf, hg⟩ := matches_append.mp h
      by_cases hvs : vs = []
      · subst hvs
        rw [List.append_nil]
        exact .inl ⟨.whole hf, [], hg⟩
      · exact .inr ⟨us, vs, rfl, hvs, hf, .whole hg⟩
    | first h hg => exact .inl ⟨h, _, hg⟩
    | @second _ _ us cs _ hf h =>
      by_cases hcs : cs = []
      · subst hcs
        obtain ⟨vs, hg⟩ := h.viable
        rw [List.append_nil, h.open_nil]
        exact .inl ⟨.whole hf, vs, hg⟩
      · exact .inr ⟨us, cs, rfl, hcs, hf, h⟩
  · rintro (⟨h, vs, hg⟩ | ⟨us, cs, rfl, -, hf, h⟩)
    · exact .first h hg
    · exact .second hf h

/-- Some tokens of a repetition belong to its first item, or lie behind it. -/
theorem Begun.of_repeated (h : Begun size (.repeated f) c d) (hc : c ≠ []) :
    Begun size f c d
      ∨ ∃ us cs, c = us ++ cs ∧ cs ≠ [] ∧ f.Matches size us ∧ Begun size (.repeated f) cs d := by
  -- Tokens that complete a first item leave nothing to begin behind it.
  have hagain : ∀ {us cs}, f.Matches size us → Begun size (.repeated f) cs d →
      Begun size f (us ++ cs) d ∨ ∃ us' cs', us ++ cs = us' ++ cs' ∧ cs' ≠ []
        ∧ f.Matches size us' ∧ Begun size (.repeated f) cs' d := by
    intro us cs hf h
    by_cases hcs : cs = []
    · subst hcs
      rw [List.append_nil, h.open_nil]
      exact .inl (.whole hf)
    · exact .inr ⟨us, cs, rfl, hcs, hf, h⟩
  cases h with
  | none => exact absurd rfl hc
  | whole h =>
    obtain ⟨us, cs, rfl, hf, hfs⟩ := matches_append.mp ((matches_repeated.mp h).resolve_left hc)
    exact hagain hf (.whole hfs)
  | item h => exact .inl h
  | again hf h => exact hagain hf h

/-- **The last item** of a repetition is the one that has begun. -/
theorem Begun.exists_last (h : Begun size (.repeated f) c d) (hf : f.consumes = true)
    (hc : c ≠ []) :
    ∃ us cs, c = us ++ cs ∧ (repeated f).Matches size us ∧ Begun size f cs d := by
  induction hn : c.length using Nat.strongRecOn generalizing c with
  | _ n ih =>
    subst hn
    rcases h.of_repeated hc with h | ⟨us, cs, rfl, hcs, hus, h⟩
    · exact ⟨[], c, rfl, matches_done f, h⟩
    · have := List.length_pos_iff.mpr (hus.ne_nil hf)
      obtain ⟨vs, cs, rfl, hvs, hlast⟩ := ih cs.length (by rw [List.length_append]; omega) h hcs rfl
      exact ⟨us ++ vs, cs, (List.append_assoc ..).symm, hus.again hvs, hlast⟩

/-! ## Grouping -/

/-- What has begun of a sequence does not depend on its grouping. -/
theorem regroups_begun (size : Nat) :
    Regroups fun f g => (∀ us, f.Matches size us ↔ g.Matches size us)
      ∧ ∀ c d, Begun size f c d ↔ Begun size g c d := by
  have hmatches := regroups_matches size
  constructor
  case equivalence =>
    exact ⟨fun _ => ⟨fun _ => Iff.rfl, fun _ _ => Iff.rfl⟩,
      fun h => ⟨fun us => (h.1 us).symm, fun c d => (h.2 c d).symm⟩,
      fun h h' => ⟨fun us => (h.1 us).trans (h'.1 us), fun c d => (h.2 c d).trans (h'.2 c d)⟩⟩
  case append =>
    intro f f' g g' hf hg
    refine ⟨hmatches.append hf.1 hg.1, fun c d => ?_⟩
    simp only [begun_append, hf.1, hf.2, hg.1, hg.2]
  case assoc =>
    intro f g h
    refine ⟨hmatches.assoc f g h, fun c d => ?_⟩
    constructor
    · intro hfgh
      rcases begun_append.mp hfgh with ⟨hf, vs, hvs⟩ | ⟨us, cs, rfl, -, hf, hgh⟩
      · obtain ⟨vs, ws, -, hg, hh⟩ := matches_append.mp hvs
        exact .first (.first hf hg) hh
      · rcases begun_append.mp hgh with ⟨hg, vs, hh⟩ | ⟨vs, cs, rfl, -, hg, hh⟩
        · exact .first (.second hf hg) hh
        · rw [← List.append_assoc]
          exact .second (hf.append hg) hh
    · intro hfgh
      rcases begun_append.mp hfgh with ⟨hfg, ws, hh⟩ | ⟨_, cs, rfl, -, hfg, hh⟩
      · rcases begun_append.mp hfg with ⟨hf, vs, hg⟩ | ⟨us, cs, rfl, -, hf, hg⟩
        · exact .first hf (hg.append hh)
        · exact .second hf (.first hg hh)
      · obtain ⟨us, vs, rfl, hf, hg⟩ := matches_append.mp hfg
        rw [List.append_assoc]
        exact .second hf (.second hg hh)
  case nothing_append =>
    intro f
    refine ⟨hmatches.nothing_append f, fun c d => ?_⟩
    constructor
    · intro h
      rcases begun_append.mp h with ⟨h, vs, hvs⟩ | ⟨us, cs, rfl, -, hus, h⟩
      · obtain rfl := h.of_nothing
        rw [h.open_nil]
        exact .none hvs
      · rwa [matches_nothing.mp hus]
    · intro h
      rw [← List.nil_append c]
      exact .second (matches_nothing.mpr rfl) h
  case append_nothing =>
    intro f
    refine ⟨hmatches.append_nothing f, fun c d => ?_⟩
    constructor
    · intro h
      rcases begun_append.mp h with ⟨h, -⟩ | ⟨us, cs, rfl, hcs, -, h⟩
      · exact h
      · exact absurd h.of_nothing hcs
    · exact fun h => .first h (matches_nothing.mpr rfl)

/-- **Forms with the same steps have begun alike.** -/
theorem begun_congr (h : f.steps = g.steps) : Begun size f c d ↔ Begun size g c d :=
  ((regroups_begun size).of_steps h).2 c d

end ImpFront.Ebnf
