import ImpFront.Proofs.FrontEnd.Relocation
import ImpFront.Proofs.Grammar.Precedence
import Mathlib.Data.List.Induction

/-!
# Expressions can be replaced by atoms

Wherever an expression stands in a tree, an atom may stand: no rule asks for an
operation. So if the tokens of an expression are replaced by those of an atom,
the grammar derives a tree again, with the atom in the place of the expression
and nothing else changed – and if the atom has the core of the expression, the
new tree has the core of the old one (`Derives.replaceable`).

The proof goes along the derivation, with the token lists to the left and to the
right of the expression growing on the way up (`Replaceable.grow`). Two places
ask for more. An expression that is an atom itself is not to be replaced by the
rule for its own kind, but by the rule for atoms, which is one step further up;
that is what `Form.atomFree` is for. And an operation may be the beginning of a
longer chain of operations; then the atom becomes the first operand of what is
left of the chain.
-/

namespace ImpFront

open Ebnf SyntaxTree Relocatable

variable {source source' : List Char} {m : Relocation} {size size' : Nat} {f g : Form}
  {ts us : List Lexeme} {parts parts' others others' : List TreeShape} {s n : TreeShape}

/-! ## Moved derivations -/

theorem relocate_nestLeft (m : Relocation) (left : TreeShape) (parts : List TreeShape) :
    relocate m (nestLeft left parts) = nestLeft (relocate m left) (relocate m parts) := by
  induction parts using List.twoStepInduction generalizing left with
  | nil => rfl
  | singleton op => rfl
  | cons_cons op right more ih _ =>
    rw [nestLeft, ih, relocate_binary]
    rfl

theorem extent_relocate (m : Relocation) (size size' : Nat) (h : ts ≠ []) :
    extent size' (relocate m ts) = relocate m (extent size ts) := by
  have hhead : (relocate m ts).head? = ts.head?.map (relocate m) := List.head?_map
  have hlast : (relocate m ts).getLast? = ts.getLast?.map (relocate m) := List.getLast?_map
  unfold extent
  rw [hhead, hlast, List.head?_eq_some_head h, List.getLast?_eq_some_getLast h]
  rfl

/-- What a nonterminal makes of moved parts. -/
theorem assemble_relocate (m : Relocation) (size size' : Nat) (n : Nonterminal) (h : ts ≠ [])
    (parts : List TreeShape) :
    n.assemble size' (relocate m ts) (relocate m parts) = relocate m (n.assemble size ts parts) := by
  unfold Nonterminal.assemble
  split
  · rw [extent_relocate m size size' h, relocate_cons, relocate_shape, relocate_nil]
  · cases parts with
    | nil => cases n <;> rfl
    | cons first others =>
      cases n with
      | level l =>
        show [nestLeft _ _] = [relocate m (nestLeft _ _)]
        rw [relocate_nestLeft]
        rfl
      | _ => rfl

/-- **Moved tokens derive moved trees.** -/
theorem Ebnf.Derives.relocate (m : Relocation) (size' : Nat) (h : Derives size f ts parts)
    (hf : f.proper = true) :
    Derives size' f (Relocatable.relocate m ts) (Relocatable.relocate m parts) := by
  induction h with
  | nothing => exact .nothing
  | token t span => exact .token t _
  | leaf kind span ht =>
    rw [relocate_cons, relocate_cons, relocate_shape]
    exact .leaf kind _ ht
  | rule n h ih =>
    have hne := (Derives.rule n h).ne_nil hf
    rw [← assemble_relocate m size size' n hne]
    exact .rule n (ih (proper_production n))
  | sequence _ _ ihf ihg =>
    obtain ⟨hf, hg⟩ := (Bool.and_eq_true _ _).mp hf
    rw [relocate_append, relocate_append]
    exact .sequence (ihf hf) (ihg hg)
  | left g _ ih => exact .left g (ih ((Bool.and_eq_true _ _).mp hf).1)
  | right f _ ih => exact .right f (ih ((Bool.and_eq_true _ _).mp hf).2)
  | done f => exact .done f
  | again _ _ ihf ihfs =>
    rw [relocate_append, relocate_append]
    exact .again (ihf hf) (ihfs hf)

/-! ## Parts with the same cores -/

/-- **The parts in the other source have the same cores**, moved. -/
def SameCores (source source' : List Char) (m : Relocation) (parts parts' : List TreeShape) :
    Prop :=
  parts'.map (fun s => core .stay (ofShape source' s)) = parts.map fun s => core m (ofShape source s)

namespace SameCores

theorem append (h : SameCores source source' m parts parts')
    (h' : SameCores source source' m others others') :
    SameCores source source' m (parts ++ others) (parts' ++ others') := by
  unfold SameCores at *
  rw [List.map_append, List.map_append, h, h']

theorem singleton (h : core .stay (ofShape source' n) = core m (ofShape source s)) :
    SameCores source source' m [s] [n] :=
  congrArg (· :: []) h

/-- A node that is no token has the core that its parts make. -/
theorem node {kind : NodeKind} (h : SameCores source source' m parts parts')
    (hkind : kind.isToken = false) (span span' : Span) :
    core .stay (ofShape source' ⟨kind, span', parts'⟩)
      = core m (ofShape source ⟨kind, span, parts⟩) := by
  rw [ofShape, ofShape, core_mk, core_mk, ofShapes_eq_map, ofShapes_eq_map, List.map_map,
    List.map_map]
  show coreNode _ _ _ (parts'.map fun s => core .stay (ofShape source' s)) = _
  rw [h]
  exact coreNode_congr fun htoken => absurd htoken (by simp [hkind])

/-- Nested operations have the core that their operands and operators make. -/
theorem nestLeft (h : SameCores source source' m (s :: others) (n :: others')) :
    core .stay (ofShape source' (nestLeft n others'))
      = core m (ofShape source (nestLeft s others)) := by
  unfold SameCores at h
  induction others using List.twoStepInduction generalizing s n others' with
  | nil =>
    obtain rfl : others' = [] := by simpa using congrArg List.length h
    exact List.singleton_inj.mp h
  | singleton op =>
    obtain ⟨op', rfl⟩ : ∃ op', others' = [op'] :=
      List.length_eq_one_iff.mp (by simpa using congrArg List.length h)
    exact (List.cons.inj h).1
  | cons_cons op right more ih _ =>
    match others' with
    | [] => simp at h
    | [op'] => simp at h
    | op' :: right' :: more' =>
      simp only [List.map_cons, List.cons.injEq] at h
      obtain ⟨hleft, hop, hright, hmore⟩ := h
      have hparts : SameCores source source' m [s, op, right] [n, op', right'] := by
        simp [SameCores, hleft, hop, hright]
      have hbinary := hparts.node (rfl : NodeKind.isToken .binaryExpr = false)
        (s.span.join right.span) (n.span.join right'.span)
      show core .stay (ofShape source' (Ebnf.nestLeft (.binary n op' right') more')) = _
      exact ih (List.cons_eq_cons.mpr ⟨hbinary, hmore⟩)

/-- Moved parts have the same cores if their tokens have kept their texts. -/
theorem relocate (h : Derives size f ts parts) (hf : f.proper = true) (hts : StandIn source ts)
    (hsame : ∀ l ∈ ts, l.SameText source source' m) :
    SameCores source source' m parts (Relocatable.relocate m parts) := by
  show (parts.map _).map _ = _
  rw [List.map_map]
  exact List.map_congr_left (core_relocate_of_derives h hf hts hsame)

end SameCores

/-! ## Where an atom may stand -/

/-- **Whether atoms come into a form only by the rule for atoms**: it keeps no literal
itself, and names no location, call or group. -/
def Ebnf.Form.atomFree : Form → Bool
  | .nothing | .token _ => true
  | .leaf kind _ => !kind.isExpression
  | .rule n => n.nodeKind?.all fun kind => !kind.isExpression
  | .sequence f g | .choice f g => f.atomFree && g.atomFree
  | .repeated f => f.atomFree

theorem atomFree_production {n : Nonterminal} (hn : n ≠ .atom) :
    (production n).atomFree = true := by
  cases n with
  | atom => exact absurd rfl hn
  | level l => cases l <;> rfl
  | _ => rfl

/-- **The expression can be replaced by an atom.** It is made of some of the tokens; and
if an atom with the same core is made of others, then these, put in their place among
the moved tokens, derive parts with the same cores. -/
def Replaceable (source source' : List Char) (m : Relocation) (size size' : Nat) (f : Form)
    (ts : List Lexeme) (parts : List TreeShape) (n : TreeShape) : Prop :=
  ∃ left us right, ts = left ++ us ++ right ∧ Derives size (.rule .expr) us [n]
    ∧ ∀ us' n', Derives size' (.rule .atom) us' [n'] →
      core .stay (ofShape source' n') = core m (ofShape source n) →
      ∃ parts', Derives size' f (Relocatable.relocate m left ++ us' ++ Relocatable.relocate m right)
          parts'
        ∧ SameCores source source' m parts parts'

/-- **With more around it** the expression can be replaced as well. -/
theorem Replaceable.grow (h : Replaceable source source' m size size' f ts parts n)
    (before after : List Lexeme)
    (hgrow : ∀ ts' parts', Derives size' f ts' parts' → SameCores source source' m parts parts' →
      ∃ others', Derives size' g (relocate m before ++ ts' ++ relocate m after) others'
        ∧ SameCores source source' m others others') :
    Replaceable source source' m size size' g (before ++ ts ++ after) others n := by
  obtain ⟨left, us, right, rfl, hn, hput⟩ := h
  refine ⟨before ++ left, us, right ++ after, by simp only [List.append_assoc], hn,
    fun us' n' hn' hcore => ?_⟩
  obtain ⟨parts', hparts', hcores⟩ := hput us' n' hn' hcore
  obtain ⟨others', hothers', hcores⟩ := hgrow _ _ hparts' hcores
  refine ⟨others', ?_, hcores⟩
  simpa only [relocate_append, List.append_assoc] using hothers'

/-- Another form may do with the same tokens. -/
theorem Replaceable.mono (h : Replaceable source source' m size size' f ts parts n)
    (hmono : ∀ ts' parts', Derives size' f ts' parts' → SameCores source source' m parts parts' →
      ∃ others', Derives size' g ts' others' ∧ SameCores source source' m others others') :
    Replaceable source source' m size size' g ts others n := by
  rw [← List.append_nil ts, ← List.nil_append ts]
  exact h.grow [] [] (by simpa using hmono)

section Join

variable {k : Form}
  (hjoin : ∀ {ts us parts others}, Derives size' f ts parts → Derives size' g us others →
    Derives size' k (ts ++ us) (parts ++ others))

include hjoin

/-- **In the first of two parts.** -/
theorem Replaceable.first (h : Replaceable source source' m size size' f ts parts n)
    (hg : Derives size g us others) (hproper : g.proper = true) (hus : StandIn source us)
    (hsame : ∀ l ∈ us, l.SameText source source' m) :
    Replaceable source source' m size size' k (ts ++ us) (parts ++ others) n :=
  h.grow [] us fun _ _ hts' hcores =>
    ⟨_, hjoin hts' (hg.relocate m size' hproper), hcores.append (.relocate hg hproper hus hsame)⟩

/-- **In the second of two parts.** -/
theorem Replaceable.second (h : Replaceable source source' m size size' g us others n)
    (hf : Derives size f ts parts) (hproper : f.proper = true) (hts : StandIn source ts)
    (hsame : ∀ l ∈ ts, l.SameText source source' m) :
    Replaceable source source' m size size' k (ts ++ us) (parts ++ others) n := by
  rw [← List.append_nil (ts ++ us)]
  refine h.grow ts [] fun us' others' hus' hcores => ?_
  rw [relocate_nil, List.append_nil]
  exact ⟨_, hjoin (hf.relocate m size' hproper) hus',
    (SameCores.relocate hf hproper hts hsame).append hcores⟩

end Join

/-! ## Chains of operations -/

/-- Items make a repetition. -/
theorem Ebnf.Items.repeated (h : Items size f ts parts) : Derives size (.repeated f) ts parts := by
  induction h with
  | nil => exact .done f
  | cons hitem _ ih => exact hitem.again ih

/-- **The nodes of a chain of operations**: those of its operands and operators, and the
chains that it begins with. -/
theorem exists_of_has_nestLeft {l : Level}
    (h : Items size (.operator l.operators ++ .rule l.operand) ts others)
    (hts : StandIn source ts) (hn : (nestLeft s others).Has n) :
    (∃ t ∈ s :: others, t.Has n)
      ∨ ∃ us vs firsts lasts, ts = us ++ vs ∧ others = firsts ++ lasts
          ∧ Items size (.operator l.operators ++ .rule l.operand) us firsts
          ∧ Items size (.operator l.operators ++ .rule l.operand) vs lasts
          ∧ n = nestLeft s firsts := by
  induction h generalizing s with
  | nil => exact .inl ⟨s, List.mem_cons_self, hn⟩
  | @cons ts vs parts others hitem hitems ih =>
    obtain ⟨op, hop, span, us, right, rfl, rfl, hright⟩ := derives_operation hitem hts.left
    rcases ih hts.right hn with ⟨t, ht, hn⟩ | ⟨us', vs', firsts, lasts, rfl, rfl, hus, hvs, rfl⟩
    · rcases List.mem_cons.mp ht with rfl | ht
      · cases hn with
        | self =>
          have hone := Items.cons hitem .nil
          rw [List.append_nil, List.append_nil] at hone
          exact .inr ⟨_, _, _, _, rfl, rfl, hone, hitems, rfl⟩
        | @child _ c _ hc hn =>
          have hc : c ∈ [s, ⟨.operator, span, []⟩, right] := hc
          have hmem : c ∈ s :: ([⟨.operator, span, []⟩, right] ++ others) :=
            List.mem_append_left others hc
          exact .inl ⟨c, hmem, hn⟩
      · exact .inl ⟨t, by simp [ht], hn⟩
    · exact .inr ⟨_, vs', ⟨.operator, span, []⟩ :: right :: firsts, lasts,
        (List.append_assoc ..).symm, rfl, .cons hitem hus, hvs, rfl⟩

/-! ## Expressions in derivations -/

/-- **A chain of operations** can be replaced where a longer one begins with it. -/
theorem replaceable_chain {l : Level} {first : TreeShape} {vs ws : List Lexeme}
    {firsts lasts : List TreeShape} (hfirst : Derives size (.rule l.operand) us [first])
    (hfirsts : Items size (.operator l.operators ++ .rule l.operand) vs firsts)
    (hlasts : Items size (.operator l.operators ++ .rule l.operand) ws lasts)
    (hts : StandIn source (us ++ (vs ++ ws)))
    (hsame : ∀ l ∈ us ++ (vs ++ ws), l.SameText source source' m) :
    Replaceable source source' m size size' (.rule (.level l)) (us ++ (vs ++ ws))
      [nestLeft first (firsts ++ lasts)] (nestLeft first firsts) := by
  have hproper : (Form.repeated (.operator l.operators ++ .rule l.operand)).proper = true := by
    cases l <;> rfl
  have hchain := Derives.rule (.level l) (hfirst.sequence hfirsts.repeated)
  refine ⟨[], us ++ vs, ws, by simp, expr_of_level hchain, fun us' n' hn' hcore => ?_⟩
  have hoperand : Derives size' (.rule l.operand) us' [n'] :=
    Fits.operand (.inl hn' : Fits size' us' n' 0) l.rank_pos
  have hlasts' := hlasts.repeated.relocate m size' hproper
  have hcores := (SameCores.singleton hcore).append
    (SameCores.relocate hlasts.repeated hproper hts.right.right fun l hl => hsame l (by simp [hl]))
  refine ⟨_, Derives.rule (.level l) (hoperand.sequence hlasts'), .singleton ?_⟩
  rw [nestLeft_append hfirsts hts.right.left]
  exact hcores.nestLeft

/-- What nonterminals do that pass on the parts of their productions. -/
theorem Replaceable.pass {n' : Nonterminal} (hn' : n' = .statement ∨ n' = .expr ∨ n' = .atom)
    (h : Replaceable source source' m size size' (production n') ts parts n) :
    Replaceable source source' m size size' (.rule n') ts parts n :=
  h.mono fun _ parts' hts' hcores => ⟨parts', (derives_group hn').mpr hts', hcores⟩

/-- **In a node that a nonterminal makes.** -/
theorem Replaceable.node {n' : Nonterminal} {kind : NodeKind} (hkind : n'.nodeKind? = some kind)
    (span : Span) (h : Replaceable source source' m size size' (production n') ts parts n) :
    Replaceable source source' m size size' (.rule n') ts [⟨kind, span, parts⟩] n := by
  refine h.mono fun ts' parts' hts' hcores => ⟨[⟨kind, extent size' ts', parts'⟩], ?_, .singleton
    (hcores.node (isToken_of_nodeKind? hkind) span _)⟩
  have hnode := Derives.rule n' hts'
  simpa only [Nonterminal.assemble, hkind] using hnode

/-- **In an operand or an operator of a level.** -/
theorem Replaceable.level {l : Level} {first : TreeShape}
    (h : Replaceable source source' m size size' (production (.level l)) ts (first :: others) n) :
    Replaceable source source' m size size' (.rule (.level l)) ts [nestLeft first others] n := by
  refine h.mono fun ts' parts' hts' hcores => ?_
  match parts' with
  | [] => simp [SameCores] at hcores
  | first' :: others' => exact ⟨_, .rule (.level l) hts', .singleton hcores.nestLeft⟩

/-- **In the trees of a nonterminal**, if it can be replaced in the parts that its
production makes. -/
theorem replaceable_assemble {n' : Nonterminal} (h : Derives size (production n') ts parts)
    (hts : StandIn source ts) (hsame : ∀ l ∈ ts, l.SameText source source' m)
    (hs : s ∈ n'.assemble size ts parts) (hn : s.Has n) (hexpr : n.kind.isExpression = true)
    (hfree : (Form.rule n').atomFree = true ∨ ∃ c ∈ s.children, c.Has n)
    (hinner : ∀ {t : TreeShape}, t ∈ parts → t.Has n →
      ((production n').atomFree = true ∨ ∃ c ∈ t.children, c.Has n) →
      Replaceable source source' m size size' (production n') ts parts n) :
    Replaceable source source' m size size' (.rule n') ts (n'.assemble size ts parts) n := by
  have hder := Derives.rule n' h
  cases hkind : n'.nodeKind? with
  | some kind =>
    simp only [Nonterminal.assemble, hkind] at hs ⊢
    obtain rfl := List.mem_singleton.mp hs
    -- The node itself is no expression, or the expression stands further in anyway.
    obtain ⟨c, hc, hn⟩ : ∃ c ∈ parts, c.Has n := by
      rcases hfree with hfree | hinside
      · cases hn with
        | self => simp [Form.atomFree, hkind, hexpr] at hfree
        | child hc hn => exact ⟨_, hc, hn⟩
      · exact hinside
    have hne : n' ≠ .atom := by
      rintro rfl
      cases hkind
    exact (hinner hc hn (.inl (atomFree_production hne))).node hkind _
  | none =>
    cases n' with
    | level l =>
      obtain ⟨us, vs, first, others, rfl, rfl, hfirst, hothers⟩ := derives_level h hts
      obtain rfl := List.mem_singleton.mp hs
      rcases exists_of_has_nestLeft hothers hts.right hn with
        ⟨t, ht, hn⟩ | ⟨vs, ws, firsts, lasts, rfl, rfl, hfirsts, hlasts, rfl⟩
      · exact (hinner ht hn (.inl (atomFree_production (by simp)))).level
      · exact replaceable_chain hfirst hfirsts hlasts hts hsame
    | statement => exact (hinner hs hn (.inl rfl)).pass (.inl rfl)
    | expr => exact (hinner hs hn (.inl rfl)).pass (.inr (.inl rfl))
    | atom =>
      cases hn with
      | self =>
        -- The atom itself is replaced by another.
        obtain ⟨t, ht⟩ := hder.exists_singleton hts
        rw [ht] at hs hder ⊢
        obtain rfl := List.mem_singleton.mp hs
        exact ⟨[], ts, [], by simp, expr_of_atom hder,
          fun us' n' hn' hcore => ⟨[n'], by simpa using hn', .singleton hcore⟩⟩
      | child hc hn =>
        exact (hinner hs (.child hc hn) (.inr ⟨_, hc, hn⟩)).pass (.inr (.inr rfl))
    | _ => simp [Nonterminal.nodeKind?] at hkind

/-- **Every expression in a derivation can be replaced by an atom**, unless it is a part
that the form itself makes. -/
theorem Ebnf.Derives.replaceable (h : Derives size f ts parts) (hf : f.proper = true)
    (hts : StandIn source ts) (hsame : ∀ l ∈ ts, l.SameText source source' m) (hs : s ∈ parts)
    (hn : s.Has n) (hexpr : n.kind.isExpression = true)
    (hfree : f.atomFree = true ∨ ∃ c ∈ s.children, c.Has n) :
    Replaceable source source' m size size' f ts parts n := by
  induction h generalizing s with
  | nothing => simp at hs
  | token => simp at hs
  | leaf kind span ht =>
    obtain rfl := List.mem_singleton.mp hs
    rcases hfree with hfree | ⟨c, hc, -⟩
    · cases hn with
      | self => simp [Form.atomFree, hexpr] at hfree
      | child hc _ => simp at hc
    · simp at hc
  | rule n' h ih =>
    exact replaceable_assemble h hts hsame hs hn hexpr hfree (ih (proper_production n') hts hsame)
  | sequence hder hders ihf ihg =>
    obtain ⟨hf, hg⟩ := (Bool.and_eq_true _ _).mp hf
    rw [List.forall_mem_append] at hsame
    replace hfree := hfree.imp_left (Bool.and_eq_true _ _).mp
    rcases List.mem_append.mp hs with hs | hs
    · exact (ihf hf hts.left hsame.1 hs hn (hfree.imp_left And.left)).first .sequence hders hg
        hts.right hsame.2
    · exact (ihg hg hts.right hsame.2 hs hn (hfree.imp_left And.right)).second .sequence hder hf
        hts.left hsame.1
  | left g _ ih =>
    have hpart := ih ((Bool.and_eq_true _ _).mp hf).1 hts hsame hs hn
      (hfree.imp_left fun h => ((Bool.and_eq_true _ _).mp h).1)
    exact hpart.mono fun _ parts' hts' hcores => ⟨parts', .left g hts', hcores⟩
  | right f _ ih =>
    have hpart := ih ((Bool.and_eq_true _ _).mp hf).2 hts hsame hs hn
      (hfree.imp_left fun h => ((Bool.and_eq_true _ _).mp h).2)
    exact hpart.mono fun _ parts' hts' hcores => ⟨parts', .right f hts', hcores⟩
  | done => simp at hs
  | again hder hders ihf ihfs =>
    rw [List.forall_mem_append] at hsame
    rcases List.mem_append.mp hs with hs | hs
    · exact (ihf hf hts.left hsame.1 hs hn hfree).first .again hders hf hts.right hsame.2
    · exact (ihfs hf hts.right hsame.2 hs hn hfree).second .again hder hf hts.left hsame.1

end ImpFront
