import ImpFront.Proofs.Failure.Blame

/-!
# Choices between forms that begin alike

Where the next token tells two alternatives apart, the one that has not begun fails at
once. Two pairs of forms in the language begin alike: `else` stands in front of
another condition and of the last clause, and a type and a name begin a function as
well as a variable. Here the alternative that has not begun goes on for a token or
two before it fails. That does no harm, since it fails before the other one could
have got stuck at a call (`Explains.exists_fail`).
-/

namespace ImpFront

open Ebnf Rule

variable {α β γ : Type} {size bound k : Nat} {f g s t : Form} {p : Rule α} {mute : Prop}
  {c d x us vs rest : List Lexeme} {conts others : List Token}

namespace Ebnf

/-! ## Forms of one token -/

/-- The form matches single tokens. -/
def Form.Single (size : Nat) (f : Form) : Prop := ∀ ⦃us⦄, f.Matches size us → us.length = 1

theorem single_token (t : Token) : (Form.token t).Single size := by
  intro us h
  obtain ⟨span, rfl⟩ := Form.matches_token.mp h
  rfl

theorem single_leaf (kind : NodeKind) (tokens : List Token) :
    (Form.leaf kind tokens).Single size := by
  intro us h
  obtain ⟨t, -, span, rfl⟩ := Form.matches_leaf.mp h
  rfl

theorem single_type : (Form.rule .type).Single size := by
  intro us h
  rcases Form.matches_orElse.mp (Form.matches_rule.mp h) with h | h
  · exact single_leaf _ _ h
  · rcases Form.matches_orElse.mp h with h | h
    · exact single_leaf _ _ h
    · exact single_leaf _ _ h

theorem Form.Single.length_le (hf : f.Single size) (h : f.Viable size us) : us.length ≤ 1 := by
  obtain ⟨vs, hvs⟩ := h
  have := hf hvs
  rw [List.length_append] at this
  omega

/-- No token goes on with a single one. -/
theorem Form.Single.continues (hf : f.Single size) : f.Continues size [] := by
  intro us l vs hus hviable
  have := hf hus
  have := hf.length_le hviable
  simp only [List.length_append, List.length_cons] at this
  omega

/-- Behind its one token a form leaves what begins the next one. -/
theorem Form.Single.viable_tail (hf : f.Single size) {l : Lexeme}
    (h : (f ++ g).Viable size (l :: us)) : g.Viable size us := by
  obtain ⟨vs, hvs⟩ := h
  obtain ⟨ts, ws, heq, hts, hws⟩ := Form.matches_append.mp hvs
  obtain ⟨l', rfl⟩ := List.length_eq_one_iff.mp (hf hts)
  obtain ⟨-, rfl⟩ := List.cons.inj heq
  exact ⟨vs, hws⟩

/-! ## Forms that begin alike -/

/-- **The form goes on behind `k` tokens**, and opens no call before. -/
structure Form.Outlasts (size k : Nat) (f : Form) : Prop where
  /-- A match has more tokens. -/
  long : ∀ ⦃us⦄, f.Matches size us → k < us.length
  /-- A call opens behind them. -/
  closed : ∀ ⦃c d⦄, Begun size f c d → d ≠ [] → k + d.length ≤ c.length

/-- **The forms begin alike** for `k` tokens at most, and go on behind. -/
structure Form.PartWithin (size k : Nat) (f g : Form) : Prop where
  /-- No more tokens begin both. -/
  length_le : ∀ ⦃us⦄, f.Viable size us → g.Viable size us → us.length ≤ k
  left : f.Outlasts size k
  right : g.Outlasts size k

theorem outlasts_of_consumes (hf : f.consumes = true) : f.Outlasts size 0 where
  long _ h := List.length_pos_iff.mpr (h.ne_nil hf)
  closed _ _ h _ := by
    have := h.suffix.length_le
    omega

theorem Form.Outlasts.behind (hf : f.Outlasts size k) (hs : s.Single size) :
    (s ++ f).Outlasts size (k + 1) := by
  constructor
  case long =>
    intro us h
    obtain ⟨us, vs, rfl, hus, hvs⟩ := Form.matches_append.mp h
    have := hs hus
    have := hf.long hvs
    rw [List.length_append]
    omega
  case closed =>
    intro c d h hd
    rcases begun_append.mp h with ⟨h, -⟩ | ⟨us, cs, rfl, -, hus, h⟩
    · have := h.length_lt hd
      have := hs.length_le h.viable
      have := List.length_pos_iff.mpr hd
      omega
    · have := hs hus
      have := hf.closed h hd
      rw [List.length_append]
      omega

theorem Form.Outlasts.of_steps (hf : f.Outlasts size k) (h : f.steps = g.steps) :
    g.Outlasts size k :=
  ⟨fun _ hus => hf.long ((Form.matches_congr h).mpr hus),
    fun _ _ hbegun => hf.closed ((begun_congr h).mpr hbegun)⟩

theorem Form.Outlasts.rule {n : Nonterminal} (h : (production n).Outlasts size k)
    (hn : n ≠ .call) : (Form.rule n).Outlasts size k :=
  ⟨fun _ hus => h.long (Form.matches_rule.mp hus),
    fun _ _ hbegun => h.closed ((begun_rule hn).mp hbegun)⟩

/-- Forms with no first token in common part at once. -/
theorem partWithin_of_disjoint (hf : f.consumes = true) (hg : g.consumes = true)
    (hdisj : ∀ t ∈ f.first, t ∉ g.first) : f.PartWithin size 0 g where
  length_le us hus hus' := by
    cases us with
    | nil => exact Nat.le_refl _
    | cons l us => exact absurd hus'.mem_first (hdisj _ hus.mem_first)
  left := outlasts_of_consumes hf
  right := outlasts_of_consumes hg

namespace Form.PartWithin

theorem symm (h : f.PartWithin size k g) : g.PartWithin size k f :=
  ⟨fun _ hg hf => h.length_le hf hg, h.right, h.left⟩

/-- One token more in front of both. -/
theorem behind (h : f.PartWithin size k g) (hs : s.Single size) (ht : t.Single size) :
    (s ++ f).PartWithin size (k + 1) (t ++ g) where
  length_le us hus hus' := by
    cases us with
    | nil => exact Nat.zero_le _
    | cons l us => exact Nat.succ_le_succ (h.length_le (hs.viable_tail hus) (ht.viable_tail hus'))
  left := h.left.behind hs
  right := h.right.behind ht

theorem of_steps (h : f.PartWithin size k g) (hf : f.steps = s.steps) (hg : g.steps = t.steps) :
    s.PartWithin size k t where
  length_le := by
    rintro us ⟨vs, hvs⟩ ⟨ws, hws⟩
    exact h.length_le ⟨vs, (Form.matches_congr hf).mpr hvs⟩ ⟨ws, (Form.matches_congr hg).mpr hws⟩
  left := h.left.of_steps hf
  right := h.right.of_steps hg

theorem rule {n m : Nonterminal} (h : (production n).PartWithin size k (production m))
    (hn : n ≠ .call) (hm : m ≠ .call) : (Form.rule n).PartWithin size k (Form.rule m) :=
  ⟨fun _ hn hm => h.length_le (Form.viable_rule.mp hn) (Form.viable_rule.mp hm),
    h.left.rule hn, h.right.rule hm⟩

/-- No tokens begin with matches of both. -/
theorem append_ne (h : f.PartWithin size k g) (hf : f.Matches size us) (hg : g.Matches size vs) :
    us ++ rest ≠ vs ++ x := by
  intro heq
  have := h.left.long hf
  have := h.right.long hg
  rcases List.append_eq_append_iff.mp heq with ⟨ws, rfl, -⟩ | ⟨ws, rfl, -⟩
  · have := h.length_le hf.viable hg.viable.of_append
    omega
  · have := h.length_le hf.viable.of_append hg.viable
    omega

end Form.PartWithin

/-- The tokens that go on with either of two forms. -/
theorem Form.Continues.orElse (hf : f.Continues size conts) (hg : g.Continues size others)
    (hpart : f.PartWithin size k g) : (f <|> g).Continues size (conts ++ others) := by
  rintro us l vs hus ⟨ws, hws⟩
  rcases Form.matches_orElse.mp hus with h | h
  · rcases Form.matches_orElse.mp hws with h' | h'
    · exact List.mem_append_left _ (hf h ⟨ws, h'⟩)
    · have := hpart.length_le h.viable h'.viable.of_append.of_append
      have := hpart.left.long h
      omega
  · rcases Form.matches_orElse.mp hws with h' | h'
    · have := hpart.length_le h'.viable.of_append.of_append h.viable
      have := hpart.right.long h
      omega
    · exact List.mem_append_right _ (hg h ⟨ws, h'⟩)

end Ebnf

namespace Rule

/-! ## Choices -/

variable {q : Rule α}

/-- A rule gets no further than a call that is open in another form. -/
theorem Explains.le_reach_of_partWithin (hq : q.Explains size g bound mute)
    (hlen : (c ++ x).length < bound) (hbegun : Begun size f c d) (hd : d ≠ [])
    (hpart : f.PartWithin size k g) : (d ++ x).length ≤ (q (c ++ x)).reach := by
  have hopen := hpart.left.closed hbegun hd
  refine hq.le_reach_of_viable hlen fun us rest hus heq => ?_
  have hviable := hbegun.viable
  obtain ⟨c, rfl⟩ := hbegun.suffix
  rw [List.append_assoc] at heq
  rcases List.append_eq_append_iff.mp heq with ⟨ws, rfl, hws⟩ | ⟨ws, rfl, hws⟩
  · cases ws with
    | nil =>
      rw [List.nil_append] at hws
      exact Nat.le_of_eq (congrArg List.length hws)
    | cons l ws =>
      -- Beyond the parenthesis both forms would begin alike.
      obtain ⟨l', d, rfl⟩ := List.exists_cons_of_ne_nil hd
      obtain rfl : l' = l := by
        rw [List.cons_append, List.cons_append] at hws
        exact (List.cons.inj hws).1
      rw [List.append_cons] at hus hviable
      have := hpart.length_le hviable.of_append hus.of_append
      simp only [List.length_append, List.length_cons, List.length_nil] at this hopen
      omega
  · rw [hws]
    simp

/-- **A rule fails on what has begun another form**, and gets no further than the end
or the open call. -/
theorem Explains.exists_fail (hq : q.Explains size g bound mute) (hlen : (c ++ x).length < bound)
    (hbegun : Begun size f c d) (hstuck : g.Stuck size c x) (hpart : f.PartWithin size k g) :
    ∃ e, q (c ++ x) = .fail e ∧ (d ++ x).length ≤ e.rest.length := by
  have hreach : (d ++ x).length ≤ (q (c ++ x)).reach := by
    by_cases hd : d = []
    · rw [hd]
      exact hq.le_reach hlen hstuck
    · exact hq.le_reach_of_partWithin hlen hbegun hd hpart
  cases hrun : q (c ++ x) with
  | fail e =>
    rw [hrun] at hreach
    exact ⟨e, rfl, hreach⟩
  | ok a rest s =>
    -- A match would go on where the forms have parted.
    obtain ⟨⟨us, heq, hus⟩, -⟩ := hq.ok hlen hrun
    obtain ⟨ws, rfl, -⟩ := hstuck.exists_append hus.viable heq
    have := hpart.length_le hbegun.viable.of_append hus.viable
    have := hpart.right.long hus
    omega

/-- **Either of two rules**, if their forms part before a call opens. -/
theorem Blames.orElse (hp : p.Blames size f bound False) (hq : q.Blames size g bound False)
    (hpart : f.PartWithin size k g) : (p <|> q).Blames size (f <|> g) bound False := by
  refine ⟨hp.toExplains.orElse hq.toExplains, fun c d x hlen hbegun hstuck => ?_⟩
  have hstuckf : f.Stuck size c x := fun l hl hviable => hstuck l hl hviable.left
  have hstuckg : g.Stuck size c x := fun l hl hviable => hstuck l hl hviable.right
  rcases begun_orElse.mp hbegun with hbegun | hbegun
  · have hreach := hp.located hlen hbegun hstuckf
    obtain ⟨e, hfail, hle⟩ := hq.toExplains.exists_fail hlen hbegun hstuckg hpart
    exact (reach_orElse_left hfail (hreach ▸ hle)).trans hreach
  · have hreach := hq.located hlen hbegun hstuckg
    obtain ⟨e, hfail, hle⟩ := hp.toExplains.exists_fail hlen hbegun hstuckf hpart.symm
    exact (reach_orElse_right hfail (hreach ▸ hle)).trans hreach

theorem Recognizes.orElse (hp : p.Recognizes size f bound conts)
    (hexplains : p.Explains size f bound mute) (hq : q.Recognizes size g bound others)
    (hpart : f.PartWithin size k g) :
    (p <|> q).Recognizes size (f <|> g) bound (conts ++ others) := by
  intro us rest hlen hus hnext
  rcases Form.matches_orElse.mp hus with h | h
  · obtain ⟨a, ha⟩ := hp hlen h fun t ht => hnext t (List.mem_append_left _ ht)
    exact ⟨a, reads_orElse.mpr (.inl ha)⟩
  · obtain ⟨a, ha⟩ := hq hlen h fun t ht => hnext t (List.mem_append_right _ ht)
    refine ⟨a, reads_orElse.mpr (.inr ⟨?_, ha⟩)⟩
    cases hrun : p (us ++ rest) with
    | fail e => exact ⟨e, hrun⟩
    | ok b rest' s =>
      obtain ⟨⟨us', heq, hus'⟩, -⟩ := hexplains.ok hlen hrun
      exact absurd heq.symm (hpart.append_ne hus' h)

/-- **Either of two rules**, which know where their forms end. -/
theorem Delimits.orElse_of_partWithin (hp : p.Delimits size f bound False conts)
    (hq : q.Delimits size g bound False others) (hpart : f.PartWithin size k g) :
    (p <|> q).Delimits size (f <|> g) bound False (conts ++ others) :=
  ⟨hp.toBlames.orElse hq.toBlames hpart,
    hp.recognizes.orElse hp.toExplains hq.recognizes hpart,
    hp.continues.orElse hq.continues hpart⟩

/-- The next token tells them apart. -/
theorem Delimits.orElse (hp : p.Delimits size f bound False conts)
    (hq : q.Delimits size g bound False others)
    (hf : f.consumes = true) (hg : g.consumes = true) (hdisj : ∀ t ∈ f.first, t ∉ g.first) :
    (p <|> q).Delimits size (f <|> g) bound False (conts ++ others) :=
  hp.orElse_of_partWithin hq (partWithin_of_disjoint hf hg hdisj)

/-! ## A repetition and a last part -/

/-- **A repetition goes on up to where its item fails**, if no token goes on with an
item. -/
theorem Delimits.exists_many (hp : p.Delimits size f bound mute []) (hf : f.consumes = true)
    (hus : (Form.repeated f).Matches size us) (hlen : (us ++ rest).length < bound) {e : Failure}
    (hfail : p rest = .fail e) :
    ∃ as s, Rule.many p (us ++ rest) = .ok as rest s ∧ e.rest.length ≤ leftAt s rest.length := by
  induction hus using Form.Matches.repeated_induction with
  | done =>
    refine ⟨[], some e, by rw [List.nil_append, many_apply, hfail], ?_⟩
    have hle := hp.reach_le hlen
    rw [List.nil_append, hfail] at hle
    exact Nat.le_min.mpr ⟨Nat.le_refl _, hle⟩
  | again us vs hus _ ih =>
    rw [List.append_assoc] at hlen ⊢
    have hpos := List.length_pos_iff.mpr (hus.ne_nil hf)
    have hlt : (vs ++ rest).length < (us ++ (vs ++ rest)).length := by
      simp only [List.length_append]
      omega
    obtain ⟨a, s, hrun, hs⟩ := hp.exists_exact hlen hus (by simp)
    obtain ⟨as, s', hruns, hs'⟩ := ih (Nat.lt_trans hlt hlen)
    refine ⟨a :: as, furthest? s s', ?_, ?_⟩
    · rw [many_apply, hrun]
      simp only [if_pos hlt, hruns, Outcome.map, Outcome.remember]
    · rw [leftAt_furthest?]
      refine le_leftAt (Nat.le_trans ?_ hs) hs'
      refine Nat.le_trans (Nat.le_trans hs' (leftAt_le s' _)) ?_
      simp

/-- **Items, and a last part that begins like one**: the repetition ends where the last
part begins, and reads no further there than where the two part. -/
theorem Blames.many_optional [Nonempty α] {q : Rule β} (hp : p.Delimits size f bound False [])
    (hq : q.Blames size g bound False) (hf : f.consumes = true) (hpart : f.PartWithin size k g)
    (h : List α → Option β → γ) :
    (Rule.many p >>= fun as => Rule.optional q >>= fun b => Pure.pure (h as b)).Blames size
      (.repeated f ++ g.optional) bound False := by
  have hmany := hp.many hf nofun
  have hlast := fun as => hq.optional.map (h as)
  have hexplains := hmany.toExplains.andThen fun as => (hlast as).toExplains
  refine hexplains.blames fun c d x hc hlen hbegun hstuck => ?_
  have hreachBind : ∀ {ts rest : List Lexeme} {as s}, Rule.many p ts = .ok as rest s →
      rest.length < bound → ((Rule.many p >>= fun as => Rule.optional q >>= fun b =>
        Pure.pure (h as b) : Rule γ) ts).reach = leftAt s (q rest).reach := by
    intro ts rest as s hrun hlen
    rw [← hq.reach_optional hlen, ← reach_bind_pure _ (h as)]
    exact reach_bind_of_ok hrun
  rcases begun_append.mp hbegun with ⟨hfirst, hg⟩ | ⟨us, cs, rfl, hcs, hus, hsecond⟩
  · have hstuckf : (Form.repeated f).Stuck size c x :=
      fun l hl hviable => hstuck l hl (hviable.first hg)
    have hreach := hmany.located hlen hfirst hstuckf
    have hge := hexplains.le_reach hlen hstuck
    cases hrun : Rule.many p (c ++ x) with
    | fail e =>
      rw [hrun] at hreach
      exact (reach_bind_of_fail hrun).trans hreach
    | ok as rest s =>
      obtain ⟨⟨us, heq, -⟩, -⟩ := hmany.ok hlen hrun
      have hrest : rest.length < bound := by
        rw [heq, List.length_append] at hlen
        omega
      rw [hrun] at hreach
      rw [hreachBind hrun hrest] at hge ⊢
      refine Nat.le_antisymm (hreach ▸ leftAt_mono s (hq.reach_le hrest)) ?_
      refine le_leftAt (Nat.le_of_eq hreach.symm) ?_
      by_cases hd : d = []
      · rw [hd]
        exact Nat.le_trans hge (leftAt_le s _)
      · -- The last item fails at the open call, so that the last part is tried in its place.
        obtain ⟨us, cs, rfl, hus, hitem⟩ := hfirst.exists_last hf hc
        rw [List.append_assoc] at hlen hrun
        have hlen' : (cs ++ x).length < bound := by
          rw [List.length_append] at hlen
          omega
        obtain ⟨e, hfail⟩ := hp.exists_fail hlen' hitem
          (hstuckf.mono fun _ hviable => hus.further_items hviable.item) hd
        obtain ⟨as', s', hrun', -⟩ := hp.exists_many hf hus hlen hfail
        obtain ⟨-, rfl, -⟩ : _ ∧ rest = cs ++ x ∧ _ := by simpa [hrun'] using hrun.symm
        exact hq.le_reach_of_partWithin hlen' hitem hd hpart
  · rw [List.append_assoc] at hlen ⊢
    have hlen' : (cs ++ x).length < bound := by
      rw [List.length_append] at hlen
      omega
    have hlater : Begun size g cs d := by
      rcases begun_orElse.mp hsecond with h | h
      · exact h
      · exact absurd h.of_nothing hcs
    have hstuckf : f.Stuck size cs x := hstuck.mono fun _ hviable =>
      (hus.further_items hviable.item).first ⟨[], Form.matches_absent g⟩
    have hstuckg : g.Stuck size cs x := hstuck.mono fun _ hviable => hus.second hviable.left
    -- No item stands where the last part has begun.
    obtain ⟨e, hfail, hle⟩ := hp.toExplains.exists_fail hlen' hlater hstuckf hpart.symm
    obtain ⟨as, s, hrun, hs⟩ := hp.exists_many hf hus hlen hfail
    rw [hreachBind hrun hlen', hq.located hlen' hlater hstuckg]
    exact Nat.le_antisymm (leftAt_le s _) (le_leftAt (Nat.le_trans hle hs) (Nat.le_refl _))

end Rule

end ImpFront
