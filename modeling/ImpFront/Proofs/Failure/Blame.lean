import ImpFront.Proofs.Failure.Recognize

/-!
# Where a rule gets stuck

`Rule.Blames` says where a rule gets to on tokens of which `c` begin a phrase and
the next one goes on with none: to the end of `c`, or to the parenthesis of the
outermost call that is open there. Each form of rule has a lemma here.

In a sequence the second part may have begun, so the first one has to be read to
its end and no further. `Rule.Recognizes` is this: the rule reads a match unless a
token comes next that may go on with it. And where the first part has stopped at
an open call, the second must not go on, which is the same condition on tokens
seen from the other side.
-/

namespace ImpFront

open Ebnf Rule

variable {α β : Type} {size bound bound' k : Nat} {f g : Form} {p q : Rule α} {mute : Prop}
  {c d x us rest ts : List Lexeme} {conts others all : List Token}

/-! ## Getting stuck -/

namespace Rule

/-- **The rule gets to the end of what has begun**, where no phrase goes on – or to
the parenthesis of the outermost call that is open there. -/
structure Blames (size : Nat) (p : Rule α) (f : Form) (bound : Nat) (mute : Prop) : Prop
    extends p.Explains size f bound mute where
  /-- It gets there, and no further. -/
  located : ∀ ⦃c d x⦄, (c ++ x).length < bound → Begun size f c d → f.Stuck size c x →
    (p (c ++ x)).reach = (d ++ x).length

/-- **The rule also knows where its form ends**: it reads a match unless a token comes
next that may go on with it, and `conts` has all of these. -/
structure Delimits (size : Nat) (p : Rule α) (f : Form) (bound : Nat) (mute : Prop)
    (conts : List Token) : Prop extends p.Blames size f bound mute where
  /-- It reads every match. -/
  recognizes : p.Recognizes size f bound conts
  /-- Only these tokens go on with a match. -/
  continues : f.Continues size conts

/-- If nothing has begun, a rule does not move. -/
theorem Explains.blames (hp : p.Explains size f bound mute)
    (h : ∀ ⦃c d x⦄, c ≠ [] → (c ++ x).length < bound → Begun size f c d → f.Stuck size c x →
      (p (c ++ x)).reach = (d ++ x).length) : p.Blames size f bound mute := by
  refine ⟨hp, fun c d x hlen hbegun hstuck => ?_⟩
  by_cases hc : c = []
  · subst hc
    rw [hbegun.open_nil]
    exact Nat.le_antisymm (hp.reach_le hlen) (hp.le_reach hlen hstuck)
  · exact h hc hlen hbegun hstuck

/-- A rule that reads what is complete once it has begun. -/
theorem Explains.blames_of_whole (hp : p.Explains size f bound mute)
    (hr : p.Recognizes size f bound [])
    (hwhole : ∀ c d, Begun size f c d → c ≠ [] → d = [] ∧ f.Matches size c) :
    p.Blames size f bound mute := by
  refine hp.blames fun c d x hc hlen hbegun hstuck => ?_
  obtain ⟨rfl, hmatches⟩ := hwhole c d hbegun hc
  refine Nat.le_antisymm ?_ (hp.le_reach hlen hstuck)
  obtain ⟨a, s, hrun⟩ := hr hlen hmatches (by simp)
  rw [hrun]
  exact leftAt_le s _

/-- **Reading a match exactly**: if no token comes that goes on with it, the failure
survived is not beyond it. -/
theorem Delimits.exists_exact (hp : p.Delimits size f bound mute conts)
    (hlen : (us ++ rest).length < bound) (hus : f.Matches size us)
    (hnext : ∀ t ∈ conts, nextToken rest ≠ some t) :
    ∃ a s, p (us ++ rest) = .ok a rest s ∧ rest.length ≤ leftAt s rest.length := by
  obtain ⟨a, s, hrun⟩ := hp.recognizes hlen hus hnext
  refine ⟨a, s, hrun, ?_⟩
  have hreach := hp.le_reach hlen (hp.continues.stuck hus hnext)
  rwa [hrun] at hreach

/-- If a rule reads on although a call is open, it stops before the call, and at a token
that may go on with what it has read. -/
theorem Delimits.exists_next (hp : p.Delimits size f bound mute conts)
    (hlen : (c ++ x).length < bound) (hbegun : Begun size f c d) (hstuck : f.Stuck size c x)
    (hd : d ≠ []) {a : α} {s : Option Failure} (hrun : p (c ++ x) = .ok a rest s) :
    (d ++ x).length ≤ rest.length ∧ ∃ t ∈ conts, nextToken rest = some t := by
  have hreach := hp.located hlen hbegun hstuck
  rw [hrun] at hreach
  have hle : (d ++ x).length ≤ rest.length := hreach ▸ leftAt_le s _
  obtain ⟨⟨us, heq, hus⟩, -⟩ := hp.ok hlen hrun
  obtain ⟨ws, rfl, rfl⟩ := hstuck.exists_append hus.viable heq
  refine ⟨hle, ?_⟩
  cases ws with
  | nil =>
    have hpos := List.length_pos_iff.mpr hd
    simp only [List.length_append, List.nil_append] at hle
    omega
  | cons l ws => exact ⟨l.token, hp.continues hus hbegun.viable, rfl⟩

/-- **A rule fails at an open call**, if no token goes on with its form. -/
theorem Delimits.exists_fail (hp : p.Delimits size f bound mute [])
    (hlen : (c ++ x).length < bound) (hbegun : Begun size f c d) (hstuck : f.Stuck size c x)
    (hd : d ≠ []) : ∃ e, p (c ++ x) = .fail e := by
  cases hrun : p (c ++ x) with
  | fail e => exact ⟨e, rfl⟩
  | ok a rest s =>
    obtain ⟨-, t, ht, -⟩ := hp.exists_next hlen hbegun hstuck hd hrun
    exact absurd ht (by simp)

namespace Blames

theorem mono (h : p.Blames size f bound mute) (hle : bound' ≤ bound) :
    p.Blames size f bound' mute :=
  ⟨h.toExplains.mono hle, fun _ _ _ hlen => h.located (Nat.lt_of_lt_of_le hlen hle)⟩

theorem congr (h : p.Blames size f bound mute)
    (hmatches : ∀ us, f.Matches size us ↔ g.Matches size us)
    (hbegun : ∀ c d, Begun size f c d ↔ Begun size g c d) : p.Blames size g bound mute := by
  refine ⟨h.toExplains.congr hmatches, fun c d x hlen hc hstuck => ?_⟩
  refine h.located hlen ((hbegun c d).mpr hc) fun l hl hviable => hstuck l hl ?_
  obtain ⟨vs, hvs⟩ := hviable
  exact ⟨vs, (hmatches _).mp hvs⟩

theorem rule {n : Nonterminal} (hn : n ≠ .call) (h : p.Blames size (production n) bound mute) :
    p.Blames size (.rule n) bound mute :=
  ⟨h.toExplains.rule, fun _ _ _ hlen hbegun hstuck => h.located hlen ((begun_rule hn).mp hbegun)
    fun l hl hviable => hstuck l hl (Form.viable_rule.mpr hviable)⟩

theorem token (t : Token) : (Rule.token t).Blames size (.token t) bound False :=
  (Explains.token t).blames_of_whole (.token t) fun _ _ h hc => h.of_token hc

theorem map [Nonempty α] (hp : p.Blames size f bound mute) (h : α → β) :
    (p >>= fun a => Pure.pure (h a)).Blames size f bound mute := by
  refine ⟨(hp.toExplains.andThen fun _ => .pure _).congr fun _ => Form.matches_singleton,
    fun c d x hlen hbegun hstuck => ?_⟩
  rw [reach_bind_pure]
  exact hp.located hlen hbegun hstuck

theorem optional (hp : p.Blames size f bound mute) :
    (Rule.optional p).Blames size f.optional bound False := by
  refine hp.toExplains.optional.blames fun c d x hc hlen hbegun hstuck => ?_
  rcases begun_orElse.mp hbegun with hpresent | habsent
  · rw [hp.reach_optional hlen]
    exact hp.located hlen hpresent fun l hl hviable => hstuck l hl hviable.left
  · exact absurd habsent.of_nothing hc

end Blames

/-! ### Sequences and repetitions -/

namespace Delimits

/-- The second part has not begun before the first is complete, if no token begins it
that may go on with the first. -/
theorem bind_blames [Nonempty α] {q : α → Rule β} (hp : p.Delimits size f bound mute conts)
    (hq : ∀ a, (q a).Blames size g bound' False) (hdisj : ∀ t ∈ conts, t ∉ g.first)
    (hbound : ∀ us rest : List Lexeme, f.Matches size us → (us ++ rest).length < bound →
      rest.length < bound') :
    (p >>= q).Blames size (f ++ g) bound mute := by
  have hexplains := hp.toExplains.bind (fun a => (hq a).toExplains) hbound
  refine ⟨hexplains, fun c d x hlen hbegun hstuck => ?_⟩
  rcases begun_append.mp hbegun with ⟨hfirst, hg⟩ | ⟨us, cs, rfl, hcs, hus, hsecond⟩
  · -- The first part has begun: the second adds nothing to where the first gets to.
    have hstuckf : f.Stuck size c x := fun l hl hviable => hstuck l hl (hviable.first hg)
    have hreach := hp.located hlen hfirst hstuckf
    cases hrun : p (c ++ x) with
    | fail e =>
      rw [hrun] at hreach
      exact (reach_bind_of_fail hrun).trans hreach
    | ok a rest s =>
      obtain ⟨⟨us, heq, hus⟩, -⟩ := hp.ok hlen hrun
      have hrest : rest.length < bound' := hbound us rest hus (heq ▸ hlen)
      have hle := hexplains.le_reach hlen hstuck
      rw [reach_bind_of_ok hrun] at hle ⊢
      rw [hrun] at hreach
      refine Nat.le_antisymm ?_ ?_
      · rw [← hreach]
        exact leftAt_mono s ((hq a).reach_le hrest)
      · by_cases hd : d = []
        · rwa [hd]
        · obtain ⟨hbefore, t, ht, hnext⟩ := hp.exists_next hlen hfirst hstuckf hd hrun
          refine le_leftAt (Nat.le_of_eq hreach.symm) ?_
          rwa [(hq a).reach_eq hrest hnext (hdisj t ht)]
  · -- The second part has begun: the first is read to its end.
    rw [List.append_assoc] at hlen ⊢
    have hnext : ∀ t ∈ conts, nextToken (cs ++ x) ≠ some t := by
      obtain ⟨l, cs, rfl⟩ := List.exists_cons_of_ne_nil hcs
      rintro t ht heq
      obtain rfl : l.token = t := by simpa using heq
      exact hdisj _ ht hsecond.viable.mem_first
    obtain ⟨a, s, hrun, hs⟩ := hp.exists_exact hlen hus hnext
    have hreach := (hq a).located (hbound us _ hus hlen) hsecond
      (hstuck.mono fun _ hviable => hus.second hviable)
    rw [reach_bind_of_ok hrun, hreach]
    refine leftAt_eq_of_le hs ?_
    have := hsecond.suffix.length_le
    simp only [List.length_append]
    omega

/-- **A repetition gets stuck in the item that has begun.** -/
theorem many_blames (hp : p.Delimits size f bound mute conts) (hf : f.consumes = true)
    (hdisj : ∀ t ∈ conts, t ∉ f.first) :
    Blames size (Rule.many p) (.repeated f) bound False := by
  have hmany := hp.toExplains.many
  refine hmany.blames fun c d x hne hlen hbegun hstuck => ?_
  induction hn : c.length using Nat.strongRecOn generalizing c with
  | _ n ih =>
    subst hn
    rcases hbegun.of_repeated hne with hitem | ⟨us, cs, rfl, hcs, hus, hlater⟩
    · have hstuckf : f.Stuck size c x := fun l hl hviable => hstuck l hl hviable.item
      have hreach := hp.located hlen hitem hstuckf
      have hle := hp.toExplains.reach_le hlen
      have hge := hmany.le_reach hlen hstuck
      rw [many_apply] at hge ⊢
      cases hrun : p (c ++ x) with
      | fail e =>
        rw [hrun] at hreach hle
        exact (Nat.min_eq_left hle).trans hreach
      | ok a rest s =>
        obtain ⟨⟨us, heq, hus⟩, -⟩ := hp.ok hlen hrun
        have hpos := List.length_pos_iff.mpr (hus.ne_nil hf)
        have hlt : rest.length < (c ++ x).length := by
          rw [heq, List.length_append]
          omega
        rw [hrun] at hreach hge
        simp only [if_pos hlt, reach_remember, reach_map] at hge ⊢
        refine Nat.le_antisymm ?_ ?_
        · rw [← hreach]
          exact leftAt_mono s (hmany.reach_le (by omega))
        · by_cases hd : d = []
          · rwa [hd]
          · obtain ⟨hbefore, t, ht, hnext⟩ := hp.exists_next hlen hitem hstuckf hd hrun
            refine le_leftAt (Nat.le_of_eq hreach.symm) ?_
            rwa [hmany.reach_eq (by omega) hnext (hdisj t ht)]
    · rw [List.append_assoc] at hlen ⊢
      have hnext : ∀ t ∈ conts, nextToken (cs ++ x) ≠ some t := by
        obtain ⟨l, cs, rfl⟩ := List.exists_cons_of_ne_nil hcs
        rintro t ht heq
        obtain rfl : l.token = t := by simpa using heq
        exact hdisj _ ht hlater.viable.mem_first
      have hpos := List.length_pos_iff.mpr (hus.ne_nil hf)
      have hlt : (cs ++ x).length < (us ++ (cs ++ x)).length := by
        simp only [List.length_append]
        omega
      obtain ⟨a, s, hrun, hs⟩ := hp.exists_exact hlen hus hnext
      have hreach := ih cs.length (by rw [List.length_append]; omega) cs hcs
        (Nat.lt_trans hlt hlen) hlater (hstuck.mono fun _ hviable => hus.further hviable) rfl
      rw [many_apply, hrun]
      simp only [if_pos hlt, reach_remember, reach_map, hreach]
      refine leftAt_eq_of_le hs ?_
      have := hlater.suffix.length_le
      simp only [List.length_append]
      omega

end Delimits

/-! ### Rules that know where their forms end -/

namespace Delimits

theorem mono (hp : p.Delimits size f bound mute conts) (hle : bound' ≤ bound) :
    p.Delimits size f bound' mute conts :=
  ⟨hp.toBlames.mono hle, fun _ _ hlen => hp.recognizes (Nat.lt_of_lt_of_le hlen hle),
    hp.continues⟩

/-- More tokens may be allowed for. -/
theorem weaken (hp : p.Delimits size f bound mute conts) (hsub : conts ⊆ others) :
    p.Delimits size f bound mute others :=
  ⟨hp.toBlames, hp.recognizes.weaken hsub, hp.continues.weaken hsub⟩

theorem congr (hp : p.Delimits size f bound mute conts)
    (hmatches : ∀ us, f.Matches size us ↔ g.Matches size us)
    (hbegun : ∀ c d, Begun size f c d ↔ Begun size g c d) : p.Delimits size g bound mute conts :=
  ⟨hp.toBlames.congr hmatches hbegun, hp.recognizes.congr hmatches,
    continues_congr hp.continues hmatches⟩

theorem of_steps (hp : p.Delimits size f bound mute conts) (hfg : f.steps = g.steps) :
    p.Delimits size g bound mute conts :=
  hp.congr (fun _ => Form.matches_congr hfg) fun _ _ => begun_congr hfg

theorem rule {n : Nonterminal} (hn : n ≠ .call)
    (hp : p.Delimits size (production n) bound mute conts) :
    p.Delimits size (.rule n) bound mute conts :=
  ⟨.rule hn hp.toBlames, hp.recognizes.rule,
    continues_congr hp.continues fun _ => Form.matches_rule.symm⟩

theorem map [Nonempty α] (hp : p.Delimits size f bound mute conts) (h : α → β) :
    (p >>= fun a => pure (h a)).Delimits size f bound mute conts :=
  ⟨hp.toBlames.map h, hp.recognizes.map h, hp.continues⟩

theorem optional (hp : p.Delimits size f bound mute conts) (hf : f.consumes = true) :
    (Rule.optional p).Delimits size f.optional bound False (f.first ++ conts) :=
  ⟨hp.toBlames.optional, hp.recognizes.optional hp.toExplains hf, hp.continues.optional⟩

theorem many (hp : p.Delimits size f bound mute conts) (hf : f.consumes = true)
    (hdisj : ∀ t ∈ conts, t ∉ f.first) :
    Delimits size (Rule.many p) (.repeated f) bound False (f.first ++ conts) :=
  ⟨hp.many_blames hf hdisj, hp.recognizes.many hp.toExplains hf hdisj,
    hp.continues.repeated hdisj⟩

/-- **One rule after another**, if no token begins the second part that may go on with
the first. -/
theorem bind [Nonempty α] {q : α → Rule β} (hp : p.Delimits size f bound mute conts)
    (hq : ∀ a, (q a).Delimits size g bound' False others) (hdisj : ∀ t ∈ conts, t ∉ g.first)
    (hconts : g.consumes = true ∨ conts ⊆ others)
    (hbound : ∀ us rest : List Lexeme, f.Matches size us → (us ++ rest).length < bound →
      rest.length < bound') :
    (p >>= q).Delimits size (f ++ g) bound mute others := by
  obtain ⟨a₀⟩ := ‹Nonempty α›
  exact ⟨hp.bind_blames (fun a => (hq a).toBlames) hdisj hbound,
    hp.recognizes.bind (fun a => (hq a).recognizes) hdisj hconts hbound,
    hp.continues.append (hq a₀).continues hdisj hconts⟩

/-- The second part ends the first one. -/
theorem endedBy [Nonempty α] {q : α → Rule β} (hp : p.Delimits size f bound mute conts)
    (hq : ∀ a, (q a).Delimits size g bound False others) (hdisj : ∀ t ∈ conts, t ∉ g.first)
    (hconts : g.consumes = true ∨ conts ⊆ others) :
    (p >>= q).Delimits size (f ++ g) bound mute others := by
  refine hp.bind hq hdisj hconts fun us rest _ hlen => ?_
  rw [List.length_append] at hlen
  omega

/-- The first part ends by itself. -/
theorem andThen [Nonempty α] {q : α → Rule β} (hp : p.Delimits size f bound mute [])
    (hq : ∀ a, (q a).Delimits size g bound False others) :
    (p >>= q).Delimits size (f ++ g) bound mute others :=
  hp.endedBy hq nofun (.inr (List.nil_subset _))

/-- Behind a token or more the second rule has less to read. -/
theorem andInside [Nonempty α] {q : α → Rule β} (hp : p.Delimits size f (bound + 1) mute [])
    (hf : f.consumes = true) (hq : ∀ a, (q a).Delimits size g bound False others) :
    (p >>= q).Delimits size (f ++ g) (bound + 1) mute others := by
  refine hp.bind hq nofun (.inr (List.nil_subset _)) fun us rest hus hlen => ?_
  have := List.length_pos_iff.mpr (hus.ne_nil hf)
  rw [List.length_append] at hlen
  omega

end Delimits

end Rule

end ImpFront
