import ImpFront.Proofs.Failure.Program
import ImpFront.Proofs.Grammar.Relocation

/-!
# What has been read is forgotten

A match keeps the furthest failure that it survived, since this may say best
what is wrong if the input turns out to be wrong right behind it. But where no
token can go on with a match, the failure lies before its end, or names nothing
there (`Rule.Delimits.outdone`). Then whatever goes wrong later is further on,
and the earlier failure is not heard of again.

Nothing goes on with a declaration. So reading declarations and then some more
is reading the rest, with the declarations put in front – also where it fails
(`Grammar.many_declaration_append`).
-/

namespace ImpFront

open Ebnf Rule

variable {α : Type} {size bound : Nat} {p : Rule α} {f : Form} {mute : Prop}
  {ts us rest : List Lexeme} {a : α}

/-! ## Failures that are outdone -/

/-- **The failure is outdone** by any that arises at these tokens or later: it lies
before them, or just there and names nothing. -/
def Failure.OutdoneAt (rest : List Lexeme) (e : Failure) : Prop :=
  rest.length < e.rest.length ∨ e.rest = rest ∧ e.expected = []

/-- Of an outdone failure nothing remains. -/
theorem Failure.OutdoneAt.furthest_eq {e later : Failure} (h : e.OutdoneAt rest)
    (hlater : later.rest <:+ rest) : e.furthest later = later := by
  have hle := hlater.length_le
  rcases e.furthest_cases later with ⟨-, hlen⟩ | ⟨heq, -⟩ | ⟨heq, hlen⟩
  · rcases h with hbefore | ⟨hrest, -⟩
    · omega
    · rw [hrest] at hlen
      omega
  · exact heq
  · rcases h with hbefore | ⟨hrest, hnone⟩
    · omega
    · rw [hrest] at hlen
      rw [heq, hnone, hrest, ← hlater.eq_of_length hlen.symm]
      rfl

/-- **A match that nothing goes on with survives no failure worth keeping.** -/
theorem Rule.Delimits.outdone (hp : p.Delimits size f bound mute [])
    (hlen : (us ++ rest).length < bound) (hus : f.Matches size us) {s : Option Failure}
    (hrun : p (us ++ rest) = .ok a rest s) : ∀ e ∈ s, e.OutdoneAt rest := by
  intro e he
  obtain ⟨-, htold⟩ := hp.ok hlen hrun
  obtain ⟨⟨vs, hsplit, -, hexpected⟩, -⟩ := htold e he
  have hreach := hp.le_reach hlen (hp.continues.stuck hus (by simp))
  rw [hrun, Option.mem_def.mp he] at hreach
  have hle : rest.length ≤ e.rest.length := Nat.le_trans hreach (Nat.min_le_left _ _)
  rcases Nat.lt_or_eq_of_le hle with hlt | heq
  · exact .inl hlt
  · -- Right behind the match, any token named would go on with it.
    obtain ⟨rfl, hrest⟩ := List.append_inj' hsplit heq
    refine .inr ⟨hrest.symm, List.eq_nil_iff_forall_not_mem.mpr fun x hx => ?_⟩
    obtain ⟨t, -, -, hviable⟩ := hexpected x hx
    exact List.not_mem_nil (hp.continues hus (hviable ⟨0, 0⟩))

/-! ## Repetitions -/

/-- **A repetition survives the failure that ends it.** -/
theorem Rule.Explains.exists_many (hp : p.Explains size f bound mute) (hf : f.consumes = true)
    (hlen : ts.length < bound) : ∃ as rest e, Rule.many p ts = .ok as rest (some e) := by
  induction hn : ts.length using Nat.strongRecOn generalizing ts with
  | _ n ih =>
    subst hn
    rw [many_apply]
    cases hrun : p ts with
    | fail e => exact ⟨[], ts, e, rfl⟩
    | ok a rest s =>
      obtain ⟨⟨us, rfl, hus⟩, -⟩ := hp.ok hlen hrun
      have hpos := List.length_pos_iff.mpr (hus.ne_nil hf)
      have hlt : rest.length < (us ++ rest).length := by
        rw [List.length_append]
        omega
      obtain ⟨as, rest', e, hmore⟩ := ih rest.length hlt (by omega) rfl
      simp only [if_pos hlt, hmore]
      cases s with
      | none => exact ⟨a :: as, rest', e, rfl⟩
      | some e' => exact ⟨a :: as, rest', e'.furthest e, rfl⟩

/-- **Behind its first item a repetition goes on as if nothing had been.** -/
theorem Rule.Delimits.many_append (hp : p.Delimits size f bound mute []) (hf : f.consumes = true)
    (hlen : (us ++ rest).length < bound) (hus : f.Matches size us)
    (hread : p.Reads (us ++ rest) a rest) :
    Rule.many p (us ++ rest) = (Rule.many p rest).map (a :: ·) := by
  obtain ⟨s, hrun⟩ := hread
  have hpos := List.length_pos_iff.mpr (hus.ne_nil hf)
  have hlt : rest.length < (us ++ rest).length := by
    rw [List.length_append]
    omega
  have hbound : rest.length < bound := Nat.lt_trans hlt hlen
  obtain ⟨as, rest', e, hmore⟩ := hp.toExplains.exists_many hf hbound
  obtain ⟨-, htold⟩ := hp.toExplains.many.ok hbound hmore
  rw [many_apply, hrun]
  simp only [if_pos hlt, hmore]
  cases s with
  | none => rfl
  | some e' =>
    show Outcome.ok (a :: as) rest' (some (e'.furthest e)) = _
    rw [(hp.outdone hlen hus hrun e' rfl).furthest_eq (htold e rfl).1.suffix]
    rfl

/-! ## Declarations -/

/-- **Declarations in front change nothing** about how declarations are read: those in
front come first, and a failure is the same. -/
theorem Grammar.many_declaration_append {parts : List TreeShape}
    (h : Derives size (.repeated (.rule .varDecl <|> .rule .funcDecl)) us parts)
    (rest : List Lexeme) :
    many declaration (us ++ rest) = (many declaration rest).map (parts ++ ·) := by
  have hitems := items_of_derives h
  clear h
  induction hitems with
  | nil =>
    rw [List.nil_append]
    cases many declaration rest <;> rfl
  | @cons ts us parts others hts _ ih =>
    obtain ⟨-, t, rfl, hread⟩ := reads_declaration_of_derives hts (us ++ rest)
    rw [List.append_assoc, declaration_delimits.many_append rfl (Nat.lt_succ_self _) ⟨_, hts⟩ hread,
      ih]
    cases many declaration rest <;> rfl

end ImpFront
