import ImpFront.Format.Registry
import Mathlib.Data.List.Induction
import Mathlib.Data.String.Basic
import Mathlib.Tactic.Common

/-!
# What a registry knows

A registry is a list of formatters, and registering one drops another from the list. Seen from
outside there is a history: a way in which the registry was made and the formatters that were
registered since, in order. A name **stands for** the last of them that has the name or, if none
has, for the formatter that was there from the beginning (`StandsFor`). Whatever can be asked of a
registry is a question about that (`lastWriteWins`).

One registration settles one name and leaves all others alone, on either side: `get?_register`
says so of the registry, `standsFor_concat` of the history.
-/

namespace ImpFront

@[simp]
theorem Formatter.name_drawing (width : Nat) : (drawing width).name = "treeviz" := rfl

@[simp]
theorem Formatter.name_json : json.name = "json" := rfl

@[simp]
theorem Formatter.name_yaml : yaml.name = "yaml" := rfl

namespace FormatRegistry

/-- Registers formatters one after another. -/
def registerAll (r : FormatRegistry) (history : List Formatter) : FormatRegistry :=
  history.foldl register r

/-- **The ways in which a registry is made.** -/
inductive Origin
  /-- Without formatters. -/
  | empty
  /-- With the formatters of this library. -/
  | standard
  /-- With the formatters of this library, as it is set. -/
  | configured (defaultFormat : String) (width : Nat)

namespace Origin

/-- The registry that is made. -/
def registry : Origin → FormatRegistry
  | .empty => .empty
  | .standard => .standard
  | .configured defaultFormat width => .configured defaultFormat width

/-- The formatters of this library, by name. -/
def ofLibrary? (width : Nat) (name : String) : Option Formatter :=
  if name = "treeviz" then some (.drawing width)
  else if name = "json" then some .json
  else if name = "yaml" then some .yaml
  else none

/-- The formatter that a name stands for at the beginning. -/
def formatter? : Origin → String → Option Formatter
  | .empty => fun _ => none
  | .standard => ofLibrary? Drawing.defaultWidth
  | .configured _ width => ofLibrary? width

/-- The name of the default format. -/
def defaultFormat : Origin → String
  | .empty | .standard => "treeviz"
  | .configured defaultFormat _ => defaultFormat

end Origin

/-- **The formatter that a name stands for** after a history: the last one that was registered
under the name or, if none was, the one from the beginning. -/
inductive StandsFor (first? : String → Option Formatter) (history : List Formatter)
    (name : String) (f : Formatter) : Prop
  | registered {earlier later : List Formatter} (hhistory : history = earlier ++ f :: later)
      (hname : f.name = name) (hlater : ∀ g ∈ later, g.name ≠ name)
  | first (hnone : ∀ g ∈ history, g.name ≠ name) (hfirst : first? name = some f)

section History

variable {first? : String → Option Formatter} {history : List Formatter} {name : String}
  {f g : Formatter}

theorem standsFor_nil : StandsFor first? [] name f ↔ first? name = some f := by
  constructor
  · rintro (⟨hhistory, -, -⟩ | ⟨-, hfirst⟩)
    · simp at hhistory
    · exact hfirst
  · exact fun h => .first (by simp) h

/-- **One registration more** settles its own name only. -/
theorem standsFor_concat :
    StandsFor first? (history ++ [g]) name f
      ↔ if g.name = name then g = f else StandsFor first? history name f := by
  constructor
  · rintro (⟨hhistory, hname, hlater⟩ | ⟨hnone, hfirst⟩)
    · rename_i earlier later
      rcases List.eq_nil_or_concat' later with rfl | ⟨later, h, rfl⟩
      · obtain ⟨-, hgf⟩ := List.append_inj' hhistory rfl
        obtain rfl := List.singleton_inj.mp hgf
        rw [if_pos hname]
      · rw [← List.cons_append, ← List.append_assoc] at hhistory
        obtain ⟨rfl, hgh⟩ := List.append_inj' hhistory rfl
        obtain rfl := List.singleton_inj.mp hgh
        rw [if_neg (hlater g (by simp))]
        exact .registered rfl hname fun h hh => hlater h (List.mem_append_left _ hh)
    · rw [if_neg (hnone g (by simp))]
      exact .first (fun h hh => hnone h (List.mem_append_left _ hh)) hfirst
  · intro h
    split at h
    · rename_i hname
      subst h
      exact .registered rfl hname (by simp)
    · rename_i hname
      have hlast : ∀ h ∈ [g], h.name ≠ name := List.forall_mem_singleton.mpr hname
      rcases h with ⟨rfl, hf, hlater⟩ | ⟨hnone, hfirst⟩
      · exact .registered (List.append_assoc ..) hf (List.forall_mem_append.mpr ⟨hlater, hlast⟩)
      · exact .first (List.forall_mem_append.mpr ⟨hnone, hlast⟩) hfirst

end History

/-! ## Registries -/

variable {r : FormatRegistry} {name : String} {f : Formatter}

/-- **Registering a formatter** settles its own name only. -/
theorem get?_register (r : FormatRegistry) (f : Formatter) (name : String) :
    (r.register f).get? name = if f.name = name then some f else r.get? name := by
  unfold get? register
  by_cases hname : f.name = name
  · rw [List.find?_cons_of_pos (by simpa using hname), if_pos hname]
  · rw [List.find?_cons_of_neg (by simpa using hname), if_neg hname, List.find?_filter]
    congr 1
    funext g
    by_cases hg : g.name = name
    · simp [hg, Ne.symm hname]
    · simp [hg]

theorem get?_registerAll (r : FormatRegistry) (history : List Formatter) (name : String)
    (f : Formatter) :
    (r.registerAll history).get? name = some f ↔ StandsFor r.get? history name f := by
  induction history using List.reverseRecOn with
  | nil => exact standsFor_nil.symm
  | append_singleton history g ih =>
    rw [registerAll, List.foldl_append]
    show ((r.registerAll history).register g).get? name = some f ↔ _
    rw [get?_register, standsFor_concat]
    split
    · exact Option.some_inj
    · exact ih

theorem get?_standard (name : String) :
    standard.get? name = Origin.ofLibrary? Drawing.defaultWidth name := by
  rw [standard, get?_register, get?_register, get?_register, Origin.ofLibrary?]
  by_cases htreeviz : name = "treeviz"
  · subst htreeviz
    rfl
  by_cases hjson : name = "json"
  · subst hjson
    rfl
  by_cases hyaml : name = "yaml"
  · subst hyaml
    rfl
  · simp only [Formatter.name_drawing, Formatter.name_json, Formatter.name_yaml, htreeviz, hjson,
      hyaml, Ne.symm htreeviz, Ne.symm hjson, Ne.symm hyaml, if_false]
    rfl

/-- What a registry holds at the beginning. -/
theorem get?_registry (origin : Origin) (name : String) :
    origin.registry.get? name = origin.formatter? name := by
  cases origin with
  | empty => rfl
  | standard => exact get?_standard name
  | configured defaultFormat width =>
    -- Drawings are registered twice, the second time with the width that is set.
    show (standard.register (.drawing width)).get? name = Origin.ofLibrary? width name
    rw [get?_register, get?_standard, Origin.ofLibrary?, Origin.ofLibrary?]
    by_cases htreeviz : name = "treeviz"
    · subst htreeviz
      rfl
    · rw [Formatter.name_drawing, if_neg htreeviz, if_neg htreeviz, if_neg (Ne.symm htreeviz)]

/-- **The names that are listed** are those that stand for something. -/
theorem mem_list_iff : name ∈ r.list ↔ ∃ f, r.get? name = some f := by
  rw [← Option.isSome_iff_exists, list, List.mem_mergeSort, get?, List.find?_isSome, List.mem_map]
  simp

/-- **The names are listed in order**, each once. -/
theorem pairwise_list (r : FormatRegistry) : r.list.Pairwise (· < ·) := by
  have hnodup : r.list.Nodup := (List.mergeSort_perm _ _).nodup_iff.mpr r.distinct
  have hsorted : r.list.Pairwise fun a b => decide (a ≤ b) = true :=
    List.pairwise_mergeSort (by simpa using fun a b c => le_trans) (by simpa using le_total) _
  refine hsorted.imp₂ (fun a b hle hne => ?_) hnodup
  exact lt_of_le_of_ne (of_decide_eq_true hle) hne

/-- **What is written** is what the formatter writes; without one, the name is not found. -/
theorem serialize_eq_iff {p : Program} {answer : Except FormatError String} :
    r.serialize name p = answer ↔
      (∃ f, r.get? name = some f ∧ f.serialize p = answer)
        ∨ (¬ ∃ f, r.get? name = some f) ∧ answer = .error (.formatNotFound name) := by
  unfold serialize
  cases hget : r.get? name with
  | some f => simp
  | none => simp [eq_comm]

theorem defaultFormat_registerAll (r : FormatRegistry) (history : List Formatter) :
    (r.registerAll history).defaultFormat = r.defaultFormat := by
  induction history generalizing r with
  | nil => rfl
  | cons f history ih => exact ih (r.register f)

theorem defaultFormat_registry (origin : Origin) :
    origin.registry.defaultFormat = origin.defaultFormat := by
  cases origin <;> rfl

/-- **What can be learned from a registry** that was made in some way and has a history: the
formatter of each name, whether there is one, which names there are, what is written, and the
default format, which was settled when the registry was made. -/
structure Account (origin : Origin) (history : List Formatter) (r : FormatRegistry) : Prop where
  /-- A name has the formatter that it stands for. -/
  get_iff (name : String) (f : Formatter) :
    r.get? name = some f ↔ StandsFor origin.formatter? history name f
  /-- It has one if it stands for one. -/
  isSome_get_iff (name : String) :
    (r.get? name).isSome ↔ ∃ f, StandsFor origin.formatter? history name f
  /-- The registry knows the names that stand for something. -/
  has_iff (name : String) : r.has name ↔ ∃ f, StandsFor origin.formatter? history name f
  /-- It lists them. -/
  mem_list_iff (name : String) :
    name ∈ r.list ↔ ∃ f, StandsFor origin.formatter? history name f
  /-- It lists them in order, each once. -/
  ascending : r.list.Pairwise (· < ·)
  /-- What is written is what the formatter writes; without one the name is not found. -/
  serialize_iff (name : String) (p : Program) (answer : Except FormatError String) :
    r.serialize name p = answer ↔
      (∃ f, StandsFor origin.formatter? history name f ∧ f.serialize p = answer)
        ∨ (¬ ∃ f, StandsFor origin.formatter? history name f)
          ∧ answer = .error (.formatNotFound name)
  /-- If no formatter answers that its own name is not found, the registry does so for the names
  that stand for nothing. -/
  serialize_ne_iff (name : String) (p : Program)
    (hnever : ∀ f, StandsFor origin.formatter? history name f →
      f.serialize p ≠ .error (.formatNotFound name)) :
    r.serialize name p ≠ .error (.formatNotFound name)
      ↔ ∃ f, StandsFor origin.formatter? history name f
  /-- The default format is the one that the registry was made with. -/
  defaultFormat_eq : r.defaultFormat = origin.defaultFormat
  /-- By default a program is written in this format. -/
  serializeDefault_eq (p : Program) : r.serializeDefault p = r.serialize r.defaultFormat p
  /-- It need not be known, then nothing is written. -/
  dangling (hfirst : origin.formatter? origin.defaultFormat = none)
    (hnone : ∀ f ∈ history, f.name ≠ origin.defaultFormat) (p : Program) :
    r.serializeDefault p = .error (.formatNotFound origin.defaultFormat)

section Account

variable {origin : Origin} {history : List Formatter}

/-- A name is refused by the registry, or by a formatter that it has. -/
theorem serialize_ne_iff {p : Program} (hnever : ∀ f, r.get? name = some f →
      f.serialize p ≠ .error (.formatNotFound name)) :
    r.serialize name p ≠ .error (.formatNotFound name) ↔ ∃ f, r.get? name = some f := by
  rw [Ne, serialize_eq_iff, not_or, not_and_or, not_not]
  constructor
  · rintro ⟨-, h | h⟩
    · exact h
    · exact absurd rfl h
  · rintro ⟨f, hf⟩
    refine ⟨?_, .inl ⟨f, hf⟩⟩
    rintro ⟨g, hg, hanswer⟩
    exact hnever g hg hanswer

/-- A name that was there neither at the beginning nor later stands for nothing. -/
theorem not_standsFor {first? : String → Option Formatter} (hfirst : first? name = none)
    (hnone : ∀ g ∈ history, g.name ≠ name) : ¬ ∃ f, StandsFor first? history name f := by
  rintro ⟨f, ⟨hhistory, hname, -⟩ | ⟨-, hsome⟩⟩
  · exact hnone f (by simp [hhistory]) hname
  · exact Option.some_ne_none f (hsome.symm.trans hfirst)

/-- **Lookups and the default format account for everything else.** -/
theorem account_of_get? (hget : ∀ name f,
      r.get? name = some f ↔ StandsFor origin.formatter? history name f)
    (hdefault : r.defaultFormat = origin.defaultFormat) : Account origin history r := by
  have hexists : ∀ name, (∃ f, r.get? name = some f)
      ↔ ∃ f, StandsFor origin.formatter? history name f :=
    fun name => exists_congr (hget name)
  have hisSome : ∀ name, (r.get? name).isSome
      ↔ ∃ f, StandsFor origin.formatter? history name f :=
    fun name => Option.isSome_iff_exists.trans (hexists name)
  constructor
  case get_iff => exact hget
  case isSome_get_iff => exact hisSome
  case has_iff => exact hisSome
  case mem_list_iff => exact fun name => mem_list_iff.trans (hexists name)
  case ascending => exact pairwise_list r
  case serialize_iff =>
    intro name p answer
    simp only [serialize_eq_iff, hget]
  case serialize_ne_iff =>
    intro name p hnever
    rw [← hexists]
    exact serialize_ne_iff fun f hf => hnever f ((hget name f).mp hf)
  case defaultFormat_eq => exact hdefault
  case serializeDefault_eq => exact fun p => rfl
  case dangling =>
    intro hfirst hnone p
    rw [serializeDefault, hdefault, serialize_eq_iff, hexists]
    exact .inr ⟨not_standsFor hfirst hnone, rfl⟩

end Account

/-- **The last formatter that was registered under a name** is the one that the name stands for,
however the registry was made and whatever was registered since. -/
theorem lastWriteWins (origin : Origin) (history : List Formatter) :
    Account origin history (origin.registry.registerAll history) := by
  refine account_of_get? (fun name f => ?_) ?_
  · rw [get?_registerAll, funext (get?_registry origin)]
  · rw [defaultFormat_registerAll, defaultFormat_registry]

/-- A new registry has a default format that it does not know yet. -/
example (p : Program) :
    empty.serializeDefault p = .error (.formatNotFound "treeviz")
      ∧ (empty.register (.drawing 5)).serializeDefault p = .ok (Drawing.draw 5 p.outline) :=
  ⟨rfl, rfl⟩

end FormatRegistry

end ImpFront
