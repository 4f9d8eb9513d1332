import ImpFront.Proofs.Settings.Writes

/-!
# Files under overrides

A loader is set up step by step, with files that have to be there, with files that need not
be there, and with overrides. It keeps the files apart from the overrides, so of the order
of the steps there remain the order of the files among themselves and that of the overrides
(`load_eq`).

Files that are well typed give each setting the value that they write last for it
(`foldlM_addTo`). The overrides are put upon these values, one for each setting at most:
that which was given last (`addOverrides_settings`, `setting?_foldl_setAt`).
-/

namespace ImpFront.Settings

/-! ## Steps -/

/-- **A step in setting up a loader.** -/
inductive Step
  /-- A file that has to be there. -/
  | file (path : String)
  /-- A file that need not be there. -/
  | optionalFile (path : String)
  /-- Another value for a key. -/
  | override (key : String) (v : Value)

namespace Step

/-- The file of a step that adds one. -/
def source? : Step → Option Source
  | file path => some ⟨path, true⟩
  | optionalFile path => some ⟨path, false⟩
  | override .. => none

/-- The key and the value of an override. -/
def override? : Step → Option (String × Value)
  | override key v => some (key, v)
  | _ => none

end Step

namespace Loader

/-- Takes a step. -/
def take (l : Loader) : Step → Except KeyFault Loader
  | .file path => .ok (l.withFile path)
  | .optionalFile path => .ok (l.withOptionalFile path)
  | .override key v => l.setOverride key v

/-- The loader that some steps set up. -/
def ofSteps (steps : List Step) : Except KeyFault Loader := steps.foldlM take new

/-- Overrides with more of them on top. -/
def addOverrides (os : List (KeyPath × Value)) (given : List (String × Value)) :
    Except KeyFault (List (KeyPath × Value)) :=
  given.foldlM (fun os o => return setOverrideAt (← KeyPath.read o.1) o.2 os) os

/-- **A step adds to the files or to the overrides**, and neither looks at the other. -/
theorem foldlM_take (l : Loader) (steps : List Step) :
    steps.foldlM take l = (addOverrides l.overrides (steps.filterMap Step.override?)).map
      fun os => ⟨l.sources ++ steps.filterMap Step.source?, os⟩ := by
  induction steps generalizing l with
  | nil =>
    rw [List.filterMap_nil, List.filterMap_nil, List.append_nil]
    rfl
  | cons step steps ih =>
    rw [List.foldlM_cons, List.filterMap_cons, List.filterMap_cons]
    cases step with
    | file path =>
      show steps.foldlM take (l.withFile path) = _
      rw [ih, withFile]
      simp only [List.append_assoc, List.singleton_append, Step.source?, Step.override?]
    | optionalFile path =>
      show steps.foldlM take (l.withOptionalFile path) = _
      rw [ih, withOptionalFile]
      simp only [List.append_assoc, List.singleton_append, Step.source?, Step.override?]
    | override key v =>
      show ((l.setOverride key v).bind fun l => steps.foldlM take l) = _
      simp only [setOverride, addOverrides, Step.source?, Step.override?, List.foldlM_cons]
      cases KeyPath.read key with
      | error e => rfl
      | ok path => exact ih { l with overrides := setOverrideAt path v l.overrides }

end Loader

/-- **Loads the settings**, after all steps. -/
def load (folder : Folder) (steps : List Step) : Except (KeyFault ⊕ SettingsError) Settings :=
  match Loader.ofSteps steps with
  | .error e => .error (.inl e)
  | .ok l => (l.build folder).mapError .inr

/-- **The files and the overrides are all that matters** of the steps, each in their order. -/
theorem load_eq (folder : Folder) (steps : List Step) :
    load folder steps = match Loader.addOverrides [] (steps.filterMap Step.override?) with
      | .error e => .error (.inl e)
      | .ok os => (Loader.build ⟨steps.filterMap Step.source?, os⟩ folder).mapError .inr := by
  unfold load Loader.ofSteps
  rw [Loader.foldlM_take, Loader.new]
  cases Loader.addOverrides [] (steps.filterMap Step.override?) <;> rfl

/-! ## Overrides -/

section Overrides

open Loader

variable {os : List (KeyPath × Value)} {path : KeyPath} {v : Value} {k : Setting} {root : Value}

/-- The override of a path. -/
def overrideAt? (path : KeyPath) (os : List (KeyPath × Value)) : Option Value :=
  (os.find? (·.1 = path)).map Prod.snd

theorem overrideAt?_cons (path : KeyPath) (o : KeyPath × Value) (os : List (KeyPath × Value)) :
    overrideAt? path (o :: os) = if o.1 = path then some o.2 else overrideAt? path os := by
  by_cases h : o.1 = path <;> simp [overrideAt?, h]

/-- **Overrides of settings**, with values of theirs: at most one for each. -/
structure OverrideSettings (os : List (KeyPath × Value)) : Prop where
  accepted : ∀ o ∈ os, ∃ k : Setting, o.1 = k.path ∧ k.Accepts o.2
  once : os.Pairwise fun o o' => o.1 ≠ o'.1

theorem OverrideSettings.nil : OverrideSettings [] :=
  ⟨fun _ h => absurd h List.not_mem_nil, .nil⟩

theorem mem_setOverrideAt {o : KeyPath × Value} (h : o ∈ setOverrideAt path v os) :
    o = (path, v) ∨ o ∈ os := by
  induction os with
  | nil => exact .inl (List.mem_singleton.mp h)
  | cons o' os ih =>
    unfold setOverrideAt at h
    split at h
    · exact (List.mem_cons.mp h).imp_right (List.mem_cons_of_mem _)
    · rcases List.mem_cons.mp h with rfl | h
      · exact .inr (List.mem_cons_self ..)
      · exact (ih h).imp_right (List.mem_cons_of_mem _)

/-- **Another override** settles its own path only. -/
theorem overrideAt?_setOverrideAt (path path' : KeyPath) (v : Value)
    (os : List (KeyPath × Value)) :
    overrideAt? path' (setOverrideAt path v os)
      = if path = path' then some v else overrideAt? path' os := by
  induction os with
  | nil => exact overrideAt?_cons path' (path, v) []
  | cons o os ih =>
    unfold setOverrideAt
    by_cases ho : o.1 = path
    · rw [if_pos ho, overrideAt?_cons, overrideAt?_cons, ho]
      split_ifs <;> rfl
    · rw [if_neg ho, overrideAt?_cons, overrideAt?_cons, ih]
      split_ifs with hfirst hpath
      · exact absurd (hfirst.trans hpath.symm) ho
      all_goals rfl

/-- The paths of overrides stay different. -/
theorem pairwise_setOverrideAt (h : os.Pairwise fun o o' => o.1 ≠ o'.1) :
    (setOverrideAt path v os).Pairwise fun o o' => o.1 ≠ o'.1 := by
  induction os with
  | nil => exact List.pairwise_singleton _ _
  | cons o os ih =>
    obtain ⟨ho, hos⟩ := List.pairwise_cons.mp h
    unfold setOverrideAt
    split
    · rename_i hpath
      exact List.pairwise_cons.mpr ⟨fun o' ho' => hpath ▸ ho o' ho', hos⟩
    · rename_i hpath
      refine List.pairwise_cons.mpr ⟨fun o' ho' => ?_, ih hos⟩
      rcases mem_setOverrideAt ho' with rfl | ho'
      · exact hpath
      · exact ho o' ho'

theorem OverrideSettings.setOverrideAt (h : OverrideSettings os) (hv : k.Accepts v) :
    OverrideSettings (setOverrideAt k.path v os) where
  accepted := by
    intro o ho
    rcases mem_setOverrideAt ho with rfl | ho
    · exact ⟨k, rfl, hv⟩
    · exact h.accepted o ho
  once := pairwise_setOverrideAt h.once

/-- The value that is given last to a path. -/
def lastGiven? (path : KeyPath) (given : List (String × Value)) : Option Value :=
  given.reverse.findSome? fun o => if KeyPath.read o.1 = .ok path then some o.2 else none

/-- **The override of a path** is the one that was given last. -/
theorem addOverrides_settings {given : List (String × Value)} (hos : OverrideSettings os)
    (hgiven : ∀ o ∈ given, ∃ k : Setting, KeyPath.read o.1 = .ok k.path ∧ k.Accepts o.2) :
    ∃ os', addOverrides os given = .ok os' ∧ OverrideSettings os'
      ∧ ∀ path, overrideAt? path os' = (lastGiven? path given).or (overrideAt? path os) := by
  induction given generalizing os with
  | nil => exact ⟨os, rfl, hos, fun path => rfl⟩
  | cons o given ih =>
    obtain ⟨⟨k, hread, haccepts⟩, hgiven⟩ := List.forall_mem_cons.mp hgiven
    obtain ⟨os', hadd, hos', hat⟩ := ih (hos.setOverrideAt haccepts) hgiven
    refine ⟨os', ?_, hos', fun path => ?_⟩
    · unfold addOverrides at hadd ⊢
      rw [List.foldlM_cons, hread]
      exact hadd
    · rw [hat, overrideAt?_setOverrideAt, lastGiven?, lastGiven?, List.reverse_cons,
        List.findSome?_append, Option.or_assoc]
      congr 1
      by_cases hpath : k.path = path <;> simp [hread, hpath]

theorem Setting.lowerCase_name (k : Setting) : Unicode.lowerCase k.name = k.name := by
  cases k <;> decide +kernel

theorem Setting.eq_of_names {k k' : Setting} (hsection : k.sectionName = k'.sectionName)
    (hname : k.name = k'.name) : k = k' := by
  cases k <;> cases k' <;>
    first | rfl | exact absurd hsection (by decide) | exact absurd hname (by decide)

/-- **An override at the place of one setting** leaves all others alone. -/
theorem setting?_setAt_path (k k' : Setting) (v root : Value) :
    (root.setAt k'.path v).setting? k
      = if k' = k then some (v.upon (root.setting? k)) else root.setting? k := by
  show ((root.set k'.sectionName
    (((root.find? k'.sectionName).getD .nil).put k'.name v)).find? k.sectionName).bind
      (·.find? k.name) = _
  rw [Value.find?_set]
  by_cases hk : k' = k
  · subst hk
    rw [if_pos rfl, if_pos rfl, ← find?_getD_section .nil rfl]
    show Value.find? _ _ = _
    rw [Value.find?_put, if_pos k'.lowerCase_name]
  · rw [if_neg hk]
    split_ifs with hsection
    · have hname : Unicode.lowerCase k'.name ≠ k.name := by
        rw [k'.lowerCase_name]
        exact fun hname => hk (Setting.eq_of_names hsection hname)
      show Value.find? _ _ = _
      rw [Value.find?_put, if_neg hname, hsection, find?_getD_section _ rfl]
    · rfl

theorem Setting.path_injective {k k' : Setting} (h : k.path = k'.path) : k = k' := by
  simp only [Setting.path, KeyPath.mk.injEq, List.cons.injEq, KeyStep.child.injEq, and_true] at h
  exact Setting.eq_of_names h.1 h.2

/-- **Overrides at the end** put their values over what is there. -/
theorem setting?_foldl_setAt (hos : OverrideSettings os) :
    (os.foldl (fun root o => root.setAt o.1 o.2) root).setting? k
      = ((overrideAt? k.path os).map (·.upon (root.setting? k))).or (root.setting? k) := by
  obtain ⟨haccepted, honce⟩ := hos
  induction os generalizing root with
  | nil => rfl
  | cons o os ih =>
    obtain ⟨⟨k', hpath, -⟩, haccepted⟩ := List.forall_mem_cons.mp haccepted
    obtain ⟨hfirst, honce⟩ := List.pairwise_cons.mp honce
    rw [List.foldl_cons, ih haccepted honce, hpath, setting?_setAt_path, overrideAt?_cons, hpath]
    by_cases hk : k' = k
    · -- The override of the setting is this one, and there is no other.
      subst hk
      have hnone : overrideAt? k'.path os = none := by
        rw [overrideAt?, Option.map_eq_none_iff, List.find?_eq_none]
        exact fun o' ho' => by simpa using fun h => hfirst o' ho' (hpath.trans h.symm)
      rw [if_pos rfl, if_pos rfl, hnone]
      rfl
    · rw [if_neg hk, if_neg fun h => hk (Setting.path_injective h)]

end Overrides

/-! ## Files -/

/-- The writes of the document at a path of a folder. -/
def Folder.writes (folder : Folder) (path : String) : List Write :=
  ((folder.find? path).bind fun file =>
    (Toml.parse file.2.toList).map (documentWrites file.1)).getD []

/-- **A file is well typed**, if there is one: it is a document, and nothing that it writes
is in the way of a setting. -/
def Folder.WellTyped (folder : Folder) (path : String) : Prop :=
  ∀ file ∈ folder.find? path, ∃ entries ∈ Toml.parse file.2.toList,
    ∀ w ∈ documentWrites file.1 entries, ∀ k, w.Fits k

instance (folder : Folder) (path : String) : Decidable (folder.WellTyped path) :=
  inferInstanceAs (Decidable (∀ file ∈ _, ∃ entries ∈ _, ∀ w ∈ documentWrites _ entries, _))

section Files

variable {folder : Folder} {sources : List Source} {root : Value}

theorem Folder.WellTyped.of_mem_writes {path : String} (h : folder.WellTyped path) {w : Write}
    (hw : w ∈ folder.writes path) : w.value.entries = [] ∧ ∀ k, w.Fits k := by
  unfold Folder.writes at hw
  cases hfind : folder.find? path with
  | none =>
    rw [hfind] at hw
    cases hw
  | some file =>
    obtain ⟨entries, hparse, hfits⟩ := h file hfind
    rw [Option.mem_def] at hparse
    rw [hfind, Option.bind_some, hparse] at hw
    exact ⟨entries_of_mem_documentWrites hw, hfits w hw⟩

/-- A file that has to be there and is not stops the loading, wherever it stands. -/
theorem foldlM_addTo_error (root : Value) {source : Source} (hsource : source ∈ sources)
    (hrequired : source.required = true) (hmissing : folder.find? source.path = none) :
    ∃ e, sources.foldlM (Source.addTo folder) root = .error e := by
  induction sources generalizing root with
  | nil => cases hsource
  | cons first sources ih =>
    rw [List.foldlM_cons]
    rcases List.mem_cons.mp hsource with rfl | hsource
    · refine ⟨.fileNotFound source.path, ?_⟩
      unfold Source.addTo
      rw [hmissing]
      simp only [hrequired]
      rfl
    · cases first.addTo folder root with
      | error e => exact ⟨e, rfl⟩
      | ok next => exact ih next hsource

/-- A file that need not be there and is not adds nothing. -/
theorem foldlM_addTo_optional {path : String} (hmissing : folder.find? path = none)
    (earlier later : List Source) :
    (earlier ++ ⟨path, false⟩ :: later).foldlM (Source.addTo folder) root
      = (earlier ++ later).foldlM (Source.addTo folder) root := by
  have hskip (root : Value) : Source.addTo folder root ⟨path, false⟩ = .ok root := by
    unfold Source.addTo
    rw [hmissing]
    rfl
  rw [List.foldlM_append, List.foldlM_append]
  congr 1
  funext root
  rw [List.foldlM_cons, hskip]
  rfl

/-- **A well-typed file** gives each setting the value that it writes last for it, unless
it is missing and has to be there. -/
theorem addTo_cases {source : Source} (hfile : folder.WellTyped source.path) (root : Value) :
    (source.required = true ∧ folder.find? source.path = none
      ∧ source.addTo folder root = .error (.fileNotFound source.path))
    ∨ ∃ root', source.addTo folder root = .ok root'
      ∧ ∀ k, root'.setting? k
        = (lastWrite? k (folder.writes source.path)).or (root.setting? k) := by
  unfold Source.addTo Folder.writes
  cases hfind : folder.find? source.path with
  | none =>
    cases hrequired : source.required with
    | true => exact .inl ⟨rfl, rfl, rfl⟩
    | false => exact .inr ⟨root, rfl, fun k => rfl⟩
  | some file =>
    obtain ⟨entries, hparse, hfits⟩ := hfile file hfind
    rw [Option.mem_def] at hparse
    refine .inr ⟨putDocument file.1 root entries, ?_, fun k => ?_⟩
    · dsimp only
      rw [hparse]
    · rw [setting?_putDocument _ fun w hw => hfits w hw k, Option.bind_some, hparse]
      rfl

/-- **Well-typed files, one on top of the other**, give each setting the value that they
write last for it, unless one of them is missing that has to be there. -/
theorem foldlM_addTo (root : Value)
    (hfiles : ∀ source ∈ sources, folder.WellTyped source.path) :
    (∃ source ∈ sources, source.required = true ∧ folder.find? source.path = none
      ∧ sources.foldlM (Source.addTo folder) root = .error (.fileNotFound source.path))
    ∨ ∃ root', sources.foldlM (Source.addTo folder) root = .ok root'
      ∧ ∀ k, root'.setting? k
        = (lastWrite? k (sources.flatMap fun source => folder.writes source.path)).or
          (root.setting? k) := by
  induction sources generalizing root with
  | nil => exact .inr ⟨root, rfl, fun k => rfl⟩
  | cons source sources ih =>
    obtain ⟨hfile, hfiles⟩ := List.forall_mem_cons.mp hfiles
    rw [List.foldlM_cons]
    rcases addTo_cases hfile root with ⟨hrequired, hmissing, hstep⟩ | ⟨next, hstep, hnext⟩
    · refine .inl ⟨source, List.mem_cons_self .., hrequired, hmissing, ?_⟩
      rw [hstep]
      rfl
    · rw [hstep]
      refine (ih next hfiles).imp ?_ ?_
      · rintro ⟨missing, hmem, h⟩
        exact ⟨missing, List.mem_cons_of_mem _ hmem, h⟩
      · rintro ⟨root', hload, hroot'⟩
        refine ⟨root', hload, fun k => ?_⟩
        rw [hroot', hnext, ← Option.or_assoc, List.flatMap_cons, lastWrite?_append]

end Files

end ImpFront.Settings
