import ImpFront.Proofs.Settings.Layers

/-!
# Which source of settings decides

Each setting has a value that **governs** it: the last override of its key or, if there is
none, what the last file says that sets it, or else the value from the beginning
(`governing`). That is a question about one setting at a time, and if all steps are well
typed it is the whole answer: the setting is what that value says, unless a file is missing
that has to be there (`load_layered`).

Well typed or not, no steps lead to a label width of more than 64 bits
(`labelWidth_le_of_load`).
-/

namespace ImpFront.Settings

/-! ## Reading the settings -/

namespace Setting

/-- The value of the setting before any file. -/
def initial : Setting → Value
  | localInitializers => .ofText "keep"
  | defaultFormat => .ofText "treeviz"
  | labelWidth => .ofInt 30

/-- What some settings say on it. -/
def of (s : Settings) : (k : Setting) → k.Result
  | localInitializers => s.localInitializers
  | defaultFormat => s.defaultFormat
  | labelWidth => s.labelWidth

/-- The settings that say so. -/
def toSettings (x : (k : Setting) → k.Result) : Settings :=
  ⟨x localInitializers, x defaultFormat, x labelWidth⟩

theorem of_toSettings (x : (k : Setting) → k.Result) (k : Setting) :
    of (toSettings x) k = x k := by
  cases k <;> rfl

theorem setting?_defaults (k : Setting) : defaults.setting? k = some k.initial := by
  cases k <;> rfl

theorem accepts_initial (k : Setting) : k.Accepts k.initial := by
  cases k <;> decide +kernel

end Setting

section Reading

variable {k : Setting} {v root : Value} {before : Option Value}

/-- The name of a policy may be put into lower case. -/
theorem policyOfName_lowerCase {name : String} {policy : LocalInitializers}
    (h : policyOfName name = .ok policy) :
    policyOfName (Unicode.lowerCase name) = .ok policy := by
  have hkeep : Unicode.lowerCase "keep" = "keep" := by decide +kernel
  have hdiscard : Unicode.lowerCase "discard" = "discard" := by decide +kernel
  unfold policyOfName at h ⊢
  dsimp only at h ⊢
  split_ifs at h with hname hname
  · rwa [hname, hkeep, if_pos rfl]
  · rwa [hname, hdiscard, if_neg (by decide), if_pos rfl]

/-- **A value says the same** when it is put upon a single value. -/
theorem read_upon (hbefore : ∀ w ∈ before, w.entries = []) {x : k.Result}
    (h : k.read v = .ok x) : k.read (v.upon before) = .ok x := by
  obtain ⟨origin, content⟩ := v
  cases content with
  | table es =>
    -- A table is the value of a policy only, and then it has one entry.
    cases k with
    | defaultFormat | labelWidth => cases h
    | localInitializers =>
      match es with
      | [] | _ :: _ :: _ => cases h
      | [⟨name, v⟩] =>
        have hentries : (before.getD .emptyTable).entries = [] := by
          cases before with
          | none => rfl
          | some w => exact hbefore w rfl
        show ((before.getD .emptyTable).put name v).toPolicy = .ok x
        rw [Value.put_eq, Value.set, hentries]
        have hname : policyOfName name = .ok x := h
        have hlower := policyOfName_lowerCase hname
        simp only [Value.setEntry, Value.toPolicy]
        exact hlower
  | nil | bool | int | float | text | list => exact h

/-- What has a value under a name is a table. -/
theorem exists_table_of_find? {name : String} (h : root.find? name = some v) :
    ∃ origin es, root = ⟨origin, .table es⟩ := by
  obtain ⟨origin, content⟩ := root
  cases content with
  | table es => exact ⟨origin, es, rfl⟩
  | nil | bool | int | float | text | list => cases h

theorem readBuilding_eq {policy : LocalInitializers}
    (h : root.find? "local_initializers" = some v) (hread : v.toPolicy = .ok policy) :
    readBuilding root = .ok policy := by
  obtain ⟨origin, es, rfl⟩ := exists_table_of_find? h
  unfold readBuilding field
  dsimp only
  rw [h]
  exact hread

theorem readFormats_eq {width : Value} {format : String} {n : Nat}
    (hv : root.find? "default" = some v) (hformat : v.toText "formats.default" = .ok format)
    (hwidth : root.find? "treeviz_label_width" = some width)
    (hn : width.toUnsigned "formats.treeviz_label_width" = .ok n) :
    readFormats root = .ok (format, n) := by
  obtain ⟨origin, es, rfl⟩ := exists_table_of_find? hv
  unfold readFormats
  dsimp only
  rw [hv, hwidth, Option.mapM_some, Option.mapM_some, hformat, hn]
  rfl

/-- **Reading the settings** is reading each of them. -/
theorem ofValue_eq {x : (k : Setting) → k.Result}
    (h : ∀ k, ∃ v, root.setting? k = some v ∧ k.read v = .ok (x k)) :
    ofValue root = .ok (Setting.toSettings x) := by
  obtain ⟨policy, hpolicy, hreadPolicy⟩ := h .localInitializers
  obtain ⟨format, hformat, hreadFormat⟩ := h .defaultFormat
  obtain ⟨width, hwidth, hreadWidth⟩ := h .labelWidth
  obtain ⟨building, hbuilding, hpolicy⟩ := Option.bind_eq_some_iff.mp hpolicy
  obtain ⟨formats, hformats, hformat⟩ := Option.bind_eq_some_iff.mp hformat
  obtain ⟨formats', hformats', hwidth⟩ := Option.bind_eq_some_iff.mp hwidth
  obtain rfl : formats = formats' := Option.some.inj (hformats.symm.trans hformats')
  dsimp only [Setting.sectionName] at hbuilding hformats
  have hfirst := readBuilding_eq hpolicy hreadPolicy
  have hrest := readFormats_eq hformat hreadFormat hwidth hreadWidth
  unfold ofValue field
  rw [hbuilding, hformats]
  dsimp only [bind, Except.bind]
  rw [hfirst]
  dsimp only
  rw [hrest]
  rfl

/-! ### Label widths -/

theorem toUnsigned_le_maxUnsigned (x : Double) : x.toUnsigned ≤ Double.maxUnsigned := by
  unfold Double.toUnsigned
  split
  · exact Nat.zero_le _
  · exact Nat.min_le_left _ _
  · split_ifs
    · exact Nat.zero_le _
    · exact Nat.le_refl _
  · exact Nat.zero_le _

theorem le_maxUnsigned_of_text {s : String} {n : Nat} (h : unsignedOfText? s = some n) :
    n ≤ Double.maxUnsigned := by
  unfold unsignedOfText? at h
  dsimp only at h
  split_ifs at h with htrue hfalse
  · obtain rfl := Option.some.inj h
    decide
  · obtain rfl := Option.some.inj h
    exact Nat.zero_le _
  · obtain ⟨m, -, hm⟩ := Option.bind_eq_some_iff.mp h
    split_ifs at hm with hle
    exact Option.some.inj hm ▸ hle

/-- **A natural number that is read fits 64 bits**, whatever it is read from. -/
theorem le_maxUnsigned_of_toUnsigned {key : String} {n : Nat} (h : v.toUnsigned key = .ok n) :
    n ≤ Double.maxUnsigned := by
  obtain ⟨origin, content⟩ := v
  cases content with
  | bool b =>
    obtain rfl : (if b then 1 else 0) = n := Except.ok.inj h
    cases b <;> decide
  | int m =>
    dsimp only [Value.toUnsigned] at h
    split_ifs at h with hneg hle
    obtain rfl := Except.ok.inj h
    omega
  | float x => exact Except.ok.inj h ▸ toUnsigned_le_maxUnsigned x
  | text s =>
    dsimp only [Value.toUnsigned] at h
    cases hread : unsignedOfText? s with
    | none => simp [hread] at h
    | some m =>
      simp only [hread] at h
      exact Except.ok.inj h ▸ le_maxUnsigned_of_text hread
  | nil | list | table => cases h

example : ((Value.ofInt 18446744073709551615).toUnsigned "width").toOption
      = some 18446744073709551615
    ∧ ((Value.ofInt 18446744073709551616).toUnsigned "width").toOption = none := by decide

theorem le_maxUnsigned_of_readFormats {format : String} {n : Nat}
    (h : readFormats v = .ok (format, n)) : n ≤ Double.maxUnsigned := by
  unfold readFormats at h
  split at h
  · obtain ⟨format?, -, h⟩ := bind_eq_ok_iff.mp h
    obtain ⟨width?, hwidth, h⟩ := bind_eq_ok_iff.mp h
    split at h
    · obtain ⟨-, rfl⟩ := Prod.mk.inj (Except.ok.inj h)
      obtain ⟨width, -, hn⟩ := mapM_eq_ok_some.mp hwidth
      exact le_maxUnsigned_of_toUnsigned hn
    · cases h
    · cases h
  · obtain ⟨format', -, h⟩ := bind_eq_ok_iff.mp h
    obtain ⟨n', hn, h⟩ := bind_eq_ok_iff.mp h
    obtain ⟨-, rfl⟩ := Prod.mk.inj (Except.ok.inj h)
    exact le_maxUnsigned_of_toUnsigned hn
  · obtain ⟨format', -, h⟩ := bind_eq_ok_iff.mp h
    cases h
  · cases h
  · cases h

theorem labelWidth_le_of_ofValue {s : Settings} (h : ofValue root = .ok s) :
    s.labelWidth ≤ Double.maxUnsigned := by
  obtain ⟨building, -, h⟩ := bind_eq_ok_iff.mp h
  obtain ⟨policy, -, h⟩ := bind_eq_ok_iff.mp h
  obtain ⟨formats, -, h⟩ := bind_eq_ok_iff.mp h
  obtain ⟨⟨format, width⟩, hformats, h⟩ := bind_eq_ok_iff.mp h
  obtain rfl := Except.ok.inj h
  exact le_maxUnsigned_of_readFormats hformats

/-- **The label width fits 64 bits** in all settings that are loaded, well typed or not. -/
theorem labelWidth_le_of_load {folder : Folder} {steps : List Step} {s : Settings}
    (h : load folder steps = .ok s) : s.labelWidth ≤ Double.maxUnsigned := by
  unfold load at h
  split at h
  · cases h
  · obtain ⟨root, -, hroot⟩ := bind_eq_ok_iff.mp (mapError_eq_ok.mp h)
    exact labelWidth_le_of_ofValue hroot

end Reading

/-! ## What governs a setting -/

namespace Step

/-- The value that an override gives to a setting. -/
def overrides? (k : Setting) : Step → Option Value
  | override key v => if KeyPath.read key = .ok k.path then some v else none
  | _ => none

/-- The value that a file gives to a setting, if the file is there and sets it. -/
def sets? (folder : Folder) (k : Setting) : Step → Option Value
  | file path | optionalFile path => lastWrite? k (folder.writes path)
  | override .. => none

/-- **A step is well typed** if its file is, or if it gives a setting one of its values. -/
def WellTyped (folder : Folder) : Step → Prop
  | file path | optionalFile path => folder.WellTyped path
  | override key v => ∃ k : Setting, KeyPath.read key = .ok k.path ∧ k.Accepts v

instance (folder : Folder) : (step : Step) → Decidable (step.WellTyped folder)
  | file path | optionalFile path => inferInstanceAs (Decidable (folder.WellTyped path))
  | override _ _ => inferInstanceAs (Decidable (∃ k : Setting, _ ∧ k.Accepts _))

end Step

/-- What the last file says that sets a setting, or else the value from the beginning. -/
def underOverrides (folder : Folder) (steps : List Step) (k : Setting) : Value :=
  (steps.reverse.findSome? (·.sets? folder k)).getD k.initial

/-- **The value that governs a setting**: that of the last override or, if there is none, of
the last file that sets it, or else the value from the beginning. -/
def governing (folder : Folder) (steps : List Step) (k : Setting) : Value :=
  (steps.reverse.findSome? (·.overrides? k)).getD (underOverrides folder steps k)

section Governing

variable {folder : Folder} {steps : List Step} {k : Setting} {ws : List Write} {v : Value}

theorem findSome?_filterMap {α β γ : Type} (f : α → Option β) (g : β → Option γ) (l : List α) :
    (l.filterMap f).findSome? g = l.findSome? fun a => (f a).bind g := by
  rw [← List.head?_filterMap, List.filterMap_filterMap, List.head?_filterMap]

theorem lastGiven?_filterMap (k : Setting) (steps : List Step) :
    lastGiven? k.path (steps.filterMap Step.override?)
      = steps.reverse.findSome? (·.overrides? k) := by
  rw [lastGiven?, ← List.filterMap_reverse, findSome?_filterMap]
  congr 1
  funext step
  cases step <;> rfl

theorem lastWrite?_filterMap (folder : Folder) (k : Setting) (steps : List Step) :
    lastWrite? k ((steps.filterMap Step.source?).flatMap fun source => folder.writes source.path)
      = steps.reverse.findSome? (·.sets? folder k) := by
  rw [lastWrite?_flatMap, ← List.filterMap_reverse, findSome?_filterMap]
  congr 1
  funext step
  cases step <;> rfl

/-- What a file sets is a single value of the setting. -/
theorem accepts_of_sets {step : Step} (hstep : step.WellTyped folder)
    (h : step.sets? folder k = some v) : k.Accepts v ∧ v.entries = [] := by
  have hfile (path : String) (hpath : folder.WellTyped path)
      (h : lastWrite? k (folder.writes path) = some v) : k.Accepts v ∧ v.entries = [] := by
    obtain ⟨w, hw, hsteps, rfl⟩ := exists_of_lastWrite? h
    obtain ⟨hentries, hfits⟩ := hpath.of_mem_writes hw
    exact ⟨((hfits k).accepts (hsteps ▸ List.prefix_rfl)).2, hentries⟩
  cases step with
  | file path | optionalFile path => exact hfile path hstep h
  | override => cases h

/-- What an override gives to a setting is a value of it. -/
theorem accepts_of_overrides {step : Step} (hstep : step.WellTyped folder)
    (h : step.overrides? k = some v) : k.Accepts v := by
  cases step with
  | file | optionalFile => cases h
  | override key v' =>
    dsimp only [Step.overrides?] at h
    split_ifs at h with hread
    obtain ⟨k', hread', haccepts⟩ := hstep
    obtain rfl : k' = k := Setting.path_injective (Except.ok.inj (hread'.symm.trans hread))
    exact Option.some.inj h ▸ haccepts

theorem accepts_underOverrides (hsteps : ∀ step ∈ steps, step.WellTyped folder) (k : Setting) :
    k.Accepts (underOverrides folder steps k) ∧ (underOverrides folder steps k).entries = [] := by
  unfold underOverrides
  cases hsets : steps.reverse.findSome? (·.sets? folder k) with
  | none => exact ⟨k.accepts_initial, by cases k <;> rfl⟩
  | some v =>
    obtain ⟨step, hstep, hv⟩ := List.exists_of_findSome?_eq_some hsets
    exact accepts_of_sets (hsteps step (List.mem_reverse.mp hstep)) hv

/-- **The value that governs a setting** says the same when it is put upon what the files
say. -/
theorem read_governing (hsteps : ∀ step ∈ steps, step.WellTyped folder) (k : Setting) :
    ∃ x, k.read (governing folder steps k) = .ok x
      ∧ ∃ v, ((steps.reverse.findSome? (·.overrides? k)).map
            (·.upon (some (underOverrides folder steps k)))).or
          (some (underOverrides folder steps k)) = some v ∧ k.read v = .ok x := by
  obtain ⟨⟨x, hx⟩, hentries⟩ := accepts_underOverrides hsteps k
  unfold governing
  cases hgiven : steps.reverse.findSome? (·.overrides? k) with
  | none => exact ⟨x, hx, _, rfl, hx⟩
  | some v =>
    obtain ⟨step, hstep, hv⟩ := List.exists_of_findSome?_eq_some hgiven
    obtain ⟨y, hy⟩ := accepts_of_overrides (hsteps step (List.mem_reverse.mp hstep)) hv
    refine ⟨y, hy, _, rfl, read_upon ?_ hy⟩
    rintro w ⟨⟩
    exact hentries

/-- The overrides of well-typed steps. -/
theorem addOverrides_steps (hsteps : ∀ step ∈ steps, step.WellTyped folder) :
    ∃ os, Loader.addOverrides [] (steps.filterMap Step.override?) = .ok os ∧ OverrideSettings os
      ∧ ∀ k : Setting, overrideAt? k.path os = steps.reverse.findSome? (·.overrides? k) := by
  have hgiven : ∀ o ∈ steps.filterMap Step.override?,
      ∃ k : Setting, KeyPath.read o.1 = .ok k.path ∧ k.Accepts o.2 := by
    intro o ho
    obtain ⟨step, hstep, hoverride⟩ := List.mem_filterMap.mp ho
    have htyped := hsteps step hstep
    cases step with
    | file | optionalFile => cases hoverride
    | override =>
      cases hoverride
      exact htyped
  obtain ⟨os, hadd, hos, hat⟩ := addOverrides_settings .nil hgiven
  refine ⟨os, hadd, hos, fun k => ?_⟩
  rw [hat, lastGiven?_filterMap]
  exact Option.or_none

/-- The files of well-typed steps. -/
theorem foldlM_addTo_steps (hsteps : ∀ step ∈ steps, step.WellTyped folder) :
    (∃ path, .file path ∈ steps ∧ folder.find? path = none
      ∧ (steps.filterMap Step.source?).foldlM (Source.addTo folder) defaults
        = .error (.fileNotFound path))
    ∨ ∃ root, (steps.filterMap Step.source?).foldlM (Source.addTo folder) defaults = .ok root
      ∧ ∀ k, root.setting? k = some (underOverrides folder steps k) := by
  have hfiles : ∀ source ∈ steps.filterMap Step.source?, folder.WellTyped source.path := by
    intro source hsource
    obtain ⟨step, hstep, hfile⟩ := List.mem_filterMap.mp hsource
    have htyped := hsteps step hstep
    cases step with
    | file | optionalFile =>
      cases hfile
      exact htyped
    | override => cases hfile
  refine (foldlM_addTo defaults hfiles).imp ?_ ?_
  · rintro ⟨source, hsource, hrequired, hmissing, hload⟩
    obtain ⟨step, hstep, hfile⟩ := List.mem_filterMap.mp hsource
    refine ⟨source.path, ?_, hmissing, hload⟩
    cases step with
    | file =>
      cases hfile
      exact hstep
    | optionalFile =>
      cases hfile
      cases hrequired
    | override => cases hfile
  · rintro ⟨root, hload, hroot⟩
    refine ⟨root, hload, fun k => ?_⟩
    rw [hroot, lastWrite?_filterMap, k.setting?_defaults, underOverrides, Option.or_some]

/-- **Well-typed steps** lead to the settings that are governed so, unless a file is missing
that has to be there. -/
theorem load_cases (hsteps : ∀ step ∈ steps, step.WellTyped folder) :
    (∃ path, .file path ∈ steps ∧ folder.find? path = none
      ∧ load folder steps = .error (.inr (.fileNotFound path)))
    ∨ ∃ s, load folder steps = .ok s
      ∧ ∀ k : Setting, k.read (governing folder steps k) = .ok (k.of s) := by
  obtain ⟨os, hadd, hos, hat⟩ := addOverrides_steps hsteps
  rw [load_eq, hadd]
  dsimp only [Loader.build, Loader.table]
  rcases foldlM_addTo_steps hsteps with ⟨path, hfile, hmissing, hload⟩ | ⟨root, hload, hroot⟩
  · rw [hload]
    exact .inl ⟨path, hfile, hmissing, rfl⟩
  · choose x hx hupon using read_governing hsteps
    have hread : ofValue (os.foldl (fun root o => root.setAt o.1 o.2) root)
        = .ok (Setting.toSettings x) := by
      refine ofValue_eq fun k => ?_
      rw [setting?_foldl_setAt hos, hroot, hat]
      exact hupon k
    rw [hload]
    refine .inr ⟨Setting.toSettings x, ?_, fun k => by rw [hx, Setting.of_toSettings]⟩
    show (ofValue _).mapError _ = _
    rw [hread]
    rfl

end Governing

/-! ## Layers -/

/-- **The layers of the settings**: files under overrides, each in their order. -/
structure Layered (folder : Folder) (steps : List Step) : Prop where
  /-- A file that has to be there and is not makes the loading fail, whatever the other
  steps are. -/
  fails (path : String) (hfile : .file path ∈ steps) (hmissing : folder.find? path = none) :
    ∃ e, load folder steps = .error e
  /-- If the steps are well typed, it fails with the path of such a file. -/
  names (hsteps : ∀ step ∈ steps, step.WellTyped folder) (path : String)
    (hfile : .file path ∈ steps) (hmissing : folder.find? path = none) :
    ∃ missing, .file missing ∈ steps ∧ folder.find? missing = none
      ∧ load folder steps = .error (.inr (.fileNotFound missing))
  /-- If the steps are well typed and no such file is missing, there are settings, and each
  of them is what the value says that governs it, whatever governs the others. -/
  settles (hsteps : ∀ step ∈ steps, step.WellTyped folder)
    (hpresent : ∀ path, .file path ∈ steps → folder.find? path ≠ none) :
    ∃ s, load folder steps = .ok s
      ∧ ∀ k : Setting, k.read (governing folder steps k) = .ok (k.of s)
  /-- A file that need not be there and is not makes no difference. -/
  skips (path : String) (earlier later : List Step)
    (hsteps : steps = earlier ++ .optionalFile path :: later)
    (hmissing : folder.find? path = none) :
    load folder steps = load folder (earlier ++ later)
  /-- Where the overrides stand among the files makes no difference. -/
  moves (others : List Step)
    (hfiles : others.filterMap Step.source? = steps.filterMap Step.source?)
    (hoverrides : others.filterMap Step.override? = steps.filterMap Step.override?) :
    load folder others = load folder steps

theorem load_fails {folder : Folder} {steps : List Step} {path : String}
    (hfile : .file path ∈ steps) (hmissing : folder.find? path = none) :
    ∃ e, load folder steps = .error e := by
  have hsource : ⟨path, true⟩ ∈ steps.filterMap Step.source? :=
    List.mem_filterMap.mpr ⟨_, hfile, rfl⟩
  obtain ⟨e, hload⟩ := foldlM_addTo_error defaults hsource rfl hmissing
  rw [load_eq]
  cases Loader.addOverrides [] (steps.filterMap Step.override?) with
  | error fault => exact ⟨.inl fault, rfl⟩
  | ok os =>
    dsimp only [Loader.build, Loader.table]
    rw [hload]
    exact ⟨.inr e, rfl⟩

theorem load_skips {folder : Folder} {path : String} (hmissing : folder.find? path = none)
    (earlier later : List Step) :
    load folder (earlier ++ .optionalFile path :: later) = load folder (earlier ++ later) := by
  have hfiles (os : List (KeyPath × Value)) :
      Loader.build ⟨(earlier ++ .optionalFile path :: later).filterMap Step.source?, os⟩ folder
        = Loader.build ⟨(earlier ++ later).filterMap Step.source?, os⟩ folder := by
    unfold Loader.build Loader.table
    dsimp only
    rw [List.filterMap_append, List.filterMap_append]
    congr 2
    exact foldlM_addTo_optional hmissing _ _
  have hoverrides : (earlier ++ .optionalFile path :: later).filterMap Step.override?
      = (earlier ++ later).filterMap Step.override? := by
    rw [List.filterMap_append, List.filterMap_append]
    rfl
  rw [load_eq, load_eq, hoverrides]
  simp only [hfiles]

/-- **Settings are loaded in layers.** -/
theorem load_layered (folder : Folder) (steps : List Step) : Layered folder steps := by
  constructor
  case fails => exact fun path hfile hmissing => load_fails hfile hmissing
  case names =>
    intro hsteps path hfile hmissing
    obtain ⟨e, he⟩ := load_fails hfile hmissing
    refine (load_cases hsteps).resolve_right ?_
    rintro ⟨s, hs, -⟩
    cases he.symm.trans hs
  case settles =>
    intro hsteps hpresent
    refine (load_cases hsteps).resolve_left ?_
    rintro ⟨path, hfile, hmissing, -⟩
    exact hpresent path hfile hmissing
  case skips =>
    rintro path earlier later rfl hmissing
    exact load_skips hmissing earlier later
  case moves =>
    intro others hfiles hoverrides
    rw [load_eq, load_eq, hfiles, hoverrides]

/-- A folder with two files of settings. -/
def twoFiles : Folder := ⟨[
  ("base.toml", "[Building]\nlocal_initializers = \"discard\"\n" ++
    "[formats]\ndefault = \"json\"\ntreeviz_label_width = 12\n"),
  ("site.toml", "formats.default = \"yaml\"\n")]⟩

/-- Both files, one that is missing, and before them all an override. -/
def overrideFirst : List Step := [
  .override "building.local_initializers" (.ofText "Keep"), .file "base.toml",
  .optionalFile "user.toml", .file "site"]

/-- Settings from an override, from the last file and from one below. -/
theorem load_layered_twoFiles :
    (∀ step ∈ overrideFirst, step.WellTyped twoFiles)
    ∧ (∀ path, .file path ∈ overrideFirst → twoFiles.find? path ≠ none)
    ∧ ∃ s, load twoFiles overrideFirst = .ok s
      ∧ s.localInitializers = .keep ∧ s.defaultFormat = "yaml" ∧ s.labelWidth = 12 := by
  have hsteps : ∀ step ∈ overrideFirst, step.WellTyped twoFiles := by decide +kernel
  have hpresent : ∀ path, .file path ∈ overrideFirst → twoFiles.find? path ≠ none := by
    intro path hpath
    simp only [overrideFirst, List.mem_cons, List.not_mem_nil, Step.file.injEq, reduceCtorEq,
      false_or, or_false] at hpath
    rcases hpath with rfl | rfl <;> decide +kernel
  obtain ⟨s, hload, hread⟩ := (load_layered twoFiles overrideFirst).settles hsteps hpresent
  have hpolicy : (governing twoFiles overrideFirst .localInitializers).toPolicy.toOption
      = some .keep := by decide +kernel
  have hformat : ((governing twoFiles overrideFirst .defaultFormat).toText
      "formats.default").toOption = some "yaml" := by decide +kernel
  have hwidth : ((governing twoFiles overrideFirst .labelWidth).toUnsigned
      "formats.treeviz_label_width").toOption = some 12 := by decide +kernel
  have hread₁ := congrArg Except.toOption (hread .localInitializers)
  have hread₂ := congrArg Except.toOption (hread .defaultFormat)
  have hread₃ := congrArg Except.toOption (hread .labelWidth)
  exact ⟨hsteps, hpresent, s, hload, Option.some.inj (hread₁.symm.trans hpolicy),
    Option.some.inj (hread₂.symm.trans hformat), Option.some.inj (hread₃.symm.trans hwidth)⟩

end ImpFront.Settings
