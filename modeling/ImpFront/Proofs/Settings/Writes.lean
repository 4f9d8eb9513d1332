import ImpFront.Proofs.Settings.Names
import ImpFront.Settings.Loader
import Mathlib.Data.Fintype.Defs

/-!
# What a document writes

To put a document on top of a table of settings is to go through the tables in it, down to
the values that are no tables, and to put each of these where it belongs. So a document is
a list of **writes**: steps, and a value at the end of them (`Value.writes`,
`documentWrites`). An empty table is a write, too, as it makes a table of what is there.

What that does to one setting can be told from the steps, as long as nothing is written in
the way of it. A write may lead elsewhere, to another section or to another name in the
section; it may lead to the setting itself, with a value that the setting can be read from;
and it may make a table of the section (`Write.Fits`). Then the value of the setting is that
of the last write that leads to it, and if there is none the value from before
(`setting?_putDocument`).
-/

namespace ImpFront.Settings

/-! ## Tables -/

namespace Value

theorem find?_setEntry (key name : String) (v : Value) (es : List Entry) :
    ((setEntry key v es).find? (·.key = name)).map Entry.value
      = if key = name then some v else (es.find? (·.key = name)).map Entry.value := by
  induction es with
  | nil => by_cases h : key = name <;> simp [setEntry, h]
  | cons e es ih =>
    unfold setEntry
    by_cases he : e.key = key
    · by_cases h : key = name <;> simp [he, h]
    · rw [if_neg he]
      by_cases hname : e.key = name
      · have hne : key ≠ name := fun h => he (hname.trans h.symm)
        simp [hname, hne]
      · simpa [hname] using ih

/-- Another value for a name settles that name only. -/
theorem find?_set (target : Value) (key name : String) (v : Value) :
    (target.set key v).find? name = if key = name then some v else target.find? name :=
  find?_setEntry key name v target.entries

/-- **What comes of a value** that meets another one, or none, under the same name. -/
def upon (v : Value) (before : Option Value) : Value :=
  match v with
  | ⟨_, .table es⟩ => putAll (before.getD emptyTable) es
  | v => v

theorem put_eq (target : Value) (name : String) (v : Value) :
    target.put name v = target.set (Unicode.lowerCase name)
      (v.upon (target.find? (Unicode.lowerCase name))) := by
  obtain ⟨origin, content⟩ := v
  cases content <;> simp only [put, upon]

/-- **Putting a value under a name** settles that name only. -/
theorem find?_put (target : Value) (key name : String) (v : Value) :
    (target.put key v).find? name
      = if Unicode.lowerCase key = name then some (v.upon (target.find? name))
        else target.find? name := by
  rw [put_eq, find?_set]
  split_ifs with h
  · rw [h]
  · rfl

end Value

/-! ## Writes -/

/-- **A value that is put at the end of some steps.** -/
structure Write where
  /-- The steps. -/
  steps : List KeyStep
  /-- The value, which is no table with entries. -/
  value : Value

namespace Value

mutual
/-- **The writes of a value** that is put at the end of some steps: those of its entries if
it is a table that has some, and else the value itself. -/
def writes (steps : List KeyStep) : Value → List Write
  | ⟨origin, .table es⟩ =>
    if es.isEmpty then [⟨steps, ⟨origin, .table es⟩⟩] else writesOf steps es
  | v => [⟨steps, v⟩]

/-- The writes of the entries of a table. -/
def writesOf (steps : List KeyStep) : List Entry → List Write
  | [] => []
  | ⟨name, v⟩ :: es =>
    v.writes (steps ++ [.child (Unicode.lowerCase name)]) ++ writesOf steps es
end

mutual
/-- Writes go on from the steps that lead to the value. -/
theorem prefix_of_mem_writes {steps : List KeyStep} {v : Value} {w : Write}
    (h : w ∈ v.writes steps) : steps <+: w.steps := by
  obtain ⟨origin, content⟩ := v
  cases content with
  | table es =>
    unfold writes at h
    split at h
    · cases List.mem_singleton.mp h
      exact List.prefix_rfl
    · obtain ⟨name, hname⟩ := prefix_of_mem_writesOf h
      exact (List.prefix_append _ _).trans hname
  | nil | bool | int | float | text | list =>
    cases List.mem_singleton.mp h
    exact List.prefix_rfl

theorem prefix_of_mem_writesOf {steps : List KeyStep} {es : List Entry} {w : Write}
    (h : w ∈ writesOf steps es) : ∃ name, steps ++ [.child name] <+: w.steps := by
  match es with
  | [] => cases h
  | ⟨name, v⟩ :: es =>
    rcases List.mem_append.mp h with h | h
    · exact ⟨_, prefix_of_mem_writes h⟩
    · exact prefix_of_mem_writesOf h
end

mutual
/-- Every value writes something. -/
theorem writes_ne_nil (steps : List KeyStep) (v : Value) : v.writes steps ≠ [] := by
  obtain ⟨origin, content⟩ := v
  cases content with
  | table es =>
    unfold writes
    split
    · exact List.cons_ne_nil _ _
    · rename_i hes
      exact writesOf_ne_nil steps fun h => hes (by rw [h]; rfl)
  | nil | bool | int | float | text | list => exact List.cons_ne_nil _ _

theorem writesOf_ne_nil (steps : List KeyStep) {es : List Entry} (h : es ≠ []) :
    writesOf steps es ≠ [] := by
  match es with
  | [] => exact absurd rfl h
  | ⟨name, v⟩ :: es => exact List.append_ne_nil_of_left_ne_nil (writes_ne_nil _ v) _
end

mutual
/-- What is written is no table with entries. -/
theorem entries_of_mem_writes {steps : List KeyStep} {v : Value} {w : Write}
    (h : w ∈ v.writes steps) : w.value.entries = [] := by
  obtain ⟨origin, content⟩ := v
  cases content with
  | table es =>
    unfold writes at h
    split at h
    · rename_i hes
      cases List.mem_singleton.mp h
      exact List.isEmpty_iff.mp hes
    · exact entries_of_mem_writesOf h
  | nil | bool | int | float | text | list =>
    cases List.mem_singleton.mp h
    rfl

theorem entries_of_mem_writesOf {steps : List KeyStep} {es : List Entry} {w : Write}
    (h : w ∈ writesOf steps es) : w.value.entries = [] := by
  match es with
  | [] => cases h
  | ⟨name, v⟩ :: es =>
    rcases List.mem_append.mp h with h | h
    · exact entries_of_mem_writes h
    · exact entries_of_mem_writesOf h
end

end Value

/-! ## Settings and their places -/

/-- **The settings**, one by one. -/
inductive Setting
  | localInitializers
  | defaultFormat
  | labelWidth
  deriving DecidableEq

namespace Setting

instance : Fintype Setting :=
  ⟨⟨[localInitializers, defaultFormat, labelWidth], by decide⟩,
    fun k => by cases k <;> decide⟩

/-- The name of the section that the setting is in. -/
def sectionName : Setting → String
  | localInitializers => "building"
  | defaultFormat | labelWidth => "formats"

/-- The name of the setting in its section. -/
def name : Setting → String
  | localInitializers => "local_initializers"
  | defaultFormat => "default"
  | labelWidth => "treeviz_label_width"

/-- The path to the setting. -/
def path (k : Setting) : KeyPath := ⟨k.sectionName, [.child k.name]⟩

/-- The steps to the setting. -/
def steps (k : Setting) : List KeyStep := [.child k.sectionName, .child k.name]

/-- What the setting says. -/
def Result : Setting → Type
  | localInitializers => LocalInitializers
  | defaultFormat => String
  | labelWidth => Nat

/-- What a value of the setting says. -/
def read : (k : Setting) → Value → Except SettingsError k.Result
  | localInitializers, v => v.toPolicy
  | defaultFormat, v => v.toText "formats.default"
  | labelWidth, v => v.toUnsigned "formats.treeviz_label_width"

/-- **The values of the setting** are those that it can be read from. -/
def Accepts (k : Setting) (v : Value) : Prop := ∃ x, k.read v = .ok x

instance (k : Setting) (v : Value) : Decidable (k.Accepts v) :=
  match h : k.read v with
  | .ok x => .isTrue ⟨x, h⟩
  | .error _ => .isFalse (by rintro ⟨x, hx⟩; cases h.symm.trans hx)

/-- Whether steps lead to another section, or to another name in the section. -/
def leadsAway (k : Setting) : List KeyStep → Bool
  | .child a :: .child b :: _ => a ≠ k.sectionName || b ≠ k.name
  | .child a :: _ => a ≠ k.sectionName
  | _ => false

end Setting

/-- Whether a value is a table without entries. -/
def Value.isEmptyTable : Value → Bool
  | ⟨_, .table []⟩ => true
  | _ => false

/-- **The write is not in the way of the setting**: it leads away from it, it gives it one
of its values, or it just makes a table of its section. What is in the way is a value of the
wrong type, for the setting or for its section, which is a table; and what is further down
is in the way as well, as it makes a table of the setting. -/
def Write.Fits (k : Setting) (w : Write) : Prop :=
  k.leadsAway w.steps = true ∨ w.steps = k.steps ∧ k.Accepts w.value
    ∨ w.steps = [.child k.sectionName] ∧ w.value.isEmptyTable = true

instance (k : Setting) (w : Write) : Decidable (w.Fits k) :=
  inferInstanceAs (Decidable (_ ∨ _ ∧ _ ∨ _ ∧ _))

/-- **The value that is written last** for a setting. -/
def lastWrite? (k : Setting) (ws : List Write) : Option Value :=
  ws.reverse.findSome? fun w => if w.steps = k.steps then some w.value else none

/-- The value of a setting in the table of all settings. -/
def Value.setting? (root : Value) (k : Setting) : Option Value :=
  (root.find? k.sectionName).bind (·.find? k.name)

/-! ## What writes do to a setting -/

section Effect

variable {k : Setting} {ws : List Write} {steps : List KeyStep} {v target root : Value}
  {name : String}

theorem lastWrite?_append (k : Setting) (ws vs : List Write) :
    lastWrite? k (ws ++ vs) = (lastWrite? k vs).or (lastWrite? k ws) := by
  unfold lastWrite?
  rw [List.reverse_append, List.findSome?_append]

theorem lastWrite?_singleton (k : Setting) (v : Value) :
    lastWrite? k [⟨k.steps, v⟩] = some v := by
  simp [lastWrite?]

/-- Writes that all lead elsewhere set nothing. -/
theorem lastWrite?_eq_none (h : ∀ w ∈ ws, w.steps ≠ k.steps) : lastWrite? k ws = none := by
  rw [lastWrite?, List.findSome?_eq_none_iff]
  exact fun w hw => if_neg (h w (List.mem_reverse.mp hw))

theorem exists_of_lastWrite? (h : lastWrite? k ws = some v) :
    ∃ w ∈ ws, w.steps = k.steps ∧ w.value = v := by
  obtain ⟨w, hw, hv⟩ := List.exists_of_findSome?_eq_some h
  split_ifs at hv with hsteps
  exact ⟨w, List.mem_reverse.mp hw, hsteps, Option.some.inj hv⟩

theorem lastWrite?_flatMap {α : Type} (k : Setting) (l : List α) (f : α → List Write) :
    lastWrite? k (l.flatMap f) = l.reverse.findSome? fun a => lastWrite? k (f a) := by
  induction l with
  | nil => rfl
  | cons a l ih =>
    rw [List.flatMap_cons, lastWrite?_append, ih, List.reverse_cons, List.findSome?_append]
    simp

/-- Steps that do not begin the way to a setting do not lead to it. -/
theorem lastWrite?_writes_eq_none (h : ¬ steps <+: k.steps) :
    lastWrite? k (v.writes steps) = none :=
  lastWrite?_eq_none fun _ hw hsteps => h (hsteps ▸ Value.prefix_of_mem_writes hw)

/-- A setting is not read from a table without entries. -/
theorem Setting.not_accepts_emptyTable (k : Setting) (origin : Option String) :
    ¬ k.Accepts ⟨origin, .table []⟩ := by
  rintro ⟨x, hx⟩
  cases k <;> cases hx

/-- What is written at the end of the steps to a setting is one of its values. -/
theorem Write.Fits.accepts {w : Write} (h : w.Fits k) (hbegins : k.steps <+: w.steps) :
    w.steps = k.steps ∧ k.Accepts w.value := by
  obtain ⟨more, hmore⟩ := hbegins
  rcases h with h | h | ⟨h, -⟩
  · rw [← hmore] at h
    simp [Setting.leadsAway, Setting.steps] at h
  · exact h
  · rw [← hmore] at h
    cases h

/-- A value that fits at the end of the steps to a setting is no table. -/
theorem writes_eq_of_fits (h : ∀ w ∈ v.writes k.steps, w.Fits k) :
    v.writes k.steps = [⟨k.steps, v⟩] ∧ ∀ before, v.upon before = v := by
  obtain ⟨origin, content⟩ := v
  cases content with
  | table es =>
    exfalso
    obtain ⟨w, hw⟩ := List.exists_mem_of_ne_nil _
      (Value.writes_ne_nil k.steps ⟨origin, .table es⟩)
    obtain ⟨hsteps, haccepts⟩ := (h w hw).accepts (Value.prefix_of_mem_writes hw)
    unfold Value.writes at hw
    split at hw
    · rename_i hes
      cases List.isEmpty_iff.mp hes
      cases List.mem_singleton.mp hw
      exact k.not_accepts_emptyTable origin haccepts
    · obtain ⟨name, hname⟩ := Value.prefix_of_mem_writesOf hw
      have hlength := hname.length_le
      simp only [hsteps, Setting.steps, List.length_append, List.length_cons,
        List.length_nil] at hlength
      omega
  | nil | bool | int | float | text | list => exact ⟨rfl, fun _ => rfl⟩

/-- **Putting a value into the section** of a setting. -/
theorem find?_put_section (target : Value)
    (h : ∀ w ∈ v.writes [.child k.sectionName, .child (Unicode.lowerCase name)], w.Fits k) :
    (target.put name v).find? k.name
      = (lastWrite? k (v.writes [.child k.sectionName, .child (Unicode.lowerCase name)])).or
        (target.find? k.name) := by
  rw [Value.find?_put]
  split_ifs with hname
  · rw [hname] at h ⊢
    obtain ⟨hwrites, hupon⟩ := writes_eq_of_fits h
    show _ = (lastWrite? k (v.writes k.steps)).or _
    rw [hwrites, hupon, lastWrite?_singleton, Option.some_or]
  · rw [lastWrite?_writes_eq_none, Option.none_or]
    simpa [Setting.steps, List.cons_prefix_cons] using hname

/-- **Putting entries into the section**, one after the other. -/
theorem find?_putAll_section {es : List Entry}
    (h : ∀ w ∈ Value.writesOf [.child k.sectionName] es, w.Fits k) :
    (target.putAll es).find? k.name
      = (lastWrite? k (Value.writesOf [.child k.sectionName] es)).or (target.find? k.name) := by
  induction es generalizing target with
  | nil => rfl
  | cons e es ih =>
    obtain ⟨name, v⟩ := e
    obtain ⟨hv, hes⟩ := List.forall_mem_append.mp h
    show ((target.put name v).putAll es).find? k.name = _
    rw [ih hes, find?_put_section target hv, Value.writesOf, lastWrite?_append, Option.or_assoc]
    rfl

/-- A missing section holds as much as one without names. -/
theorem find?_getD_section (other : Value) (hother : other.find? k.name = none) :
    ((root.find? k.sectionName).getD other).find? k.name = root.setting? k := by
  unfold Value.setting?
  cases root.find? k.sectionName with
  | none => exact hother
  | some sec => rfl

/-- **Putting a table under the name of the section.** -/
theorem find?_upon_section (h : ∀ w ∈ v.writes [.child k.sectionName], w.Fits k) :
    (v.upon (root.find? k.sectionName)).find? k.name
      = (lastWrite? k (v.writes [.child k.sectionName])).or (root.setting? k) := by
  obtain ⟨origin, content⟩ := v
  cases content with
  | table es =>
    show (Value.putAll ((root.find? k.sectionName).getD .emptyTable) es).find? k.name = _
    cases es with
    | nil =>
      have hnone : lastWrite? k [⟨[.child k.sectionName], ⟨origin, .table []⟩⟩] = none :=
        lastWrite?_eq_none fun w hw => by cases List.mem_singleton.mp hw; simp [Setting.steps]
      show _ = (lastWrite? k [⟨[.child k.sectionName], ⟨origin, .table []⟩⟩]).or _
      rw [hnone, Option.none_or]
      exact find?_getD_section _ rfl
    | cons e es =>
      rw [find?_putAll_section h, find?_getD_section _ rfl]
      rfl
  | nil | bool | int | float | text | list =>
    -- A single value does not fit in the place of the section.
    rcases h _ (List.mem_singleton_self _) with h | ⟨h, -⟩ | ⟨-, h⟩
    · simp [Setting.leadsAway] at h
    · cases h
    · cases h

/-- **Putting a value into the table of all settings.** -/
theorem setting?_put (root : Value)
    (h : ∀ w ∈ v.writes [.child (Unicode.lowerCase name)], w.Fits k) :
    (root.put name v).setting? k
      = (lastWrite? k (v.writes [.child (Unicode.lowerCase name)])).or (root.setting? k) := by
  unfold Value.setting?
  rw [Value.find?_put]
  split_ifs with hname
  · rw [hname] at h ⊢
    exact find?_upon_section h
  · rw [lastWrite?_writes_eq_none, Option.none_or]
    simpa [Setting.steps, List.cons_prefix_cons] using hname

/-- **Putting a value at the end of steps in the section**; they begin with a name. -/
theorem find?_setAtSteps_section {s : KeyStep}
    (hlower : ∀ name, .child name ∈ s :: steps → Unicode.lowerCase name = name)
    (h : ∀ w ∈ v.writes (.child k.sectionName :: s :: steps), w.Fits k) :
    (target.setAtSteps (s :: steps) v).find? k.name
      = (lastWrite? k (v.writes (.child k.sectionName :: s :: steps))).or
        (target.find? k.name) := by
  -- Every write goes on from the steps, so any of them tells where these lead.
  obtain ⟨w, hw⟩ := List.exists_mem_of_ne_nil _ (Value.writes_ne_nil _ v)
  obtain ⟨more, hmore⟩ := Value.prefix_of_mem_writes hw
  have hfits := h w hw
  rw [Write.Fits, ← hmore] at hfits
  match s, steps with
  | .child b, [] =>
    have hb : Unicode.lowerCase b = b := hlower b (List.mem_cons_self ..)
    rw [← hb] at h
    have hput := find?_put_section target h
    rwa [hb] at hput
  | .child b, s :: steps =>
    have hb : b ≠ k.name := by simpa [Setting.leadsAway, Setting.steps] using hfits
    rw [lastWrite?_writes_eq_none (by simp [Setting.steps]), Option.none_or]
    exact (Value.find?_set ..).trans (if_neg hb)
  | .index i, steps => simp [Setting.leadsAway, Setting.steps] at hfits

/-- **Putting a value at the end of a path**, whose names are in lower case. -/
theorem setting?_setAt {path : KeyPath}
    (hlower : ∀ name, .child name ∈ .child path.name :: path.steps →
      Unicode.lowerCase name = name)
    (h : ∀ w ∈ v.writes (.child path.name :: path.steps), w.Fits k) :
    (root.setAt path v).setting? k
      = (lastWrite? k (v.writes (.child path.name :: path.steps))).or (root.setting? k) := by
  obtain ⟨a, steps⟩ := path
  cases steps with
  | nil =>
    have ha : Unicode.lowerCase a = a := hlower a (List.mem_cons_self ..)
    rw [← ha] at h
    have hput := setting?_put root h
    rwa [ha] at hput
  | cons s steps =>
    show ((root.set a (((root.find? a).getD .nil).setAtSteps (s :: steps) v)).find?
      k.sectionName).bind (·.find? k.name) = _
    rw [Value.find?_set]
    split_ifs with ha
    · subst ha
      rw [← find?_getD_section .nil rfl]
      exact find?_setAtSteps_section
        (fun name hname => hlower name (List.mem_cons_of_mem _ hname)) h
    · rw [lastWrite?_writes_eq_none (by simp [Setting.steps, ha]), Option.none_or]
      rfl

/-! ## Documents -/

/-- The steps that the text of a key leads along. -/
def keySteps (key : String) : List KeyStep :=
  match KeyPath.read key with
  | .ok path => .child path.name :: path.steps
  | .error _ => [.child (Unicode.lowerCase key)]

/-- **The writes of a document** from a file. -/
def documentWrites (origin : String) (entries : List Toml.Entry) : List Write :=
  entries.flatMap fun e => (Value.ofToml (some origin) e.value).writes (keySteps e.key)

theorem entries_of_mem_documentWrites {origin : String} {entries : List Toml.Entry} {w : Write}
    (h : w ∈ documentWrites origin entries) : w.value.entries = [] := by
  obtain ⟨e, -, hw⟩ := List.mem_flatMap.mp h
  exact Value.entries_of_mem_writes hw

theorem setting?_setUnder {key : String} (h : ∀ w ∈ v.writes (keySteps key), w.Fits k) :
    (root.setUnder key v).setting? k
      = (lastWrite? k (v.writes (keySteps key))).or (root.setting? k) := by
  unfold keySteps at h ⊢
  unfold Value.setUnder
  cases hread : KeyPath.read key with
  | error e =>
    rw [hread] at h
    exact setting?_put root h
  | ok path =>
    rw [hread] at h
    exact setting?_setAt (fun name => KeyPath.lowerCase_of_read hread) h

/-- **Putting a document on top of the settings** gives each setting the value that the
document writes last for it. -/
theorem setting?_putDocument {origin : String} {entries : List Toml.Entry} (root : Value)
    (h : ∀ w ∈ documentWrites origin entries, w.Fits k) :
    (putDocument origin root entries).setting? k
      = (lastWrite? k (documentWrites origin entries)).or (root.setting? k) := by
  induction entries generalizing root with
  | nil => rfl
  | cons e es ih =>
    obtain ⟨he, hes⟩ := List.forall_mem_append.mp h
    have hrest := ih (root.setUnder e.key (.ofToml (some origin) e.value)) hes
    rw [setting?_setUnder he, ← Option.or_assoc, ← lastWrite?_append] at hrest
    exact hrest

end Effect

end ImpFront.Settings
