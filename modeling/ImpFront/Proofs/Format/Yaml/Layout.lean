import ImpFront.Proofs.Format.Drawing
import ImpFront.Proofs.Format.Yaml.Words

/-!
# The layout of YAML texts

How the parts of a document hang together is told by its layout only: by the blanks and
dashes at the beginnings of lines. A record below a key is indented, a list is not, and
the lines of a record in a list begin like those of a list in a record. Still two wordy
documents with the same text are the same (`Yaml.eq_of_write`).

A text is taken apart from the outside in. Of the lines of several parts, the first is the
key of the first part, which begins with neither a blank nor a dash; those that follow
and do are its value, and with the next one that does not the next part begins. Of the lines
of several members, the first begins with a dash; those that follow and are indented
are of the same member, whatever they begin with behind that. So what is below a key or
behind a dash is known as a whole (`eq_of_fieldLines`, `eq_of_itemLines`), and whether it
is a list, a record or a scalar is seen in its first line.
-/

namespace ImpFront

open Lexer

namespace Yaml

variable {d d' : Document} {ds ds' : List Document} {fs fs' : List Field}

/-! ## Beginnings of lines -/

/-- **The line is indented.** -/
def Indented (line : String) : Prop := ∃ rest, line = "  " ++ rest

/-- **The line begins with a dash.** -/
def Dashed (line : String) : Prop := ∃ rest, line = "- " ++ rest

theorem not_indented_of_dashed {line : String} (h : Dashed line) : ¬ Indented line := by
  rintro ⟨rest, hindent⟩
  obtain ⟨rest', rfl⟩ := h
  simp [← String.toList_inj] at hindent

/-- A line that begins with a key is neither. -/
theorem not_indented_or_dashed_key {key : String} (h : IsWord key.toList) (rest : String) :
    ¬ (Indented (String.ofList (scalar key.toList) ++ rest)
      ∨ Dashed (String.ofList (scalar key.toList) ++ rest)) := by
  obtain ⟨c, cs, hkey, hc⟩ := exists_scalar_eq_cons h
  rw [hkey]
  rintro (⟨rest', heq⟩ | ⟨rest', heq⟩) <;>
  · simp only [← String.toList_inj, String.toList_append, String.toList_ofList,
      List.cons_append] at heq
    obtain ⟨rfl, -⟩ := List.cons.inj heq
    exact absurd hc (by decide)

theorem indent_injective : Function.Injective indent :=
  List.map_injective_iff.mpr fun _ _ h => (String.append_right_inj _).mp h

theorem indented_of_mem_indent {lines : List String} : ∀ line ∈ indent lines, Indented line := by
  intro line hline
  obtain ⟨rest, -, rfl⟩ := List.mem_map.mp hline
  exact ⟨rest, rfl⟩

/-! ## Lines behind a key and behind a dash -/

theorem lines_of_inline? {line : String} (h : inline? d = some line) : lines d = [line] := by
  match d with
  | .text _ | .int _ | .bool _ | .list [] | .record [] =>
    obtain rfl := Option.some.inj h
    rfl

/-- A document that does not fit on a line has members or parts. -/
theorem exists_of_inline?_eq_none (h : inline? d = none) :
    (∃ i is, d = .list (i :: is)) ∨ ∃ f fs, d = .record (f :: fs) := by
  match d with
  | .list (i :: is) => exact .inl ⟨i, is, rfl⟩
  | .record (f :: fs) => exact .inr ⟨f, fs, rfl⟩

/-- What stands behind a key, on its line. -/
def behindColon (d : Document) : String := (inline? d).elim ":" (": " ++ ·)

/-- The lines below a key. -/
def below (d : Document) : List String :=
  match inline? d, d with
  | some _, _ => []
  | none, .list _ => lines d
  | none, _ => indent (lines d)

theorem fieldLines_cons (key : String) (d : Document) (fs : List Field) :
    fieldLines (⟨key, d⟩ :: fs)
      = (String.ofList (scalar key.toList) ++ behindColon d) :: (below d ++ fieldLines fs) := by
  rw [fieldLines]
  unfold behindKey behindColon below
  cases hline : inline? d with
  | some line => simp [String.append_assoc]
  | none =>
    rcases exists_of_inline?_eq_none hline with ⟨i, is, rfl⟩ | ⟨f, fs, rfl⟩ <;> simp

theorem itemLines_cons {line : String} {more : List String} (h : lines d = line :: more)
    (ds : List Document) :
    itemLines (d :: ds) = ("- " ++ line) :: (indent more ++ itemLines ds) := by
  rw [itemLines, h]
  rfl

/-- A document has a first line. -/
theorem exists_lines_eq_cons : (d : Document) → ∃ line more, lines d = line :: more
  | .text _ | .int _ | .bool _ | .list [] | .record [] => ⟨_, _, rfl⟩
  | .list (i :: is) => by
    obtain ⟨line, more, h⟩ := exists_lines_eq_cons i
    exact ⟨_, _, itemLines_cons h is⟩
  | .record (⟨key, value⟩ :: fs) => ⟨_, _, fieldLines_cons key value fs⟩

/-- The lines of members are indented or begin with a dash. -/
theorem indented_or_dashed_of_mem_itemLines :
    ∀ line ∈ itemLines ds, Indented line ∨ Dashed line := by
  induction ds with
  | nil => simp [itemLines]
  | cons d ds ih =>
    obtain ⟨line, more, h⟩ := exists_lines_eq_cons d
    rw [itemLines_cons h, List.forall_mem_cons, List.forall_mem_append]
    exact ⟨.inr ⟨line, rfl⟩, fun l hl => .inl (indented_of_mem_indent l hl), ih⟩

/-- So are all lines below a key. -/
theorem indented_or_dashed_of_mem_below : ∀ line ∈ below d, Indented line ∨ Dashed line := by
  unfold below
  cases hline : inline? d with
  | some line => simp
  | none =>
    rcases exists_of_inline?_eq_none hline with ⟨i, is, rfl⟩ | ⟨f, fs, rfl⟩
    · exact indented_or_dashed_of_mem_itemLines
    · exact fun l hl => .inl (indented_of_mem_indent l hl)

/-- The first line of members begins with a dash. -/
theorem dashed_of_head?_itemLines : ∀ line ∈ (itemLines ds).head?, Dashed line := by
  cases ds with
  | nil => simp [itemLines]
  | cons d ds =>
    obtain ⟨line, more, h⟩ := exists_lines_eq_cons d
    rw [itemLines_cons h]
    rintro _ ⟨⟩
    exact ⟨line, rfl⟩

/-- The first line of parts begins with a key. -/
theorem not_indented_or_dashed_of_head?_fieldLines (h : ∀ f ∈ fs, IsWord f.key.toList) :
    ∀ line ∈ (fieldLines fs).head?, ¬ (Indented line ∨ Dashed line) := by
  match fs with
  | [] => simp [fieldLines]
  | ⟨key, value⟩ :: fs =>
    rw [fieldLines_cons]
    rintro _ ⟨⟩
    exact not_indented_or_dashed_key (h _ List.mem_cons_self) _

/-! ## From lines to documents -/

/-- **The lines of the document tell it** from all other wordy documents. -/
def ToldByLines (d : Document) : Prop := ∀ d' : Document, d'.Wordy → lines d = lines d' → d = d'

/-- **Members are told by their lines**, if each of them is. -/
theorem eq_of_itemLines (hds : ∀ d ∈ ds, ToldByLines d) (hds' : ∀ d ∈ ds', d.Wordy)
    (h : itemLines ds = itemLines ds') : ds = ds' := by
  induction ds generalizing ds' with
  | nil =>
    match ds' with
    | [] => rfl
    | d' :: ds' =>
      obtain ⟨line', more', hd'⟩ := exists_lines_eq_cons d'
      rw [itemLines_cons hd'] at h
      cases h
  | cons d ds ih =>
    obtain ⟨line, more, hd⟩ := exists_lines_eq_cons d
    match ds' with
    | [] =>
      rw [itemLines_cons hd] at h
      cases h
    | d' :: ds' =>
      obtain ⟨line', more', hd'⟩ := exists_lines_eq_cons d'
      rw [List.forall_mem_cons] at hds hds'
      rw [itemLines_cons hd, itemLines_cons hd'] at h
      obtain ⟨hline, hmore⟩ := List.cons.inj h
      -- The lines that are indented are of the first member.
      obtain ⟨hindent, hrest⟩ := append_inj_of_forall indented_of_mem_indent
        indented_of_mem_indent
        (fun l hl => not_indented_of_dashed (dashed_of_head?_itemLines l hl))
        (fun l hl => not_indented_of_dashed (dashed_of_head?_itemLines l hl)) hmore
      have hlines : lines d = lines d' := by
        rw [hd, hd', (String.append_right_inj _).mp hline, indent_injective hindent]
      rw [hds.1 d' hds'.1 hlines, ih hds.2 hds'.2 hrest]

theorem inline?_eq_of_behindColon (h : behindColon d = behindColon d') :
    inline? d = inline? d' := by
  unfold behindColon at h
  rw [← String.toList_inj] at h
  cases hline : inline? d with
  | none =>
    cases hline' : inline? d' with
    | none => rfl
    | some line' => simp [hline, hline'] at h
  | some line =>
    cases hline' : inline? d' with
    | none => simp [hline, hline'] at h
    | some line' =>
      have hlines : line.toList = line'.toList := by simpa [hline, hline'] using h
      rw [String.toList_inj.mp hlines]

/-- **A line with a key tells the key** and what stands behind it. -/
theorem eq_of_key {key key' : String} (h : IsWord key.toList) (h' : IsWord key'.toList)
    (heq : String.ofList (scalar key.toList) ++ behindColon d
      = String.ofList (scalar key'.toList) ++ behindColon d') :
    key = key' ∧ inline? d = inline? d' := by
  have hcolon (d : Document) : ∀ c ∈ (behindColon d).toList.head?, ¬ c ≠ ':' := by
    unfold behindColon
    cases inline? d <;> simp
  rw [← String.toList_inj, String.toList_append, String.toList_append, String.toList_ofList,
    String.toList_ofList] at heq
  obtain ⟨hkey, hvalue⟩ := append_inj_of_forall (fun c hc => (compact_scalar h c hc).2.1)
    (fun c hc => (compact_scalar h' c hc).2.1) (hcolon d) (hcolon d') heq
  constructor
  · have hread := readInline_scalar h
    rw [hkey, readInline_scalar h'] at hread
    exact (Document.text.inj hread).symm
  · exact inline?_eq_of_behindColon (String.toList_inj.mp hvalue)

/-- **A value is told by what is below its key**, if it does not fit on the line. -/
theorem eq_of_below (hd : ToldByLines d) (hd' : d'.Wordy) (hline : inline? d = none)
    (hline' : inline? d' = none) (h : below d = below d') : d = d' := by
  -- A list begins with a dash, a record is indented.
  have hdiffer {i : Document} {is : List Document} {lines : List String} :
      itemLines (i :: is) ≠ indent lines := by
    intro heq
    obtain ⟨line, more, hi⟩ := exists_lines_eq_cons i
    rw [itemLines_cons hi] at heq
    have hindented : Indented ("- " ++ line) :=
      indented_of_mem_indent _ (heq ▸ List.mem_cons_self)
    exact not_indented_of_dashed ⟨line, rfl⟩ hindented
  rcases exists_of_inline?_eq_none hline with ⟨i, is, rfl⟩ | ⟨f, fs, rfl⟩ <;>
    rcases exists_of_inline?_eq_none hline' with ⟨i', is', rfl⟩ | ⟨f', fs', rfl⟩
  · exact hd _ hd' h
  · exact absurd h hdiffer
  · exact absurd h.symm hdiffer
  · exact hd _ hd' (indent_injective h)

/-- **Parts are told by their lines**, if their values are. -/
theorem eq_of_fieldLines (hkeys : ∀ f ∈ fs, IsWord f.key.toList)
    (hvalues : ∀ f ∈ fs, f.value.Wordy ∧ ToldByLines f.value)
    (hkeys' : ∀ f ∈ fs', IsWord f.key.toList) (hvalues' : ∀ f ∈ fs', f.value.Wordy)
    (h : fieldLines fs = fieldLines fs') : fs = fs' := by
  induction fs generalizing fs' with
  | nil =>
    match fs' with
    | [] => rfl
    | ⟨key', value'⟩ :: fs' =>
      rw [fieldLines_cons] at h
      cases h
  | cons f fs ih =>
    obtain ⟨key, value⟩ := f
    match fs' with
    | [] =>
      rw [fieldLines_cons] at h
      cases h
    | ⟨key', value'⟩ :: fs' =>
      rw [List.forall_mem_cons] at hkeys hvalues hkeys' hvalues'
      rw [fieldLines_cons, fieldLines_cons] at h
      obtain ⟨hkey, hmore⟩ := List.cons.inj h
      obtain ⟨rfl, hinline⟩ := eq_of_key hkeys.1 hkeys'.1 hkey
      obtain ⟨hbelow, hrest⟩ := append_inj_of_forall indented_or_dashed_of_mem_below
        indented_or_dashed_of_mem_below
        (not_indented_or_dashed_of_head?_fieldLines hkeys.2)
        (not_indented_or_dashed_of_head?_fieldLines hkeys'.2) hmore
      have hvalue : value = value' := by
        cases hline : inline? value with
        | some line => exact eq_of_inline? hvalues.1.1 hvalues'.1 hline (hinline ▸ hline)
        | none => exact eq_of_below hvalues.1.2 hvalues'.1 hline (hinline ▸ hline) hbelow
      rw [hvalue, ih hkeys.2 hvalues.2 hkeys'.2 hvalues'.2 hrest]

/-- Members do not look like parts. -/
theorem itemLines_ne_fieldLines (d : Document) (ds : List Document)
    (h : ∀ f ∈ fs, IsWord f.key.toList) : itemLines (d :: ds) ≠ fieldLines fs := by
  intro heq
  obtain ⟨line, more, hd⟩ := exists_lines_eq_cons d
  have hhead := not_indented_or_dashed_of_head?_fieldLines h
  rw [← heq, itemLines_cons hd] at hhead
  exact hhead _ rfl (.inr ⟨line, rfl⟩)

/-- A document with members or parts has a blank or a colon in its first line. -/
theorem not_compact_of_inline?_eq_none (h : inline? d = none) {line : String}
    (hlines : lines d = [line]) : ¬ Compact line.toList := by
  intro hcompact
  rcases exists_of_inline?_eq_none h with ⟨i, is, rfl⟩ | ⟨⟨key, value⟩, fs, rfl⟩
  · obtain ⟨line', more, hi⟩ := exists_lines_eq_cons i
    rw [lines, itemLines_cons hi] at hlines
    obtain ⟨rfl, -⟩ := List.cons.inj hlines
    exact (hcompact ' ' (by simp)).1 rfl
  · rw [lines, fieldLines_cons] at hlines
    obtain ⟨rfl, -⟩ := List.cons.inj hlines
    refine (hcompact ':' ?_).2.1 rfl
    unfold behindColon
    cases inline? value <;> simp

/-- A document that fits on a line is told by it. -/
theorem toldByLines_of_inline? (hd : d.Wordy) {line : String} (hline : inline? d = some line) :
    ToldByLines d := by
  intro d' hd' heq
  rw [lines_of_inline? hline] at heq
  cases hline' : inline? d' with
  | some line' =>
    rw [lines_of_inline? hline'] at heq
    obtain rfl := List.singleton_inj.mp heq
    exact eq_of_inline? hd hd' hline hline'
  | none =>
    exact absurd (inline?_spec hd hline).2 (not_compact_of_inline?_eq_none hline' heq.symm)

/-- A document that does not fit on a line has only others of this sort to be told from. -/
theorem toldByLines_of_block (hd : d.Wordy)
    (h : ∀ d', d'.Wordy → inline? d' = none → lines d = lines d' → d = d') : ToldByLines d := by
  intro d' hd' heq
  cases hline' : inline? d' with
  | some line' => exact (toldByLines_of_inline? hd' hline' d hd heq.symm).symm
  | none => exact h d' hd' hline' heq

/-- **A wordy document is told by its lines.** -/
theorem toldByLines (h : d.Wordy) : ToldByLines d := by
  induction h with
  | text h => exact toldByLines_of_inline? (.text h) rfl
  | int n => exact toldByLines_of_inline? (.int n) rfl
  | bool b => exact toldByLines_of_inline? (.bool b) rfl
  | @list items h ih =>
    cases items with
    | nil => exact toldByLines_of_inline? (.list h) rfl
    | cons i is =>
      refine toldByLines_of_block (.list h) fun d' hd' hline' heq => ?_
      rcases exists_of_inline?_eq_none hline' with ⟨i', is', rfl⟩ | ⟨f', fs', rfl⟩
      · cases hd' with
        | list h' => rw [eq_of_itemLines ih h' heq]
      · cases hd' with
        | record hkeys' _ => exact absurd heq (itemLines_ne_fieldLines i is hkeys')
  | @record fields hkeys hvalues ih =>
    cases fields with
    | nil => exact toldByLines_of_inline? (.record hkeys hvalues) rfl
    | cons f fs =>
      refine toldByLines_of_block (.record hkeys hvalues) fun d' hd' hline' heq => ?_
      rcases exists_of_inline?_eq_none hline' with ⟨i', is', rfl⟩ | ⟨f', fs', rfl⟩
      · exact absurd heq.symm (itemLines_ne_fieldLines i' is' hkeys)
      · cases hd' with
        | record hkeys' hvalues' =>
          have hboth := fun f hf => And.intro (hvalues f hf) (ih f hf)
          rw [eq_of_fieldLines hkeys hboth hkeys' hvalues' heq]

/-! ## From the text to lines -/

theorem oneLine_of_compact {line : String} (h : Compact line.toList) : OneLine line :=
  fun hmem => (h _ hmem).2.2 rfl

theorem oneLine_indent {lines : List String} (h : ∀ line ∈ lines, OneLine line) :
    ∀ line ∈ indent lines, OneLine line := by
  intro line hline
  obtain ⟨rest, hrest, rfl⟩ := List.mem_map.mp hline
  rw [oneLine_append]
  exact ⟨by simp [OneLine], h rest hrest⟩

theorem oneLine_itemLines (h : ∀ d ∈ ds, ∀ line ∈ lines d, OneLine line) :
    ∀ line ∈ itemLines ds, OneLine line := by
  induction ds with
  | nil => simp [itemLines]
  | cons d ds ih =>
    rw [List.forall_mem_cons] at h
    obtain ⟨line, more, hd⟩ := exists_lines_eq_cons d
    rw [hd, List.forall_mem_cons] at h
    rw [itemLines_cons hd, List.forall_mem_cons, List.forall_mem_append, oneLine_append]
    exact ⟨⟨by simp [OneLine], h.1.1⟩, oneLine_indent h.1.2, ih h.2⟩

theorem oneLine_fieldLines (hkeys : ∀ f ∈ fs, IsWord f.key.toList)
    (hvalues : ∀ f ∈ fs, f.value.Wordy ∧ ∀ line ∈ lines f.value, OneLine line) :
    ∀ line ∈ fieldLines fs, OneLine line := by
  induction fs with
  | nil => simp [fieldLines]
  | cons f fs ih =>
    obtain ⟨key, value⟩ := f
    rw [List.forall_mem_cons] at hkeys hvalues
    rw [fieldLines_cons, List.forall_mem_cons, List.forall_mem_append, oneLine_append]
    refine ⟨⟨oneLine_of_compact ?_, ?_⟩, ?_, ih hkeys.2 hvalues.2⟩
    · rw [String.toList_ofList]
      exact compact_scalar hkeys.1
    · unfold behindColon
      cases hline : inline? value with
      | none => simp [OneLine]
      | some line =>
        rw [Option.elim, oneLine_append]
        exact ⟨by simp [OneLine], oneLine_of_compact (inline?_spec hvalues.1.1 hline).2⟩
    · unfold below
      cases hline : inline? value with
      | some line => simp
      | none =>
        rcases exists_of_inline?_eq_none hline with ⟨i, is, rfl⟩ | ⟨f, fs, rfl⟩
        · exact hvalues.1.2
        · exact oneLine_indent hvalues.1.2

/-- **Lines are lines.** -/
theorem oneLine_of_mem_lines (h : d.Wordy) : ∀ line ∈ lines d, OneLine line := by
  have hinline {d : Document} (hd : d.Wordy) {text : String} (hline : inline? d = some text) :
      ∀ line ∈ lines d, OneLine line := by
    rw [lines_of_inline? hline, List.forall_mem_singleton]
    exact oneLine_of_compact (inline?_spec hd hline).2
  induction h with
  | text h => exact hinline (.text h) rfl
  | int n => exact hinline (.int n) rfl
  | bool b => exact hinline (.bool b) rfl
  | @list items h ih =>
    cases items with
    | nil => exact hinline (.list h) rfl
    | cons i is => exact oneLine_itemLines ih
  | @record fields hkeys hvalues ih =>
    cases fields with
    | nil => exact hinline (.record hkeys hvalues) rfl
    | cons f fs => exact oneLine_fieldLines hkeys fun f hf => ⟨hvalues f hf, ih f hf⟩

/-- **A wordy document is told by its text.** -/
theorem eq_of_write (h : d.Wordy) (h' : d'.Wordy) (heq : write d = write d') : d = d' :=
  toldByLines h d' h'
    (Drawing.eq_of_join (oneLine_of_mem_lines h) (oneLine_of_mem_lines h') heq)

end Yaml

end ImpFront
