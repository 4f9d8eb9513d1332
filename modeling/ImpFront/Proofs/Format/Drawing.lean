import ImpFront.Format.Registry
import ImpFront.Proofs.Ast.Names
import ImpFront.Proofs.Ast.Outline
import ImpFront.Proofs.Ast.WellFormed

/-!
# Drawings show everything

A drawing has a line for each node of an outline, and tells by rails and connectors
how the nodes hang together. If the labels are not cut, nothing is lost: two programs
with the same drawing are the same (`drawing_faithful`). So a difference between two
programs is one between their drawings.

The drawing is taken apart from the outside in. Line breaks part it into lines, since
no line has one in it. Of the lines of several nodes, the first is that of the first
node, behind a connector; those that follow with one rail more are of the nodes below
it, and with the next connector the next node begins (`plain_eq_of_lines`). In a line,
the first colon ends what the node is and begins its label.
-/

namespace ImpFront

open Outline

namespace Drawing

variable {width : Nat} {rails : String} {o o' : Outline} {os os' : List Outline}

/-! ## What stands behind a connector -/

/-- **The node can be drawn in full**: on a line, and with its whole label. -/
structure Fits (width : Nat) (o : Outline) : Prop where
  /-- What the node says fits on a line. -/
  line : o.FitsLine
  /-- The label is not cut. -/
  width : o.label.toList.length ≤ width

/-- A colon begins the label, if there is one. -/
def labelled (label : String) : String := if label = "" then "" else ": " ++ label

theorem caption_eq_labelled (width : Nat) (nodeType label : String) :
    caption width nodeType label = nodeType ++ labelled (shorten width label) := by
  unfold caption labelled
  by_cases hempty : shorten width label = ""
  · rw [if_pos hempty, if_pos hempty, String.append_empty]
  · rw [if_neg hempty, if_neg hempty, String.append_assoc]

theorem caption_eq (h : Fits width o) :
    caption width o.nodeType o.label = o.nodeType ++ labelled o.label := by
  have hwhole : shorten width o.label = o.label := by
    have := h.width
    unfold shorten
    rw [if_neg (by omega)]
  rw [caption_eq_labelled, hwhole]

theorem labelled_injective : Function.Injective labelled := by
  intro label label' h
  unfold labelled at h
  split at h <;> split at h
  · simp_all
  · simp [← String.toList_inj] at h
  · simp [← String.toList_inj] at h
  · exact (String.append_right_inj _).mp h

/-- **A caption tells what the node is, and its label.** -/
theorem eq_of_caption (h : Fits width o) (h' : Fits width o')
    (heq : caption width o.nodeType o.label = caption width o'.nodeType o'.label) :
    o.nodeType = o'.nodeType ∧ o.label = o'.label := by
  have hcolon (label : String) : ∀ c ∈ (labelled label).toList.head?, ¬ c ≠ ':' := by
    unfold labelled
    split <;> simp
  rw [caption_eq h, caption_eq h', ← String.toList_inj, String.toList_append,
    String.toList_append] at heq
  obtain ⟨htype, hlabel⟩ := append_inj_of_forall (fun c hc => (h.line.nodeType c hc).2)
    (fun c hc => (h'.line.nodeType c hc).2) (hcolon _) (hcolon _) heq
  exact ⟨String.toList_inj.mp htype, labelled_injective (String.toList_inj.mp hlabel)⟩

theorem oneLine_caption (h : o.FitsLine) (width : Nat) :
    OneLine (caption width o.nodeType o.label) := by
  have hshort : OneLine (shorten width o.label) := by
    unfold shorten
    split
    · rw [oneLine_append]
      exact ⟨fun hmem => h.label (List.mem_of_mem_take (by simpa using hmem)), by simp [OneLine]⟩
    · exact h.label
  rw [caption_eq_labelled, oneLine_append]
  refine ⟨fun hmem => (h.nodeType _ hmem).1 rfl, ?_⟩
  unfold labelled
  split
  · simp [OneLine]
  · rw [oneLine_append]
    exact ⟨by simp [OneLine], hshort⟩

/-! ## Rails and connectors -/

/-- **The line goes on with a rail**, behind the given ones. -/
def GoesDeeper (rails line : String) : Prop :=
  ∃ isLast rest, line = rails ++ rail isLast ++ rest

/-- The line of a node is not one of those below it. -/
theorem not_goesDeeper (isLast : Bool) (rest : String) :
    ¬ GoesDeeper rails (rails ++ connector isLast ++ rest) := by
  rintro ⟨isLast', rest', h⟩
  rw [String.append_assoc, String.append_assoc, String.append_right_inj, ← String.toList_inj] at h
  cases isLast <;> cases isLast' <;> simp [connector, rail] at h

theorem connector_inj {isLast isLast' : Bool} {rest rest' : String}
    (h : connector isLast ++ rest = connector isLast' ++ rest') :
    isLast = isLast' ∧ rest = rest' := by
  rw [← String.toList_inj] at h
  cases isLast <;> cases isLast' <;> simp_all [connector, ← String.toList_inj]

/-- All lines of nodes begin with the rails. -/
theorem exists_rest_of_mem {line : String} (h : line ∈ linesAll width rails os) :
    ∃ rest, line = rails ++ rest := by
  induction os using Outline.forest_induction generalizing rails with
  | nil => simp [linesAll] at h
  | cons nodeType label display children os ihChildren ihOthers =>
    rw [linesAll, lines, List.mem_append, List.mem_cons] at h
    rcases h with (rfl | h) | h
    · exact ⟨connector os.isEmpty ++ " " ++ caption width nodeType label,
        by simp only [String.append_assoc]⟩
    · obtain ⟨rest, rfl⟩ := ihChildren h
      exact ⟨_, String.append_assoc ..⟩
    · exact ihOthers h

/-! ## From lines to nodes -/

/-- **The lines tell the nodes**, if all of them are drawn in full. -/
theorem plain_eq_of_lines (hos : ∀ o ∈ preorderAll os, Fits width o)
    (hos' : ∀ o ∈ preorderAll os', Fits width o)
    (h : linesAll width rails os = linesAll width rails os') : os.map plain = os'.map plain := by
  induction os using Outline.forest_induction generalizing rails os' with
  | nil =>
    match os' with
    | [] => rfl
    | ⟨_, _, _, _⟩ :: _ => simp [linesAll, lines] at h
  | cons nodeType label display children os ihChildren ihOthers =>
    match os' with
    | [] => simp [linesAll, lines] at h
    | ⟨nodeType', label', display', children'⟩ :: os' =>
      rw [preorderAll, preorder, List.cons_append, List.forall_mem_cons, List.forall_mem_append]
        at hos hos'
      obtain ⟨hroot, hchildren, hothers⟩ := hos
      obtain ⟨hroot', hchildren', hothers'⟩ := hos'
      simp only [linesAll, lines, List.cons_append, List.cons.injEq, String.append_assoc,
        String.append_right_inj] at h
      obtain ⟨hline, hlines⟩ := h
      obtain ⟨hlast, hcaption⟩ := connector_inj hline
      obtain ⟨rfl, rfl⟩ := eq_of_caption hroot hroot' ((String.append_right_inj _).mp hcaption)
      -- The lines with one rail more are those of the nodes below.
      have hdeeper (isLast : Bool) (below : List Outline) :
          ∀ line ∈ linesAll width (rails ++ rail isLast) below, GoesDeeper rails line := by
        intro line hline
        obtain ⟨rest, rfl⟩ := exists_rest_of_mem hline
        exact ⟨isLast, rest, rfl⟩
      have hnext (others : List Outline) :
          ∀ line ∈ (linesAll width rails others).head?, ¬ GoesDeeper rails line := by
        cases others with
        | nil => simp [linesAll]
        | cons o others =>
          cases o
          rintro _ ⟨⟩
          rw [String.append_assoc]
          exact not_goesDeeper _ _
      rw [← hlast] at hlines
      obtain ⟨hbelow, hrest⟩ := append_inj_of_forall (hdeeper _ children) (hdeeper _ children')
        (hnext os) (hnext os') hlines
      rw [List.map_cons, List.map_cons, ihOthers hothers hothers' hrest,
        plain_inj.mpr ⟨rfl, rfl, ihChildren hchildren hchildren' hbelow⟩]

/-! ## From the text to lines -/

/-- Lines are drawn on lines, also where labels are cut. -/
theorem oneLine_of_mem_linesAll (hrails : OneLine rails) (hos : ∀ o ∈ preorderAll os, o.FitsLine) :
    ∀ line ∈ linesAll width rails os, OneLine line := by
  induction os using Outline.forest_induction generalizing rails with
  | nil => simp [linesAll]
  | cons nodeType label display children os ihChildren ihOthers =>
    rw [preorderAll, preorder, List.cons_append, List.forall_mem_cons, List.forall_mem_append]
      at hos
    obtain ⟨hroot, hchildren, hothers⟩ := hos
    rw [linesAll, lines, List.cons_append, List.forall_mem_cons, List.forall_mem_append]
    have hrail : OneLine (rails ++ rail os.isEmpty) := by
      rw [oneLine_append]
      exact ⟨hrails, by cases os.isEmpty <;> simp [OneLine, rail]⟩
    have hconnector : OneLine (connector os.isEmpty) := by
      cases os.isEmpty <;> simp [OneLine, connector]
    have hcaption := oneLine_caption hroot width
    refine ⟨?_, ihChildren hrail hchildren, ihOthers hrails hothers⟩
    rw [oneLine_append, oneLine_append, oneLine_append]
    exact ⟨⟨⟨hrails, hconnector⟩, by simp [OneLine]⟩, hcaption⟩

theorem oneLine_of_mem (hrails : OneLine rails) (hos : ∀ o ∈ preorderAll os, Fits width o) :
    ∀ line ∈ linesAll width rails os, OneLine line :=
  oneLine_of_mem_linesAll hrails fun o ho => (hos o ho).line

/-- **A text tells its lines.** -/
theorem eq_of_join {lines lines' : List String} (h : ∀ line ∈ lines, OneLine line)
    (h' : ∀ line ∈ lines', OneLine line)
    (heq : String.join (lines.map (· ++ "\n")) = String.join (lines'.map (· ++ "\n"))) :
    lines = lines' := by
  have htext (line : String) (lines : List String) :
      (String.join ((line :: lines).map (· ++ "\n"))).toList
        = line.toList ++ '\n' :: (String.join (lines.map (· ++ "\n"))).toList := by
    simp
  rw [← String.toList_inj] at heq
  induction lines generalizing lines' with
  | nil =>
    match lines' with
    | [] => rfl
    | line :: lines' =>
      rw [htext] at heq
      simp at heq
  | cons line lines ih =>
    match lines' with
    | [] =>
      rw [htext] at heq
      simp at heq
    | line' :: lines' =>
      rw [List.forall_mem_cons] at h h'
      rw [htext, htext] at heq
      obtain ⟨hline, hbreak⟩ := append_inj_of_forall (P := (· ≠ '\n'))
        (fun c hc => ne_of_mem_of_not_mem hc h.1) (fun c hc => ne_of_mem_of_not_mem hc h'.1)
        (by simp) (by simp) heq
      rw [String.toList_inj.mp hline, ih h.2 h'.2 (List.cons.inj hbreak).2]

end Drawing

open Drawing

/-- **Drawings determine programs.** If the names in two programs are words, and no label
in either drawing is cut, then the programs are the same if the drawings are. -/
theorem drawing_faithful {p q : Program} {width : Nat} (hp : ∀ n ∈ p.names, IsWord n.toList)
    (hq : ∀ n ∈ q.names, IsWord n.toList)
    (hpWidth : ∀ o ∈ preorderAll p.outline.children, o.label.toList.length ≤ width)
    (hqWidth : ∀ o ∈ preorderAll q.outline.children, o.label.toList.length ≤ width)
    (h : (Formatter.drawing width).serialize p = (Formatter.drawing width).serialize q) :
    p = q := by
  have hfits {p : Program} (hp : ∀ n ∈ p.names, IsWord n.toList)
      (hwidth : ∀ o ∈ preorderAll p.outline.children, o.label.toList.length ≤ width) :
      ∀ o ∈ preorderAll p.outline.children, Fits width o :=
    fun o ho => ⟨p.fitsLine (fun n hn => oneLine_of_isWord (hp n hn)) o ho, hwidth o ho⟩
  have hempty : OneLine "" := by simp [OneLine]
  have hlines := eq_of_join (oneLine_of_mem hempty (hfits hp hpWidth))
    (oneLine_of_mem hempty (hfits hq hqWidth)) (Except.ok.inj h)
  exact Program.eq_of_plain (plain_eq_of_lines (hfits hp hpWidth) (hfits hq hqWidth) hlines)

/-- A global, and a function with a parameter, a local and a condition with two empty
blocks. -/
theorem drawing_faithful_function :
    let program (thenBlock elseBlock : Block) : Program :=
      ⟨[⟨"n", .int, none⟩], [⟨.void, "f", [⟨"a", .bool, none⟩],
        ⟨[⟨"b", .int, some (.intConstant (-1))⟩], [.ifElse (.location "a") thenBlock elseBlock]⟩⟩]⟩
    let p := program .empty ⟨[], []⟩
    let q := program ⟨[], []⟩ .empty
    (∀ n ∈ p.names, IsWord n.toList) ∧ (∀ n ∈ q.names, IsWord n.toList)
      ∧ (∀ o ∈ preorderAll p.outline.children, o.label.toList.length ≤ 22)
      ∧ (∀ o ∈ preorderAll q.outline.children, o.label.toList.length ≤ 22)
      ∧ (Formatter.drawing 22).serialize p = (Formatter.drawing 22).serialize q
      ∧ p = q := by
  intro program p q
  have hp : ∀ n ∈ p.names, IsWord n.toList := by decide
  have hq : ∀ n ∈ q.names, IsWord n.toList := by decide
  have hpWidth : ∀ o ∈ preorderAll p.outline.children, o.label.toList.length ≤ 22 := by
    decide +kernel
  have hqWidth : ∀ o ∈ preorderAll q.outline.children, o.label.toList.length ≤ 22 := by
    decide +kernel
  have h : (Formatter.drawing 22).serialize p = (Formatter.drawing 22).serialize q := rfl
  exact ⟨hp, hq, hpWidth, hqWidth, h, drawing_faithful hp hq hpWidth hqWidth h⟩

/-- Labels that are cut no longer tell programs apart. -/
example : (Formatter.drawing 4).serialize ⟨[⟨"a", .int, none⟩], []⟩
    = (Formatter.drawing 4).serialize ⟨[⟨"b", .int, none⟩], []⟩ := by
  decide +kernel

end ImpFront
