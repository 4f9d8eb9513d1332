import ImpFront.Proofs.Ast.Parts
import ImpFront.Proofs.Format.Drawing
import Mathlib.Data.List.Infix

/-!
# What a drawing looks like

A drawing has one line for each part of the program, in the order of a listing
(`drawing_eq_lines`). What stands in a line depends on the part and on its place only: a
cell for each part above, which is blank below the last of its siblings and has a rail in
it otherwise, a connector, what the part is, and its label.

The drawing is made differently: the cells are put together on the way down, and a part
does not know its place. So the lines are compared part by part. Below the first of several
parts, a line has one cell more than it would have among the parts of the first
(`lineOf_below`); behind the first, it is the line that it would be without the first
(`lineOf_behind`).
-/

namespace ImpFront

namespace Drawing

/-! ## Lines by place -/

/-- The places above a place: all its beginnings, but not the program itself. -/
def above (place : List Nat) : List (List Nat) := place.inits.tail.dropLast

/-- **What stands in a line below a part**: nothing if it is the last of its siblings. -/
def cellOf (ps : List Part) (place : List Nat) : String :=
  if Part.isLastAt ps place then "  " else "│ "

/-- **A label as it is shown**: all of it, or its first characters and dots. -/
def shown (width : Nat) (label : String) : String :=
  if label.toList.length ≤ width then label
  else String.ofList (label.toList.take width) ++ "..."

/-- **The line of a part**: cells, a connector, what the part is, and its label if it has
one. -/
def lineOf (width : Nat) (ps : List Part) : List Nat × Part → String
  | (place, p) =>
    String.join ((above place).map (cellOf ps))
      ++ ((if Part.isLastAt ps place then "└─" else "├─")
        ++ " " ++ (p.nodeType ++ if p.label = "" then "" else ": " ++ shown width p.label))

variable {width : Nat} {p q : Part} {ps : List Part} {place : List Nat}

/-! ### Captions -/

theorem shorten_eq_shown (width : Nat) (label : String) :
    shorten width label = shown width label := by
  unfold shorten shown
  by_cases hfits : label.toList.length ≤ width
  · rw [if_neg (Nat.not_lt.mpr hfits), if_pos hfits]
  · rw [if_pos (Nat.lt_of_not_le hfits), if_neg hfits]

/-- A label that is cut is not empty, not even where no characters may be shown. -/
theorem shown_eq_empty_iff (width : Nat) (label : String) :
    shown width label = "" ↔ label = "" := by
  unfold shown
  split
  · rfl
  · rename_i hcut
    constructor
    · intro h
      have := congrArg (fun s => s.toList.length) h
      simp at this
    · rintro rfl
      simp at hcut

theorem caption_eq_shown (width : Nat) (nodeType label : String) :
    caption width nodeType label
      = nodeType ++ if label = "" then "" else ": " ++ shown width label := by
  rw [caption_eq_labelled, shorten_eq_shown, labelled]
  by_cases hlabel : label = ""
  · rw [if_pos hlabel, if_pos ((shown_eq_empty_iff width label).mpr hlabel)]
  · rw [if_neg hlabel, if_neg (mt (shown_eq_empty_iff width label).mp hlabel)]

/-! ### What is above a place -/

theorem above_cons (i : Nat) (place : List Nat) :
    above (i :: place) = place.inits.dropLast.map (i :: ·) := by
  rw [above, List.inits_cons, List.tail_cons, List.map_dropLast]

theorem above_below (i : Nat) (h : place ≠ []) :
    above (i :: place) = [i] :: (above place).map (i :: ·) := by
  obtain ⟨j, place, rfl⟩ := List.exists_cons_of_ne_nil h
  have hinits : place.inits.map (j :: ·) ≠ [] :=
    mt List.map_eq_nil_iff.mp (List.ne_nil_of_mem ((List.mem_inits _ _).mpr List.nil_prefix))
  rw [above_cons, above_cons, List.inits_cons, List.dropLast_cons_of_ne_nil hinits, List.map_cons,
    List.map_dropLast, List.map_dropLast, List.map_dropLast]

theorem above_behind (place : List Nat) :
    above (Part.behind place) = (above place).map Part.behind := by
  cases place with
  | nil => rfl
  | cons i place =>
    rw [Part.behind, above_cons, above_cons, List.map_map]
    rfl

theorem ne_nil_of_mem_above {place' : List Nat} (h : place' ∈ above place) : place' ≠ [] := by
  cases place with
  | nil => cases h
  | cons i place =>
    rw [above_cons] at h
    obtain ⟨_, -, rfl⟩ := List.mem_map.mp h
    exact List.cons_ne_nil _ _

/-! ### Lines among others -/

theorem lineOf_zero : lineOf width (p :: ps) ([0], p)
    = connector ps.isEmpty ++ " " ++ caption width p.nodeType p.label := by
  rw [lineOf, Part.isLastAt_zero, caption_eq_shown, connector]
  exact String.empty_append

/-- Below the first part there is a cell more. -/
theorem lineOf_below (h : place ≠ []) : lineOf width (p :: ps) (0 :: place, q)
    = rail ps.isEmpty ++ lineOf width p.children (place, q) := by
  have hcells : (above place).map (fun place => cellOf (p :: ps) (0 :: place))
      = (above place).map (cellOf p.children) := by
    refine List.map_congr_left fun place' hplace' => ?_
    rw [cellOf, cellOf, Part.isLastAt_below (ne_nil_of_mem_above hplace')]
  have hfirst : cellOf (p :: ps) [0] = rail ps.isEmpty := by
    rw [cellOf, Part.isLastAt_zero, rail]
  have hcomp : cellOf (p :: ps) ∘ (0 :: ·) = fun place => cellOf (p :: ps) (0 :: place) := rfl
  rw [lineOf, lineOf, above_below 0 h, List.map_cons, List.map_map, Part.isLastAt_below h, hfirst,
    hcomp, hcells, String.join_cons, String.append_assoc]

/-- Behind the first part everything is as it would be without it. -/
theorem lineOf_behind : lineOf width (p :: ps) (Part.behind place, q)
    = lineOf width ps (place, q) := by
  have hcells : cellOf (p :: ps) ∘ Part.behind = cellOf ps := by
    funext place
    rw [Function.comp_apply, cellOf, cellOf, Part.isLastAt_behind]
  rw [lineOf, lineOf, above_behind, List.map_map, hcells, Part.isLastAt_behind]

/-! ## Drawings by place -/

/-- **The lines of a drawing** are those of a listing. -/
theorem exists_listing_lines (width : Nat) (ps : List Part) :
    ∃ nodes, Part.IsListing ps nodes ∧ ∀ rails : String,
      linesAll width rails (ps.map Part.outline)
        = nodes.map fun n => rails ++ lineOf width ps n := by
  induction ps using Part.forest_induction with
  | nil => exact ⟨[], Part.isListing_nil, fun _ => rfl⟩
  | cons p ps ihChildren ihOthers =>
    obtain ⟨nodes, hnodes, hbelow⟩ := ihChildren
    obtain ⟨others, hothers, hbehind⟩ := ihOthers
    refine ⟨Part.consListing p nodes others, hnodes.cons hothers, fun rails => ?_⟩
    have hfirst : rails ++ connector ps.isEmpty ++ " " ++ caption width p.nodeType p.label
        = rails ++ lineOf width (p :: ps) ([0], p) := by
      rw [lineOf_zero, String.append_assoc, String.append_assoc, String.append_assoc]
    have hlinesBelow : nodes.map (fun n => rails ++ rail ps.isEmpty ++ lineOf width p.children n)
        = nodes.map fun n => rails ++ lineOf width (p :: ps) (0 :: n.1, n.2) := by
      refine List.map_congr_left fun n hn => ?_
      rw [lineOf_below (hnodes.ne_nil hn), String.append_assoc]
    have hlinesBehind : others.map (fun n => rails ++ lineOf width ps n)
        = others.map fun n => rails ++ lineOf width (p :: ps) (Part.behind n.1, n.2) :=
      List.map_congr_left fun n _ => by rw [lineOf_behind]
    rw [List.map_cons, linesAll, p.outline_eq, lines, List.isEmpty_map, hbelow, hbehind, hfirst,
      hlinesBelow, hlinesBehind, Part.consListing, List.map_append, List.map_cons, List.map_map,
      List.map_map]
    rfl

/-- **The lines of a text**, if line breaks stand only at their ends. -/
theorem count_newline_join {texts : List String} (h : ∀ text ∈ texts, OneLine text) :
    (String.join (texts.map (· ++ "\n"))).toList.count '\n' = texts.length := by
  induction texts with
  | nil => rfl
  | cons text texts ih =>
    rw [List.forall_mem_cons] at h
    rw [List.map_cons, String.join_cons, String.toList_append, List.count_append, ih h.2,
      String.toList_append, List.count_append, List.count_eq_zero.mpr h.1, List.length_cons]
    have hbreak : "\n".toList.count '\n' = 1 := rfl
    rw [hbreak, Nat.zero_add, Nat.add_comm]

end Drawing

open Drawing

/-- **Drawings show the parts in order.** There is one listing of the parts of a program, and
the drawing has one line for each part in it, in this order. What stands in a line depends
on the part and on its place. If no name has a line break in it, there are as many lines as
parts. -/
theorem drawing_eq_lines (p : Program) (width : Nat) :
    ∃ nodes, (∀ others, Part.IsListing p.parts others ↔ others = nodes)
      ∧ (Formatter.drawing width).serialize p
          = .ok (String.join (nodes.map fun n => lineOf width p.parts n ++ "\n"))
      ∧ ((∀ name ∈ p.names, OneLine name) → ∀ text,
          (Formatter.drawing width).serialize p = .ok text →
            text.toList.count '\n' = nodes.length) := by
  obtain ⟨nodes, hnodes, hlines⟩ := exists_listing_lines width p.parts
  have hall : linesAll width "" p.outline.children = nodes.map (lineOf width p.parts) := by
    rw [p.children_outline, hlines]
    exact List.map_congr_left fun n _ => String.empty_append
  have hdrawing : (Formatter.drawing width).serialize p
      = .ok (String.join ((nodes.map (lineOf width p.parts)).map (· ++ "\n"))) := by
    rw [← hall]
    rfl
  have honly (others : List (List Nat × Part)) :
      Part.IsListing p.parts others ↔ others = nodes :=
    ⟨fun hothers => hothers.unique hnodes, fun h => h ▸ hnodes⟩
  refine ⟨nodes, honly, by rw [hdrawing, List.map_map]; rfl, fun hnames text htext => ?_⟩
  have honeLine : ∀ line ∈ nodes.map (lineOf width p.parts), OneLine line := by
    rw [← hall]
    exact oneLine_of_mem_linesAll (by simp [OneLine]) (p.fitsLine hnames)
  rw [hdrawing] at htext
  obtain rfl := Except.ok.inj htext
  rw [count_newline_join honeLine, List.length_map]

/-- Cells, connectors, and labels that are cut. -/
theorem drawing_eq_lines_function :
    let p : Program :=
      ⟨[⟨"n", .int, some (.intConstant 1)⟩], [⟨.void, "f", [], ⟨[], [.returnVoid]⟩⟩]⟩
    let text := "├─ Variable: int ...\n"
      ++ "│ └─ IntConstant: 1\n"
      ++ "└─ Function: void...\n"
      ++ "  └─ Block: 0 lo...\n"
      ++ "    └─ ReturnVoid\n"
    (∀ name ∈ p.names, OneLine name) ∧ (Formatter.drawing 4).serialize p = .ok text
      ∧ ∃ nodes, Part.IsListing p.parts nodes ∧ nodes.length = 5
        ∧ text = String.join (nodes.map fun n => lineOf 4 p.parts n ++ "\n") := by
  intro p text
  have hnames : ∀ name ∈ p.names, OneLine name := by
    show ∀ name ∈ ["n", "f"], '\n' ∉ name.toList
    decide
  have htext : (Formatter.drawing 4).serialize p = .ok text := by decide +kernel
  obtain ⟨nodes, honly, hlines, hcount⟩ := drawing_eq_lines p 4
  have hfive : text.toList.count '\n' = 5 := by decide +kernel
  exact ⟨hnames, htext, nodes, (honly nodes).mpr rfl, (hcount hnames text htext).symm.trans hfive,
    Except.ok.inj (htext.symm.trans hlines)⟩

end ImpFront
