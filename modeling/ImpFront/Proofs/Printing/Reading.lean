import ImpFront.Proofs.Printing.Program

/-!
# Displays that can be read again

Messages and listings quote parts of programs by their display, or a function by its label. These
texts are abridged – blocks are counted, bodies are left out – and yet some of them say all there
is to say: with a semicolon behind it the display of a variable is its declaration, the display of
a statement without blocks is that statement, and the label of a function wants only a body.

Read as sources they give back what they were made from, **and they do so for nothing else than
what a source can say** (`reads_back`). Printing such a part in full comes to the same text, but for
the empty body of a function, where the two differ in a blank.
-/

namespace ImpFront

open Lexer

namespace Statement

/-- **A statement without blocks.** -/
def isSimple : Statement → Bool
  | .assignment .. | .returnValue _ | .returnVoid | .breakLoop | .continueLoop => true
  | .ifElse .. | .whileLoop .. => false

/-- Only blocks are abridged. -/
theorem print_eq_display {s : Statement} (h : s.isSimple = true) : s.print = s.display := by
  cases s with
  | assignment | returnValue | returnVoid | breakLoop | continueLoop =>
    rw [print, display]
  | ifElse | whileLoop => simp [isSimple] at h

theorem reads_display {s : Statement} (hsimple : s.isSimple = true) :
    Statement.parse s.display = .ok s ↔ s.WellFormed := by
  refine ⟨wellFormed_of_parse, fun h => parse_of_scans h ?_⟩
  rw [← print_eq_display hsimple]
  exact (writes_print s h).scans_all

end Statement

/-- A program of one variable. -/
theorem Variable.wellFormed_program {v : Variable} :
    Program.WellFormed ⟨[v], []⟩ ↔ v.WellFormed :=
  ⟨fun h => h.globals v List.mem_cons_self,
    fun h => ⟨List.forall_mem_singleton.mpr h, List.forall_mem_nil _⟩⟩

theorem Variable.reads_display (v : Variable) :
    Program.parse .keep (v.display ++ ";") = .ok ⟨[v], []⟩ ↔ v.WellFormed := by
  refine ⟨fun h => wellFormed_program.mp (Program.wellFormed_of_parse h), fun h => ?_⟩
  have hprint : Program.print ⟨[v], []⟩ = v.display ++ ";" := String.intercalate_singleton
  rw [← hprint]
  exact Program.parse_print (wellFormed_program.mpr h)

/-- Two braces with nothing between them, not even a blank. -/
theorem Block.writes_empty : Writes ['\x7b', '\x7d'] Block.empty.items :=
  (writes_symbol .closeBrace (by decide)).symbol_append .openBrace (by decide)

/-- A program of one function. -/
theorem Function.wellFormed_program {f : Function} :
    Program.WellFormed ⟨[], [f]⟩ ↔ f.WellFormed :=
  ⟨fun h => h.functions f List.mem_cons_self,
    fun h => ⟨List.forall_mem_nil _, List.forall_mem_singleton.mpr h⟩⟩

theorem Function.reads_label_of_empty {f : Function} (h : f.WellFormed) (hbody : f.body = .empty) :
    Program.parse .keep (f.label ++ " \x7b\x7d") = .ok ⟨[], [f]⟩ := by
  refine Program.parse_of_scans (wellFormed_program.mpr h) ?_
  have hwrites : Writes (f.label.toList ++ ' ' :: ['\x7b', '\x7d']) f.items :=
    writes_body h (hbody ▸ Block.writes_empty)
  simpa [Program.items] using hwrites.scans_all

/-- The label does not know the body, and so it is not read as a function with another one. -/
theorem Function.reads_label (f : Function) :
    Program.parse .keep (f.label ++ " \x7b\x7d") = .ok ⟨[], [f]⟩
      ↔ f.WellFormed ∧ f.body = .empty := by
  refine ⟨fun h => ?_, fun h => reads_label_of_empty h.1 h.2⟩
  have hf : f.WellFormed := wellFormed_program.mp (Program.wellFormed_of_parse h)
  have hbare : Function.WellFormed { f with body := .empty } :=
    ⟨hf.name, hf.params, Block.wellFormed_empty⟩
  have hagain : Program.parse .keep (f.label ++ " \x7b\x7d")
      = .ok ⟨[], [{ f with body := .empty }]⟩ :=
    reads_label_of_empty hbare rfl
  rw [h, Except.ok.injEq, Program.mk.injEq, List.singleton_inj] at hagain
  exact ⟨hf, congrArg Function.body hagain.2⟩

/-- **Displays are read back**: that of a variable with a semicolon, that of a statement without
blocks, and the label of a function with an empty body – each if and only if a source can say what
it was made from. -/
theorem reads_back :
    (∀ v : Variable, Program.parse .keep (v.display ++ ";") = .ok ⟨[v], []⟩ ↔ v.WellFormed)
      ∧ (∀ s : Statement, s.isSimple = true →
        (Statement.parse s.display = .ok s ↔ s.WellFormed))
      ∧ ∀ f : Function, Program.parse .keep (f.label ++ " \x7b\x7d") = .ok ⟨[], [f]⟩
        ↔ f.WellFormed ∧ f.body = .empty :=
  ⟨Variable.reads_display, fun _ => Statement.reads_display, Function.reads_label⟩

/-- An initializer with an operation inside, a call that is assigned, and two parameters. -/
theorem reads_back_declarations :
    Program.parse .keep "int n = (a - 1) - 2;" = .ok ⟨[⟨"n", .int, some (.binary (.binary
        (.location "a") .sub (.intConstant 1)) .sub (.intConstant 2))⟩], []⟩
      ∧ Statement.parse "n = f(true, n);"
        = .ok (.assignment "n" (.call "f" [.boolConstant true, .location "n"]))
      ∧ Program.parse .keep "void f(bool a, int b) \x7b\x7d"
        = .ok ⟨[], [⟨.void, "f", [⟨"a", .bool, none⟩, ⟨"b", .int, none⟩], .empty⟩]⟩ := by
  obtain ⟨hvariables, hstatements, hfunctions⟩ := reads_back
  refine ⟨?declaration, ?assignment, ?signature⟩
  case declaration =>
    have hv : Variable.WellFormed ⟨"n", .int, some (.binary (.binary
        (.location "a") .sub (.intConstant 1)) .sub (.intConstant 2))⟩ := by
      refine ⟨by decide, ?_⟩
      rintro e ⟨⟩
      exact .binary _ (.binary _ (.location (by decide)) (.intConstant (by decide)))
        (.intConstant (by decide))
    rw [← (hvariables _).mpr hv]
    congr 1
  case assignment =>
    have hn : IsIdentifier "n" := by decide
    have hargs := List.forall_mem_cons.mpr
      ⟨Expression.WellFormed.boolConstant true, List.forall_mem_singleton.mpr (.location hn)⟩
    have hs : Statement.WellFormed
        (.assignment "n" (.call "f" [.boolConstant true, .location "n"])) := by
      rw [Statement.WellFormed]
      exact ⟨hn, .call (by decide) hargs⟩
    rw [← (hstatements _ rfl).mpr hs]
    congr 1
  case signature =>
    have hf : Function.WellFormed
        ⟨.void, "f", [⟨"a", .bool, none⟩, ⟨"b", .int, none⟩], .empty⟩ := by
      refine ⟨by decide, List.forall_mem_cons.mpr ⟨⟨by decide, rfl⟩, ?_⟩, Block.wellFormed_empty⟩
      exact List.forall_mem_singleton.mpr ⟨by decide, rfl⟩
    rw [← (hfunctions _).mpr ⟨hf, rfl⟩]
    congr 1

end ImpFront
