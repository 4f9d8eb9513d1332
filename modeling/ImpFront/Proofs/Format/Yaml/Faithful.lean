import ImpFront.Proofs.Format.Document
import ImpFront.Proofs.Format.Yaml.Layout

/-!
# YAML texts show everything

Two programs with the same YAML text are the same (`yaml_faithful`), if their names are
words. Names that YAML has another use for, such as `null`, `true`, `yes` and `n`, are no
exception: in a text they stand where only a text can stand, and are in quotes where a
reader would take them for something else.

The text tells the document, and the document the program. It remains to see that the
documents of such programs have words for all their texts and all the names of their parts.
-/

namespace ImpFront

open Document

/-! ## The documents of programs -/

/-- A part is wordy if its name and its value are. -/
def Field.Wordy (f : Field) : Prop := IsWord f.key.toList ∧ f.value.Wordy

theorem Field.Wordy.intro {key : String} {value : Document} (hkey : IsWord key.toList)
    (hvalue : value.Wordy) : (Field.mk key value).Wordy := ⟨hkey, hvalue⟩

/-- Parts that are wordy make a wordy record. -/
theorem Document.wordy_record {fields : List Field} (h : ∀ f ∈ fields, f.Wordy) :
    (Document.record fields).Wordy :=
  .record (fun f hf => (h f hf).1) fun f hf => (h f hf).2

/-- A list is wordy if its members are, each made of something whose names are words. -/
theorem Document.wordy_list_map {α : Type} {toDocument : α → Document} {names : α → List String}
    (h : ∀ a, (∀ n ∈ names a, IsWord n.toList) → (toDocument a).Wordy) {as : List α}
    (has : ∀ n ∈ as.flatMap names, IsWord n.toList) : (Document.list (as.map toDocument)).Wordy := by
  refine .list fun d hd => ?_
  obtain ⟨a, ha, rfl⟩ := List.mem_map.mp hd
  exact h a fun n hn => has n (List.mem_flatMap_of_mem ha hn)

theorem Document.wordy_tagged {kind : String} {fields : List Field} (hkind : IsWord kind.toList)
    (h : ∀ f ∈ fields, f.Wordy) : (Document.tagged kind fields).Wordy :=
  wordy_record (List.forall_mem_cons.mpr ⟨.intro (by decide) (.text hkind), h⟩)

theorem TypeName.wordy_toDocument (t : TypeName) : t.toDocument.Wordy := by
  cases t <;> exact .text (by decide)

theorem Operator.wordy_documentName (op : Operator) : (Document.text op.documentName).Wordy := by
  cases op <;> exact .text (by decide)

mutual
/-- **The document of an expression is wordy**, if its names are words. -/
theorem Expression.wordy_toDocument (e : Expression) (h : ∀ n ∈ e.names, IsWord n.toList) :
    e.toDocument.Wordy := by
  match e with
  | .binary left op right =>
    rw [Expression.names, List.forall_mem_append] at h
    rw [Expression.toDocument]
    refine wordy_tagged (by decide) ?_
    simp only [List.forall_mem_cons]
    exact ⟨.intro (by decide) (Expression.wordy_toDocument left h.1),
      .intro (by decide) op.wordy_documentName,
      .intro (by decide) (Expression.wordy_toDocument right h.2), by simp⟩
  | .intConstant value =>
    exact wordy_tagged (by decide) (List.forall_mem_singleton.mpr (.intro (by decide) (.int _)))
  | .boolConstant value =>
    exact wordy_tagged (by decide) (List.forall_mem_singleton.mpr (.intro (by decide) (.bool _)))
  | .location name =>
    rw [Expression.names, List.forall_mem_singleton] at h
    exact wordy_tagged (by decide) (List.forall_mem_singleton.mpr (.intro (by decide) (.text h)))
  | .call name args =>
    rw [Expression.names, List.forall_mem_cons] at h
    rw [Expression.toDocument]
    refine wordy_tagged (by decide) ?_
    simp only [List.forall_mem_cons]
    exact ⟨.intro (by decide) (.text h.1),
      .intro (by decide) (.list (Expression.wordy_toDocuments args h.2)), by simp⟩

theorem Expression.wordy_toDocuments (es : List Expression)
    (h : ∀ n ∈ Expression.namesAll es, IsWord n.toList) :
    ∀ d ∈ Expression.toDocuments es, d.Wordy := by
  match es with
  | [] => simp [Expression.toDocuments]
  | e :: es =>
    rw [Expression.namesAll, List.forall_mem_append] at h
    rw [Expression.toDocuments, List.forall_mem_cons]
    exact ⟨Expression.wordy_toDocument e h.1, Expression.wordy_toDocuments es h.2⟩
end

/-- **The document of a variable is wordy**, with an initializer or without. -/
theorem Variable.wordy_toDocument (v : Variable) (h : ∀ n ∈ v.names, IsWord n.toList) :
    v.toDocument.Wordy := by
  rw [Variable.names, List.forall_mem_cons] at h
  refine wordy_record ?_
  rw [List.forall_mem_cons, List.forall_mem_cons]
  refine ⟨.intro (by decide) (.text h.1), .intro (by decide) v.type.wordy_toDocument,
    fun f hf => ?_⟩
  obtain ⟨e, he, rfl⟩ := List.mem_map.mp hf
  exact .intro (by decide) (e.wordy_toDocument fun n hn => h.2 n (List.mem_flatMap_of_mem he hn))

mutual
/-- **The document of a statement is wordy.** -/
theorem Statement.wordy_toDocument (s : Statement) (h : ∀ n ∈ s.names, IsWord n.toList) :
    s.toDocument.Wordy := by
  match s with
  | .assignment target value =>
    rw [Statement.names, List.forall_mem_cons] at h
    have htarget : (Document.record [⟨"name", .text target⟩]).Wordy :=
      wordy_record (List.forall_mem_singleton.mpr (.intro (by decide) (.text h.1)))
    rw [Statement.toDocument]
    refine wordy_tagged (by decide) ?_
    simp only [List.forall_mem_cons]
    exact ⟨.intro (by decide) htarget, .intro (by decide) (value.wordy_toDocument h.2), by simp⟩
  | .ifElse cond thenBlock elseBlock =>
    simp only [Statement.names, List.forall_mem_append] at h
    rw [Statement.toDocument]
    refine wordy_tagged (by decide) ?_
    simp only [List.forall_mem_cons]
    exact ⟨.intro (by decide) (cond.wordy_toDocument h.1),
      .intro (by decide) (Block.wordy_toDocument thenBlock h.2.1),
      .intro (by decide) (Block.wordy_toDocument elseBlock h.2.2), by simp⟩
  | .whileLoop cond body =>
    rw [Statement.names, List.forall_mem_append] at h
    rw [Statement.toDocument]
    refine wordy_tagged (by decide) ?_
    simp only [List.forall_mem_cons]
    exact ⟨.intro (by decide) (cond.wordy_toDocument h.1),
      .intro (by decide) (Block.wordy_toDocument body h.2), by simp⟩
  | .returnValue value =>
    rw [Statement.names] at h
    exact wordy_tagged (by decide)
      (List.forall_mem_singleton.mpr (.intro (by decide) (value.wordy_toDocument h)))
  | .returnVoid | .breakLoop | .continueLoop => exact wordy_tagged (by decide) (by simp)

theorem Block.wordy_toDocument (b : Block) (h : ∀ n ∈ b.names, IsWord n.toList) :
    b.toDocument.Wordy := by
  match b with
  | ⟨locals, statements⟩ =>
    rw [Block.names, List.forall_mem_append] at h
    rw [Block.toDocument]
    refine wordy_record ?_
    simp only [List.forall_mem_cons]
    exact ⟨.intro (by decide) (wordy_list_map Variable.wordy_toDocument h.1),
      .intro (by decide) (.list (Statement.wordy_toDocuments statements h.2)), by simp⟩

theorem Statement.wordy_toDocuments (ss : List Statement)
    (h : ∀ n ∈ Statement.namesAll ss, IsWord n.toList) :
    ∀ d ∈ Statement.toDocuments ss, d.Wordy := by
  match ss with
  | [] => simp [Statement.toDocuments]
  | s :: ss =>
    rw [Statement.namesAll, List.forall_mem_append] at h
    rw [Statement.toDocuments, List.forall_mem_cons]
    exact ⟨Statement.wordy_toDocument s h.1, Statement.wordy_toDocuments ss h.2⟩
end

theorem Function.wordy_toDocument (f : Function) (h : ∀ n ∈ f.names, IsWord n.toList) :
    f.toDocument.Wordy := by
  simp only [Function.names, List.forall_mem_cons, List.forall_mem_append] at h
  obtain ⟨hname, hparams, hbody⟩ := h
  refine wordy_record ?_
  simp only [List.forall_mem_cons]
  exact ⟨.intro (by decide) f.returnType.wordy_toDocument, .intro (by decide) (.text hname),
    .intro (by decide) (wordy_list_map Variable.wordy_toDocument hparams),
    .intro (by decide) (f.body.wordy_toDocument hbody), by simp⟩

/-- **The document of a program is wordy**, if its names are words. -/
theorem Program.wordy_toDocument (p : Program) (h : ∀ n ∈ p.names, IsWord n.toList) :
    p.toDocument.Wordy := by
  rw [Program.names, List.forall_mem_append] at h
  refine wordy_record ?_
  simp only [List.forall_mem_cons]
  exact ⟨.intro (by decide) (wordy_list_map Variable.wordy_toDocument h.1),
    .intro (by decide) (wordy_list_map Function.wordy_toDocument h.2), by simp⟩

/-! ## The texts of programs -/

/-- **YAML texts determine programs**, if the names in them are words. -/
theorem yaml_faithful {p q : Program} (hp : ∀ n ∈ p.names, IsWord n.toList)
    (hq : ∀ n ∈ q.names, IsWord n.toList)
    (h : Formatter.yaml.serialize p = Formatter.yaml.serialize q) : p = q := by
  have hdocument : p.toDocument = q.toDocument :=
    Yaml.eq_of_write (p.wordy_toDocument hp) (q.wordy_toDocument hq) (Except.ok.inj h)
  have hread := p.ofDocument?_toDocument
  rw [hdocument, q.ofDocument?_toDocument] at hread
  exact (Option.some.inj hread).symm

/-- Names that are also YAML words, an initializer, empty lists, and blocks in blocks. -/
theorem yaml_faithful_null :
    let program (elseBlock : Block) : Program :=
      ⟨[⟨"null", .int, some (.intConstant (-1))⟩], [⟨.void, "yes", [⟨"true", .bool, none⟩],
        ⟨[], [.ifElse (.location "n") ⟨[⟨"off", .int, none⟩], [.returnVoid]⟩ elseBlock]⟩⟩]⟩
    let p := program .empty
    let q := program ⟨[], []⟩
    (∀ n ∈ p.names, IsWord n.toList) ∧ (∀ n ∈ q.names, IsWord n.toList)
      ∧ Formatter.yaml.serialize p = Formatter.yaml.serialize q ∧ p = q := by
  intro program p q
  have hp : ∀ n ∈ p.names, IsWord n.toList := by decide
  have hq : ∀ n ∈ q.names, IsWord n.toList := by decide
  have h : Formatter.yaml.serialize p = Formatter.yaml.serialize q := rfl
  exact ⟨hp, hq, h, yaml_faithful hp hq h⟩

/-- A name and a truth value are told apart by quotes. -/
example : Yaml.write (.list [.text "true", .bool true, .text "yes"])
    = "- 'true'\n- true\n- yes\n" := by
  decide +kernel

end ImpFront
