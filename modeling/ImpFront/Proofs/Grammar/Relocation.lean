import ImpFront.Proofs.Grammar.Acceptance

/-!
# Rules do not look at places

Where a token stands decides nothing about how it is read. If the tokens of a
source are moved – behind a longer text, or around something that was put
between them – each rule does with them what it did before: it makes the same
tree, moved, or it fails at the same token, with the same expectations
(`StartSymbol.readAll_relocate`).

Starts and stops may move differently, because something put in at an offset
moves what starts there, and not what stops there. Everything that carries a
place moves in the obvious way (`Relocatable`), and each form of rule keeps the
property that moving the tokens moves the outcome (`Rule.Moves`).
-/

namespace ImpFront

/-- **How places move.** -/
structure Relocation where
  /-- Where a start goes. -/
  start : Nat → Nat
  /-- Where a stop goes. -/
  stop : Nat → Nat

/-- What carries places, and can be moved. -/
class Relocatable (α : Type) where
  /-- The same, with all places moved. -/
  relocate : Relocation → α → α

open Relocatable

variable {α β : Type} [Relocatable α] [Relocatable β] (m : Relocation)

/-! ## Everything that carries places -/

instance : Relocatable Unit := ⟨fun _ u => u⟩

instance : Relocatable Span := ⟨fun m s => ⟨m.start s.start, m.stop s.stop⟩⟩

instance : Relocatable Lexeme := ⟨fun m l => ⟨l.token, relocate m l.span⟩⟩

instance : Relocatable (Option α) := ⟨fun m => Option.map (relocate m)⟩

instance : Relocatable (List α) := ⟨fun m => List.map (relocate m)⟩

instance : Relocatable (α × β) := ⟨fun m p => (relocate m p.1, relocate m p.2)⟩

mutual
/-- A shape with all its places moved. -/
def TreeShape.moved (m : Relocation) : TreeShape → TreeShape
  | ⟨kind, span, children⟩ => ⟨kind, relocate m span, TreeShape.movedAll m children⟩

/-- Several shapes with all their places moved. -/
def TreeShape.movedAll (m : Relocation) : List TreeShape → List TreeShape
  | [] => []
  | s :: ss => s.moved m :: TreeShape.movedAll m ss
end

instance : Relocatable TreeShape := ⟨TreeShape.moved⟩

instance : Relocatable Failure := ⟨fun m e => ⟨relocate m e.rest, e.expected⟩⟩

instance : Relocatable (Outcome α) where
  relocate m
    | .ok a rest survived => .ok (relocate m a) (relocate m rest) (relocate m survived)
    | .fail e => .fail (relocate m e)

instance : Relocatable (Except Failure α) where
  relocate m
    | .ok a => .ok (relocate m a)
    | .error e => .error (relocate m e)

@[simp] theorem relocate_unit (u : Unit) : relocate m u = u := rfl

@[simp] theorem start_relocate (s : Span) : (relocate m s).start = m.start s.start := rfl

@[simp] theorem stop_relocate (s : Span) : (relocate m s).stop = m.stop s.stop := rfl

@[simp] theorem relocate_join (a b : Span) :
    relocate m (a.join b) = (relocate m a).join (relocate m b) := rfl

@[simp] theorem token_relocate (l : Lexeme) : (relocate m l).token = l.token := rfl

@[simp] theorem span_relocate_lexeme (l : Lexeme) :
    (relocate m l).span = relocate m l.span := rfl

@[simp] theorem relocate_none : relocate m (none : Option α) = none := rfl

@[simp] theorem relocate_some (a : α) : relocate m (some a) = some (relocate m a) := rfl

@[simp] theorem relocate_nil : relocate m ([] : List α) = [] := rfl

@[simp] theorem relocate_cons (a : α) (as : List α) :
    relocate m (a :: as) = relocate m a :: relocate m as := rfl

@[simp] theorem relocate_append (as bs : List α) :
    relocate m (as ++ bs) = relocate m as ++ relocate m bs := List.map_append

@[simp] theorem length_relocate (as : List α) : (relocate m as).length = as.length :=
  List.length_map _

@[simp] theorem relocate_pair (a : α) (b : β) :
    relocate m (a, b) = (relocate m a, relocate m b) := rfl

@[simp] theorem toList_relocate (a : Option α) :
    (relocate m a).toList = relocate m a.toList := by
  cases a <;> rfl

@[simp] theorem getLastD_relocate (as : List α) (a : α) :
    (relocate m as).getLastD (relocate m a) = relocate m (as.getLastD a) := by
  induction as generalizing a with
  | nil => rfl
  | cons b bs ih =>
    rw [relocate_cons, List.getLastD_cons, List.getLastD_cons]
    exact ih b

@[simp] theorem relocate_shape (kind : NodeKind) (span : Span) (children : List TreeShape) :
    relocate m (⟨kind, span, children⟩ : TreeShape)
      = ⟨kind, relocate m span, relocate m children⟩ := by
  have hall : TreeShape.movedAll m children = relocate m children := by
    induction children with
    | nil => rfl
    | cons s ss ih => rw [TreeShape.movedAll, ih]; rfl
  show TreeShape.moved m _ = _
  rw [TreeShape.moved, hall]

@[simp] theorem span_relocate (s : TreeShape) : (relocate m s).span = relocate m s.span := by
  cases s
  rw [relocate_shape]

@[simp] theorem relocate_spanning (kind : NodeKind) (first last : Span)
    (children : List TreeShape) :
    relocate m (TreeShape.spanning kind first last children)
      = .spanning kind (relocate m first) (relocate m last) (relocate m children) := by
  rw [TreeShape.spanning, relocate_shape]
  rfl

@[simp] theorem relocate_listing (kind : NodeKind) (first : TreeShape)
    (others : List TreeShape) :
    relocate m (TreeShape.listing kind first others)
      = .listing kind (relocate m first) (relocate m others) := by
  rw [TreeShape.listing, relocate_spanning, relocate_cons, TreeShape.listing,
    getLastD_relocate, span_relocate, span_relocate]

@[simp] theorem relocate_binary (left operator right : TreeShape) :
    relocate m (TreeShape.binary left operator right)
      = .binary (relocate m left) (relocate m operator) (relocate m right) := by
  rw [TreeShape.binary, relocate_spanning, TreeShape.binary, span_relocate, span_relocate]
  rfl

theorem relocate_furthest (a b : Failure) :
    relocate m (a.furthest b) = (relocate m a).furthest (relocate m b) := by
  have hlength (e : Failure) : (relocate m e).rest.length = e.rest.length :=
    length_relocate m e.rest
  unfold Failure.furthest
  rw [hlength, hlength]
  split
  · rfl
  split <;> rfl

theorem relocate_furthest? (a b : Option Failure) :
    relocate m (furthest? a b) = furthest? (relocate m a) (relocate m b) := by
  cases a with
  | none => rfl
  | some a =>
    cases b with
    | none => rfl
    | some b => exact congrArg some (relocate_furthest m a b)

theorem relocate_remember (earlier : Option Failure) (o : Outcome α) :
    relocate m (o.remember earlier) = (relocate m o).remember (relocate m earlier) := by
  cases o with
  | ok a rest survived =>
    show Outcome.ok _ _ _ = Outcome.ok _ _ _
    rw [relocate_furthest?]
  | fail e =>
    cases earlier with
    | none => rfl
    | some e' => exact congrArg Outcome.fail (relocate_furthest m e' e)

/-! ## Rules -/

/-- **The second rule does with moved tokens what the first does with them
unmoved.** Most rules are their own partner. -/
def Rule.Moves (m : Relocation) (p q : Rule α) : Prop :=
  ∀ ts, q (relocate m ts) = relocate m (p ts)

namespace Rule.Moves

variable {m : Relocation}

theorem pure {a b : α} (h : b = relocate m a) :
    Moves m (Pure.pure a : Rule α) (Pure.pure b) := by
  subst h
  exact fun _ => rfl

theorem bind {p p' : Rule α} {f f' : α → Rule β} (hp : Moves m p p')
    (hf : ∀ a, Moves m (f a) (f' (relocate m a))) : Moves m (p >>= f) (p' >>= f') := by
  intro ts
  rw [bind_apply, bind_apply, hp ts]
  cases p ts with
  | fail e => rfl
  | ok a rest survived =>
    rw [relocate_remember, ← hf a rest]
    rfl

theorem orElse {p p' q q' : Rule α} (hp : Moves m p p') (hq : Moves m q q') :
    Moves m (p <|> q) (p' <|> q') := by
  intro ts
  rw [orElse_apply, orElse_apply, hp ts]
  cases p ts with
  | ok a rest survived => rfl
  | fail e =>
    rw [show relocate m (Outcome.fail e : Outcome α) = .fail (relocate m e) from rfl, hq ts]
    cases q ts with
    | ok b rest survived => rfl
    | fail e' => exact congrArg Outcome.fail (relocate_furthest m e e').symm

theorem optional {p p' : Rule α} (hp : Moves m p p') :
    Moves m (Rule.optional p) (Rule.optional p') := by
  intro ts
  unfold Rule.optional
  rw [hp ts]
  cases p ts <;> rfl

theorem many {p p' : Rule α} (hp : Moves m p p') : Moves m (Rule.many p) (Rule.many p') := by
  intro ts
  induction hn : ts.length using Nat.strongRecOn generalizing ts with
  | _ n ih =>
    rw [many_apply, many_apply, hp ts]
    cases p ts with
    | fail e => rfl
    | ok a rest survived =>
      show (if (relocate m rest).length < (relocate m ts).length then _ else _)
        = relocate m (if rest.length < ts.length then _ else _)
      rw [length_relocate, length_relocate]
      by_cases hlt : rest.length < ts.length
      · rw [if_pos hlt, if_pos hlt, relocate_remember, ih rest.length (hn ▸ hlt) rest rfl]
        cases Rule.many p rest <;> rfl
      · rw [if_neg hlt, if_neg hlt]
        rfl

theorem separatedBy {item item' : Rule α} {separator separator' : Rule β}
    (hitem : Moves m item item') (hseparator : Moves m separator separator') :
    Moves m (Rule.separatedBy item separator) (Rule.separatedBy item' separator') :=
  hitem.bind fun _ => (hseparator.bind fun _ => hitem).many.bind fun _ => .pure rfl

theorem token (t : Token) : Moves m (Rule.token t) (Rule.token t) := by
  intro ts
  cases ts with
  | nil => rfl
  | cons l ts =>
    obtain ⟨t', span⟩ := l
    show (if t' = t then _ else _) = relocate m (if t' = t then _ else _)
    split <;> rfl

theorem operator (symbols : List Symbol) :
    Moves m (Rule.operator symbols) (Rule.operator symbols) := by
  intro ts
  cases ts with
  | nil => rfl
  | cons l ts =>
    obtain ⟨t, span⟩ := l
    cases t with
    | symbol s =>
      show (if s ∈ symbols then _ else _) = relocate m (if s ∈ symbols then _ else _)
      split <;> rfl
    | keyword k => rfl
    | intLiteral => rfl
    | ident => rfl

theorem endOfInput : Moves m Rule.endOfInput Rule.endOfInput := by
  intro ts
  cases ts <;> rfl

end Rule.Moves

/-! ## The rules of the grammar -/

namespace Grammar

open Rule

variable {m : Relocation} {expr block : Rule TreeShape}

theorem leaf_moves (kind : NodeKind) (t : Token) : Moves m (leaf kind t) (leaf kind t) :=
  (Moves.token t).bind fun _ => .pure (by simp)

theorem ident_moves : Moves m ident ident := leaf_moves _ _

theorem operatorLeaf_moves (symbols : List Symbol) :
    Moves m (operatorLeaf symbols) (operatorLeaf symbols) :=
  (Moves.operator symbols).bind fun _ => .pure (by simp)

theorem parenthesized_moves {p : Rule α} (hp : Moves m p p) :
    Moves m (parenthesized p) (parenthesized p) :=
  (Moves.token _).bind fun _ => hp.bind fun _ => (Moves.token _).bind fun _ => .pure rfl

theorem argList_moves (h : Moves m expr expr) : Moves m (argList expr) (argList expr) :=
  (h.separatedBy (Moves.token _)).bind fun _ => .pure (by simp)

theorem call_moves (h : Moves m expr expr) : Moves m (call expr) (call expr) :=
  ident_moves.bind fun _ => (parenthesized_moves (argList_moves h).optional).bind fun _ =>
    .pure (by simp)

theorem location_moves : Moves m location location :=
  ident_moves.bind fun _ => .pure (by simp)

theorem group_moves (h : Moves m expr expr) : Moves m (group expr) (group expr) :=
  (parenthesized_moves h).bind fun _ => .pure (by simp)

theorem boolLiteral_moves : Moves m boolLiteral boolLiteral :=
  (leaf_moves _ _).orElse (leaf_moves _ _)

theorem atom_moves (h : Moves m expr expr) : Moves m (atom expr) (atom expr) :=
  (leaf_moves _ _).orElse
    (boolLiteral_moves.orElse ((call_moves h).orElse (location_moves.orElse (group_moves h))))

/-- Operands and operators that were moved nest like those that were not. -/
theorem relocate_nest (first : TreeShape) (others : List (TreeShape × TreeShape)) :
    (relocate m others).foldl (fun left o => .binary left o.1 o.2) (relocate m first)
      = relocate m (others.foldl (fun left o => TreeShape.binary left o.1 o.2) first) := by
  induction others generalizing first with
  | nil => rfl
  | cons o others ih =>
    rw [relocate_cons, List.foldl_cons, List.foldl_cons, ← ih, relocate_binary]
    rfl

theorem binaryLevel_moves {operand : Rule TreeShape} (h : Moves m operand operand)
    (symbols : List Symbol) :
    Moves m (binaryLevel operand symbols) (binaryLevel operand symbols) :=
  h.bind fun first => ((operatorLeaf_moves symbols).bind fun operator => h.bind fun right =>
    .pure (a := (operator, right)) rfl).many.bind fun others => .pure (relocate_nest first others)

theorem expressionWith_moves (h : Moves m expr expr) :
    Moves m (expressionWith expr) (expressionWith expr) := by
  unfold expressionWith
  generalize hp : atom expr = p
  have hmoves : Moves m p p := hp ▸ atom_moves h
  clear hp
  -- One level after another is put around what there is.
  induction operatorLevels generalizing p with
  | nil => exact hmoves
  | cons symbols levels ih => exact ih _ (binaryLevel_moves hmoves symbols)

theorem expressionAt_moves (depth : Nat) : Moves m (expressionAt depth) (expressionAt depth) := by
  induction depth with
  | zero => exact fun _ => rfl
  | succ depth ih => exact expressionWith_moves ih

theorem expression_moves : Moves m expression expression := by
  intro ts
  unfold expression
  rw [length_relocate]
  exact expressionAt_moves _ ts

theorem typeName_moves : Moves m typeName typeName :=
  ((leaf_moves _ _).orElse ((leaf_moves _ _).orElse (leaf_moves _ _))).bind fun _ =>
    .pure (by simp)

theorem initializer_moves : Moves m initializer initializer :=
  (Moves.token _).bind fun _ => expression_moves

theorem varDecl_moves : Moves m varDecl varDecl :=
  typeName_moves.bind fun _ => ident_moves.bind fun _ => initializer_moves.optional.bind fun _ =>
    (Moves.token _).bind fun _ => .pure (by simp)

theorem assignStmt_moves : Moves m assignStmt assignStmt :=
  ident_moves.bind fun _ => (Moves.token _).bind fun _ => expression_moves.bind fun _ =>
    (Moves.token _).bind fun _ => .pure (by simp)

theorem condition_moves : Moves m condition condition :=
  (parenthesized_moves expression_moves).bind fun _ => .pure rfl

theorem elseIfClause_moves (h : Moves m block block) :
    Moves m (elseIfClause block) (elseIfClause block) :=
  (Moves.token _).bind fun _ => (Moves.token _).bind fun _ => condition_moves.bind fun _ =>
    h.bind fun _ => .pure (by simp)

theorem elseClause_moves (h : Moves m block block) :
    Moves m (elseClause block) (elseClause block) :=
  (Moves.token _).bind fun _ => h.bind fun _ => .pure (by simp)

theorem ifStmt_moves (h : Moves m block block) : Moves m (ifStmt block) (ifStmt block) :=
  (Moves.token _).bind fun _ => condition_moves.bind fun _ => h.bind fun _ =>
    (elseIfClause_moves h).many.bind fun _ => (elseClause_moves h).optional.bind fun _ =>
      .pure (by simp only [relocate_spanning, relocate_cons, toList_relocate, ← relocate_append,
        getLastD_relocate, span_relocate])

theorem whileStmt_moves (h : Moves m block block) : Moves m (whileStmt block) (whileStmt block) :=
  (Moves.token _).bind fun _ => condition_moves.bind fun _ => h.bind fun _ => .pure (by simp)

theorem returnStmt_moves : Moves m returnStmt returnStmt :=
  (Moves.token _).bind fun _ => expression_moves.optional.bind fun _ =>
    (Moves.token _).bind fun _ => .pure (by simp)

theorem jumpStmt_moves (kind : NodeKind) (word : Keyword) :
    Moves m (jumpStmt kind word) (jumpStmt kind word) :=
  (Moves.token _).bind fun _ => (Moves.token _).bind fun _ => .pure (by simp)

theorem statementWith_moves (h : Moves m block block) :
    Moves m (statementWith block) (statementWith block) :=
  assignStmt_moves.orElse ((ifStmt_moves h).orElse ((whileStmt_moves h).orElse
    (returnStmt_moves.orElse ((jumpStmt_moves _ _).orElse (jumpStmt_moves _ _)))))

theorem blockWith_moves (h : Moves m block block) : Moves m (blockWith block) (blockWith block) :=
  (Moves.token _).bind fun _ => (varDecl_moves.orElse (statementWith_moves h)).many.bind fun _ =>
    (Moves.token _).bind fun _ => .pure (by simp)

theorem blockAt_moves (depth : Nat) : Moves m (blockAt depth) (blockAt depth) := by
  induction depth with
  | zero => exact fun _ => rfl
  | succ depth ih => exact blockWith_moves ih

theorem block_moves : Moves m Grammar.block Grammar.block := by
  intro ts
  unfold Grammar.block
  rw [length_relocate]
  exact blockAt_moves _ ts

theorem statement_moves : Moves m statement statement := statementWith_moves block_moves

theorem param_moves : Moves m param param :=
  typeName_moves.bind fun _ => ident_moves.bind fun _ => .pure (by simp)

theorem paramList_moves : Moves m paramList paramList :=
  (param_moves.separatedBy (Moves.token _)).bind fun _ => .pure (by simp)

theorem funcDecl_moves : Moves m funcDecl funcDecl :=
  typeName_moves.bind fun _ => ident_moves.bind fun _ =>
    (parenthesized_moves paramList_moves.optional).bind fun _ => block_moves.bind fun _ =>
      .pure (by simp)

theorem declaration_moves : Moves m declaration declaration :=
  funcDecl_moves.orElse varDecl_moves

end Grammar

/-! ## Reading all tokens -/

variable {m : Relocation}

theorem Rule.Moves.readAll {p p' : Rule α} (hp : Rule.Moves m p p') (ts : List Lexeme) :
    p'.readAll (relocate m ts) = relocate m (p.readAll ts) := by
  have hwhole : Rule.Moves m (do let a ← p; Rule.endOfInput; return a)
      (do let a ← p'; Rule.endOfInput; return a) :=
    hp.bind fun a => Rule.Moves.endOfInput.bind fun _ => .pure rfl
  unfold Rule.readAll
  dsimp only
  rw [hwhole ts]
  cases (do let a ← p; Rule.endOfInput; return a : Rule α) ts <;> rfl

omit [Relocatable α] [Relocatable β] in
/-- **A rule that does what another does** to some tokens, up to the value, does so to
all of them. -/
theorem Rule.readAll_of_map {p : Rule α} {q : Rule β} {f : α → β} {ts us : List Lexeme}
    (h : q us = (p ts).map f) : q.readAll us = (p.readAll ts).map f := by
  unfold Rule.readAll
  simp only [bind_apply, pure_apply, h]
  cases p ts with
  | fail e => rfl
  | ok a rest survived =>
    simp only [Outcome.map, Outcome.remember, furthest?_none_right]
    cases rest with
    | nil => rfl
    | cons l rest => cases survived <;> rfl

omit [Relocatable α] [Relocatable β] in
/-- What is made of the value of a rule does not matter to reading all
tokens. -/
theorem Rule.readAll_map (p : Rule α) (f : α → β) (ts : List Lexeme) :
    (do let a ← p; return f a : Rule β).readAll ts = (p.readAll ts).map f := by
  refine readAll_of_map ?_
  rw [bind_apply]
  cases p ts with
  | fail e => rfl
  | ok a rest survived => simp [Outcome.remember, Outcome.map]

omit [Relocatable α] in
/-- A repetition that has found nothing has read nothing. -/
theorem Rule.eq_nil_of_readAll_many {p : Rule α} {ts : List Lexeme}
    (h : Rule.readAll (many p) ts = .ok []) : ts = [] := by
  cases chain_of_reads_many (readAll_eq_ok.mp h)
  rfl

/-- A program is what its declarations make. -/
theorem readAll_program (size : Nat) (ts : List Lexeme) :
    (StartSymbol.program.rule size).readAll ts
      = (Rule.readAll (Rule.many Grammar.declaration) ts).map (Grammar.programNode size) :=
  Rule.readAll_map (Rule.many Grammar.declaration) (Grammar.programNode size) ts

/-- A program with declarations moves like any other node. One without them
stands at the end of its source. -/
theorem relocate_programNode {size size' : Nat} {declarations : List TreeShape}
    (h : declarations = [] → relocate m (Span.emptyAt size) = .emptyAt size') :
    Grammar.programNode size' (relocate m declarations)
      = relocate m (Grammar.programNode size declarations) := by
  cases declarations with
  | nil =>
    show (⟨_, _, _⟩ : TreeShape) = relocate m (⟨_, _, _⟩ : TreeShape)
    rw [relocate_shape, h rfl]
    rfl
  | cons first others => exact (relocate_listing m .program first others).symm

/-- **Moving the tokens moves what is read**, tree or failure. Only a program
without declarations stands at no token. -/
theorem StartSymbol.readAll_relocate {size size' : Nat} (start : StartSymbol) (ts : List Lexeme)
    (h : ts = [] → relocate m (Span.emptyAt size) = .emptyAt size') :
    (start.rule size').readAll (relocate m ts) = relocate m ((start.rule size).readAll ts) := by
  cases start with
  | statement => exact Grammar.statement_moves.readAll ts
  | expression => exact Grammar.expression_moves.readAll ts
  | program =>
    rw [readAll_program, readAll_program, Grammar.declaration_moves.many.readAll ts]
    cases hread : Rule.readAll (Rule.many Grammar.declaration) ts with
    | error e => rfl
    | ok ds =>
      refine congrArg Except.ok (relocate_programNode fun hds => h ?_)
      exact Rule.eq_nil_of_readAll_many (hds ▸ hread)

end ImpFront
