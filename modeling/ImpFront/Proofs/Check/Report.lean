import ImpFront.Proofs.Ast.WellFormed
import ImpFront.Proofs.Check.Place
import ImpFront.Proofs.Number.Decimal

/-!
# What a failed check reports

The message of a failed check begins with the path of the failing step, as a text:
`functions[0].body.statements[1].cond`. A reader reads the path off the message (`placeIn`)
and follows it in the program.

There could be several paths with this text, since a path may hold the name of a function and
a name may be any text. If functions have words for names, there are not: no step of a path in
the program has a dot or a colon in it (`PathStep.not_isMark_display`), so the text can be
taken apart again (`Path.display_inj`). Then the message of a failed check leads to the node
that the first failing step was made on, and to no other (`failure_names_node`).
-/

namespace ImpFront.Check

/-! ## Steps of paths as texts -/

/-- **A step that names no function, or names it by a word.** -/
def PathStep.Worded : PathStep → Prop
  | .functionNamed name => IsWord name.toList
  | _ => True

/-- The index of an indexed access can be read off. -/
theorem indexed_inj {list : String} {i j : Nat} (h : indexed list i = indexed list j) : i = j := by
  have hdigits : Nat.toDigits 10 i = Nat.toDigits 10 j := by
    simpa [indexed, ← String.toList_inj] using h
  rw [← Decimal.value_toDigits i, hdigits, Decimal.value_toDigits]

/-- **Steps are told apart by their texts.** -/
theorem PathStep.display_inj {s t : PathStep} (h : s.display = t.display) : s = t := by
  cases s <;> cases t
  case variable.variable | function.function | param.param | localVariable.localVariable
    | statement.statement | arg.arg => rw [indexed_inj h]
  case functionNamed.functionNamed => simpa [PathStep.display] using h
  case body.body | initializer.initializer | value.value | cond.cond | elseBlock.elseBlock
    | left.left | right.right => rfl
  -- Texts of steps of different sorts differ at one of their first letters.
  all_goals simp [PathStep.display, indexed, ← String.toList_inj] at h

theorem PathStep.display_ne_program (s : PathStep) : s.display ≠ "program" := by
  intro h
  cases s <;> simp [PathStep.display, indexed, ← String.toList_inj] at h

/-- The marks at which a text is taken apart. -/
def IsMark (c : Char) : Prop := c = '.' ∨ c = ':'

instance : DecidablePred IsMark := fun c => inferInstanceAs (Decidable (c = '.' ∨ c = ':'))

/-- Letter by letter, for a text that is given. -/
theorem not_isMark_of_all {text : List Char} (h : text.all (fun c => !decide (IsMark c)) = true) :
    ∀ c ∈ text, ¬ IsMark c := by
  simpa using h

theorem not_isMark_of_isDigit {c : Char} (h : c.isDigit = true) : ¬ IsMark c := by
  rintro (rfl | rfl) <;> simp at h

theorem not_isMark_of_isWordPart {c : Char} (h : Lexer.isWordPart c = true) : ¬ IsMark c := by
  rintro (rfl | rfl) <;> simp [Lexer.isWordPart, Lexer.isWordStart] at h

/-- A word has no mark in it. -/
theorem not_isMark_of_isWord {text : List Char} (h : IsWord text) : ∀ c ∈ text, ¬ IsMark c := by
  obtain ⟨c, cs, rfl, hstart, hpart⟩ := h
  refine List.forall_mem_cons.mpr ⟨not_isMark_of_isWordPart ?_, fun d hd => ?_⟩
  · simp [Lexer.isWordPart, hstart]
  · exact not_isMark_of_isWordPart (List.all_eq_true.mp hpart d hd)

/-- Nor has an indexed access, if the name of the list has none. -/
theorem not_isMark_indexed {list : String} (h : ∀ c ∈ list.toList, ¬ IsMark c) (index : Nat) :
    ∀ c ∈ (indexed list index).toList, ¬ IsMark c := by
  have hdigits : ∀ c ∈ Nat.toDigits 10 index, ¬ IsMark c := fun c hc =>
    not_isMark_of_isDigit (List.all_eq_true.mp (Decimal.toDigits_spec index).2 c hc)
  have htext : (indexed list index).toList
      = list.toList ++ '[' :: (Nat.toDigits 10 index ++ [']']) := by
    simp [indexed]
  rw [htext, List.forall_mem_append, List.forall_mem_cons, List.forall_mem_append]
  exact ⟨h, by decide, hdigits, not_isMark_of_all (by decide)⟩

/-- **The text of a step has no mark in it**, if the name in it has none. -/
theorem PathStep.not_isMark_display {s : PathStep} (h : s.Worded) :
    ∀ c ∈ s.display.toList, ¬ IsMark c := by
  cases s with
  | «variable» index | function index | param index | localVariable index | statement index
  | arg index => exact not_isMark_indexed (not_isMark_of_all (by decide)) index
  | functionNamed name =>
    have htext : (PathStep.functionNamed name).display.toList
        = "function '".toList ++ (name.toList ++ ['\'']) := by
      simp [PathStep.display]
    rw [htext, List.forall_mem_append, List.forall_mem_append]
    exact ⟨not_isMark_of_all (by decide), not_isMark_of_isWord h, not_isMark_of_all (by decide)⟩
  | _ => exact not_isMark_of_all (by decide)

/-! ## Paths as texts -/

/-- The texts between the dots of a path. -/
def Path.segments (path : Path) : List String :=
  match path with
  | [] => ["program"]
  | _ => path.map PathStep.display

theorem Path.display_eq (path : Path) : path.display = ".".intercalate path.segments := by
  cases path with
  | nil => exact String.intercalate_singleton.symm
  | cons s ss => rfl

theorem Path.segments_inj {path path' : Path} (h : path.segments = path'.segments) :
    path = path' := by
  cases path with
  | nil =>
    cases path' with
    | nil => rfl
    | cons s ss => exact absurd (List.cons.inj h).1.symm s.display_ne_program
  | cons s ss =>
    cases path' with
    | nil => exact absurd (List.cons.inj h).1 s.display_ne_program
    | cons t ts => exact List.map_injective_iff.mpr (fun _ _ => PathStep.display_inj) h

theorem Path.not_isMark_segments {path : Path} (h : ∀ s ∈ path, s.Worded) :
    ∀ text ∈ path.segments, ∀ c ∈ text.toList, ¬ IsMark c := by
  cases path with
  | nil => exact List.forall_mem_singleton.mpr (not_isMark_of_all (by decide))
  | cons s ss =>
    show ∀ text ∈ (s :: ss).map PathStep.display, _
    rw [List.forall_mem_map]
    exact fun t ht => t.not_isMark_display (h t ht)

/-- The segments can be read off. -/
theorem Path.split_display {path : Path} (h : ∀ s ∈ path, s.Worded) :
    (path.display.split '.').toList.map (·.copy) = path.segments := by
  have hne : path.segments ≠ [] := by
    cases path <;> simp [segments]
  have hdot : ∀ text ∈ path.segments, '.' ∉ text.toList := fun text htext hmem =>
    not_isMark_segments h text htext '.' hmem (.inl rfl)
  have hsplit := String.toList_split_intercalate hdot
  rw [if_neg hne] at hsplit
  rw [display_eq]
  exact hsplit

/-- **Paths of words are told apart by their texts.** -/
theorem Path.display_inj {path path' : Path} (h : ∀ s ∈ path, s.Worded)
    (h' : ∀ s ∈ path', s.Worded) (hdisplay : path.display = path'.display) : path = path' := by
  refine Path.segments_inj ?_
  rw [← split_display h, hdisplay, split_display h']

theorem colon_not_mem_dots {texts : List String} (h : ∀ text ∈ texts, ':' ∉ text.toList) :
    ':' ∉ (".".intercalate texts).toList := by
  induction texts with
  | nil => simp
  | cons s texts ih =>
    obtain ⟨hs, htexts⟩ := List.forall_mem_cons.mp h
    cases texts with
    | nil => rwa [String.intercalate_singleton]
    | cons t texts =>
      rw [String.intercalate_cons_cons, String.toList_append, String.toList_append,
        List.mem_append, List.mem_append, not_or, not_or]
      exact ⟨⟨hs, by decide⟩, ih htexts⟩

/-- The text of a path of words ends where its first colon stands. -/
theorem Path.colon_not_mem_display {path : Path} (h : ∀ s ∈ path, s.Worded) :
    ':' ∉ path.display.toList := by
  rw [display_eq]
  exact colon_not_mem_dots fun text htext hmem =>
    not_isMark_segments h text htext ':' hmem (.inr rfl)

/-! ## Paths in a program -/

/-- In a program whose functions have words for names, every path is of words. -/
theorem worded_of_follow? {p : Program} (hp : ∀ f ∈ p.functions, IsWord f.name.toList)
    {path : Path} {node : Node} (h : p.follow? path = some node) : ∀ s ∈ path, s.Worded := by
  induction path using List.reverseRecOn generalizing node with
  | nil => simp
  | append_singleton path step ih =>
    rw [Program.follow?_concat, Option.bind_eq_some_iff] at h
    obtain ⟨before, hbefore, hgo⟩ := h
    rw [List.forall_mem_append, List.forall_mem_singleton]
    refine ⟨ih hbefore, ?_⟩
    cases step with
    | functionNamed name =>
      -- Functions are looked for by name in the program only.
      cases before with
      | program q =>
        obtain rfl := Program.eq_of_follow? hbefore
        obtain ⟨f, hf, -⟩ := Option.map_eq_some_iff.mp hgo
        obtain rfl : f.name = name := by simpa using List.find?_some hf
        exact hp f (List.mem_of_find?_eq_some hf)
      | _ => simp [Node.go?] at hgo
    | _ => trivial

theorem Path.display_cons (s : PathStep) (ss : Path) :
    ∃ more, Path.display (s :: ss) = s.display ++ more := by
  cases ss with
  | nil => exact ⟨"", by simp [display, String.intercalate_singleton]⟩
  | cons t ts =>
    refine ⟨"." ++ Path.display (t :: ts), ?_⟩
    rw [← String.append_assoc]
    exact String.intercalate_cons_cons

/-- The text of a path in a program begins with a variable, a function or the program. -/
theorem head?_display_of_follow? {p : Program} {path : Path} {node : Node}
    (h : p.follow? path = some node) : path.display.toList.head? ≠ some 'a' := by
  cases path with
  | nil => simp [Path.display]
  | cons s ss =>
    obtain ⟨more, hmore⟩ := Path.display_cons s ss
    rw [hmore]
    cases s with
    | «variable» | function | functionNamed => simp [PathStep.display, indexed]
    | _ => simp [Program.follow?, Node.go?] at h

/-! ## Messages -/

/-- How the message of a failed comparison begins. -/
def comparison : String := "assertion `left == right` failed: "

/-- **The path in a message**, as a text: it stands before the first colon, after what the
message of a comparison begins with. -/
def placeIn (message : String) : String :=
  let text := message.toList
  String.ofList ((if comparison.toList <+: text then text.drop comparison.toList.length
    else text)
    |>.takeWhile (· ≠ ':'))

/-- A text that begins with a place and a colon. -/
def Begins (place text : String) : Prop := ∃ rest, text = place ++ (": " ++ rest)

section PlaceIn

variable {place text : String}

theorem Begins.takeWhile_eq (h : Begins place text) (hplace : ':' ∉ place.toList)
    (more : List Char) : (text.toList ++ more).takeWhile (· ≠ ':') = place.toList := by
  obtain ⟨rest, rfl⟩ := h
  rw [String.toList_append, List.append_assoc, List.takeWhile_append_of_pos]
  · simp
  · intro c hc
    simpa using ne_of_mem_of_not_mem hc hplace

/-- The place in a message that is no comparison. -/
theorem Begins.placeIn_eq (h : Begins place text) (hplace : ':' ∉ place.toList)
    (hhead : place.toList.head? ≠ some 'a') : placeIn text = place := by
  have hnot : ¬ comparison.toList <+: text.toList := by
    rintro ⟨more, hmore⟩
    have hfirst : text.toList.head? = some 'a' := by
      rw [← hmore]
      rfl
    obtain ⟨rest, rfl⟩ := h
    cases hchars : place.toList with
    | nil => simp [hchars] at hfirst
    | cons c cs =>
      rw [hchars] at hhead
      rw [String.toList_append, hchars] at hfirst
      exact hhead hfirst
  have htake := h.takeWhile_eq hplace []
  rw [List.append_nil] at htake
  rw [placeIn]
  simp only [if_neg hnot, htake, String.ofList_toList]

/-- The place in the message of a comparison. -/
theorem Begins.placeIn_unequal (h : Begins place text) (hplace : ':' ∉ place.toList)
    (left right : String) : placeIn (unequal text left right) = place := by
  have heq : unequal text left right
      = comparison ++ (text ++ ("\n  left: " ++ (left ++ ("\n right: " ++ right)))) := by
    unfold unequal comparison
    simp only [String.append_assoc]
  have hchars : (unequal text left right).toList = comparison.toList
      ++ (text.toList ++ ("\n  left: " ++ (left ++ ("\n right: " ++ right))).toList) := by
    rw [heq, String.toList_append, String.toList_append]
  have hpre : comparison.toList <+: (unequal text left right).toList := by
    rw [hchars]
    exact List.prefix_append _ _
  have hdrop : (unequal text left right).toList.drop comparison.toList.length
      = text.toList ++ ("\n  left: " ++ (left ++ ("\n right: " ++ right))).toList := by
    rw [hchars]
    exact List.drop_left
  rw [placeIn]
  simp only [if_pos hpre, hdrop, h.takeWhile_eq hplace, String.ofList_toList]

end PlaceIn

/-- **The path can be read off the message**, except for some messages about the program. -/
theorem Failure.placeIn_message {f : Failure} (hpath : f.path ≠ [])
    (hnamed : ∀ name present, f.fault ≠ .noFunctionNamed name present)
    (hcolon : ':' ∉ f.path.display.toList) (hhead : f.path.display.toList.head? ≠ some 'a') :
    placeIn f.message = f.path.display := by
  obtain ⟨path, fault⟩ := f
  cases fault with
  | count list expected present =>
    have hempty : path.isEmpty = false := by simpa using hpath
    cases list with
    | arguments =>
      simp only [Failure.message]
      exact Begins.placeIn_unequal ⟨_, by simp only [String.append_assoc]; rfl⟩ hcolon _ _
    | _ =>
      simp only [Failure.message, hempty, Bool.false_eq_true, if_false]
      exact Begins.placeIn_unequal ⟨_, by simp only [String.append_assoc]; rfl⟩ hcolon _ _
  | noFunctionNamed name present => exact absurd rfl (hnamed name present)
  | name | type | returnType | target | text =>
    simp only [Failure.message]
    exact Begins.placeIn_unequal ⟨_, by simp only [String.append_assoc]; rfl⟩ hcolon _ _
  | outOfBounds | hasInitializer | lacksInitializer | notEmpty | statement | noElseBlock
  | expression =>
    simp only [Failure.message]
    exact Begins.placeIn_eq ⟨_, by simp only [String.append_assoc]; rfl⟩ hcolon hhead

/-! ## Failed checks -/

/-- **A text that leads to a node of a program**: it is how a path is written, the path leads
to the node, and no other path in the program is written so. -/
structure PointsTo (p : Program) (text : String) (path : Path) (node : Node) : Prop where
  display_eq : path.display = text
  follow?_eq : p.follow? path = some node
  unique : ∀ path', path'.display = text → (p.follow? path').isSome → path' = path

/-- A step that is not made on the program itself. -/
def Attempt.BelowProgram (a : Attempt) : Prop := ∀ p step, a ≠ .onProgram p step

section BelowProgram

variable {a : Attempt}

theorem Attempt.BelowProgram.node_ne (h : a.BelowProgram) (p : Program) :
    a.node ≠ .program p := by
  cases a with
  | onProgram q step => exact absurd rfl (h q step)
  | _ => exact nofun

theorem Attempt.BelowProgram.fault_ne (h : a.BelowProgram) (name : String)
    (present : List String) : a.fault ≠ .noFunctionNamed name present := by
  cases a with
  | onProgram q step => exact absurd rfl (h q step)
  | onVariable _ _ step | onFunction _ _ step | onBlock _ _ step | onStatement _ _ step
  | onAssignment _ _ _ step | onConditional _ _ _ _ step | onExpression _ _ step
  | onOperands _ _ _ _ step | onCall _ _ _ step => cases step <;> exact nofun

/-- **The message of a located step leads to its node**, if it fails. -/
theorem Attempt.Located.pointsTo {p : Program} (hp : ∀ f ∈ p.functions, IsWord f.name.toList)
    (h : a.Located p) (hbelow : a.BelowProgram) :
    PointsTo p (placeIn a.failure.message) a.path a.node := by
  have hworded := worded_of_follow? hp h
  have hpath : a.path ≠ [] := by
    intro hnil
    rw [Attempt.Located, hnil, Program.follow?_nil] at h
    exact hbelow.node_ne p (Option.some.inj h).symm
  have hplace : placeIn a.failure.message = a.path.display :=
    Failure.placeIn_message hpath hbelow.fault_ne (Path.colon_not_mem_display hworded)
      (head?_display_of_follow? h)
  refine ⟨hplace.symm, h, fun path' hdisplay hfollow => ?_⟩
  obtain ⟨node', hnode'⟩ := Option.isSome_iff_exists.mp hfollow
  exact Path.display_inj (worded_of_follow? hp hnode') hworded (hdisplay.trans hplace)

end BelowProgram

/-- **A failed check names the node that failed.** It fails as the first step, in the order of
execution, that does not hold. And the message of a step below the program leads to the node
that the step is made on, and to no other. It is enough for this that the functions have words
for names; no path holds another name. -/
theorem failure_names_node {p : Program}
    (hp : ∀ f ∈ p.functions, IsWord f.name.toList) {steps : List ProgramStep} {f : Failure}
    (h : ProgramStep.checkAll p steps = .error f) :
    (∃ a, FirstFailing (attempted (steps.map (.onProgram p))) a ∧ f = a.failure)
      ∧ ∀ a ∈ attempted (steps.map (.onProgram p)), a.BelowProgram →
        PointsTo p (placeIn a.failure.message) a.path a.node := by
  rw [ProgramStep.checkAll_eq] at h
  constructor
  · obtain ⟨hok, -⟩ | ⟨a, hfirst, herror⟩ := checkEach_spec (steps.map (.onProgram p))
    · rw [hok] at h
      cases h
    · exact ⟨a, hfirst, Except.error.inj (h.symm.trans herror)⟩
  · intro a ha hbelow
    have hroot : ∀ b ∈ steps.map (Attempt.onProgram p), b.Located p := by
      rw [List.forall_mem_map]
      exact fun _ _ => Program.follow?_nil p
    exact (located_of_mem_attempted hroot a ha).pointsTo hp hbelow

/-- A loop is expected where an assignment stands. -/
theorem failure_names_node_loop :
    let s : Statement := .assignment "t" (.intConstant 1)
    let p : Program := ⟨[], [⟨.void, "f", [], ⟨[], [s]⟩⟩]⟩
    let steps : List ProgramStep := [.function 0 [.name "f", .body [.statement 0 [.whileLoop []]]]]
    let f : Failure := ⟨[.function 0, .body, .statement 0], .statement .whileLoop s⟩
    ProgramStep.checkAll p steps = .error f
      ∧ placeIn f.message = "functions[0].body.statements[0]"
      ∧ ∃ a, FirstFailing (attempted (steps.map (.onProgram p))) a ∧ f = a.failure
        ∧ PointsTo p (placeIn f.message) a.path a.node := by
  intro s p steps f
  have hcheck : ProgramStep.checkAll p steps = .error f := rfl
  obtain ⟨⟨a, hfirst, hf⟩, hpoints⟩ := failure_names_node (by decide) hcheck
  have hmem : a ∈ attempted (steps.map (.onProgram p)) := by
    obtain ⟨before, after, heq, -⟩ := hfirst
    exact heq ▸ List.mem_append_right _ List.mem_cons_self
  have hbelow : a.BelowProgram := by
    rintro q step rfl
    cases congrArg Failure.path hf
  exact ⟨hcheck, by decide +kernel, a, hfirst, hf, hf ▸ hpoints a hmem hbelow⟩

end ImpFront.Check
