import ImpFront.Source.Bytes
import ImpFront.SyntaxTree.Kind

/-!
# Syntax trees

A `SyntaxTree` records how a source was read, and nothing of what it means: one
node per rule that matched and one leaf per token that carries meaning, each
with its span and the source text that the span covers.

Nothing in the type ties text, span and children together, so that trees can
also be put together by hand; `SyntaxTree.ofShape` is where they come from when
a source is parsed. The grammar decides a `TreeShape` – kinds, spans and
children – and the texts are cut from the source afterwards.
-/

namespace ImpFront

/-- **A node of a syntax tree.** -/
structure SyntaxTree where
  /-- The rule or token that the node stands for. -/
  kind : NodeKind
  /-- Where the node stands in the source. -/
  span : Span
  /-- The source text of the node. -/
  text : String
  /-- The parts, in the order of the source. -/
  children : List SyntaxTree

namespace SyntaxTree

/-- A node without children. -/
def leaf (kind : NodeKind) (span : Span) (text : String) : SyntaxTree :=
  ⟨kind, span, text, []⟩

/-- Whether a node has no children. -/
def isLeaf (t : SyntaxTree) : Bool := t.children.isEmpty

/-- The children of a kind, in order. -/
def childrenOf (t : SyntaxTree) (kind : NodeKind) : List SyntaxTree :=
  t.children.filter (·.kind = kind)

/-- The first child of a kind. -/
def child? (t : SyntaxTree) (kind : NodeKind) : Option SyntaxTree :=
  t.children.find? (·.kind = kind)

/-- The first child that is an expression. -/
def expressionChild? (t : SyntaxTree) : Option SyntaxTree :=
  t.children.find? (·.kind.isExpression)

theorem mem_of_child? {t c : SyntaxTree} {kind : NodeKind} (h : t.child? kind = some c) :
    c ∈ t.children :=
  List.mem_of_find?_eq_some h

theorem kind_of_child? {t c : SyntaxTree} {kind : NodeKind} (h : t.child? kind = some c) :
    c.kind = kind := by
  simpa using List.find?_some h

theorem mem_of_expressionChild? {t c : SyntaxTree} (h : t.expressionChild? = some c) :
    c ∈ t.children :=
  List.mem_of_find?_eq_some h

/-- A child is a smaller tree. -/
theorem sizeOf_lt_of_mem {t c : SyntaxTree} (h : c ∈ t.children) : sizeOf c < sizeOf t := by
  have := List.sizeOf_lt_of_mem h
  cases t
  simp only [mk.sizeOf_spec] at *
  omega

/-- A tree is smaller than a list that starts with it. -/
theorem sizeOf_lt_cons (t : SyntaxTree) (ts : List SyntaxTree) : sizeOf t < sizeOf (t :: ts) := by
  rw [List.cons.sizeOf_spec]
  omega

/-- A list is smaller than it was with one more tree in front. -/
theorem sizeOf_rest_lt_cons (t : SyntaxTree) (ts : List SyntaxTree) :
    sizeOf ts < sizeOf (t :: ts) := by
  rw [List.cons.sizeOf_spec]
  omega

/-- The children of a tree are smaller than the tree. -/
theorem sizeOf_children_lt (t : SyntaxTree) : sizeOf t.children < sizeOf t := by
  cases t
  simp only [mk.sizeOf_spec]
  omega

/-! ## Walking a tree -/

mutual
/-- **The nodes of a tree**, each before its children. -/
def preorder : SyntaxTree → List SyntaxTree
  | ⟨kind, span, text, children⟩ => ⟨kind, span, text, children⟩ :: preorderAll children

/-- The nodes of several trees, one tree after another. -/
def preorderAll : List SyntaxTree → List SyntaxTree
  | [] => []
  | t :: ts => t.preorder ++ preorderAll ts
end

/-! ## Equality of trees -/

mutual
/-- Compares two trees. -/
def decEq : (a b : SyntaxTree) → Decidable (a = b)
  | ⟨k, s, t, cs⟩, ⟨k', s', t', cs'⟩ =>
    match decEqAll cs cs' with
    | isFalse h => isFalse fun e => h (by injection e)
    | isTrue h =>
      if hr : k = k' ∧ s = s' ∧ t = t' then
        isTrue (by rw [hr.1, hr.2.1, hr.2.2, h])
      else isFalse fun e => hr (by injection e; exact ⟨‹_›, ‹_›, ‹_›⟩)

/-- Compares two lists of trees. -/
def decEqAll : (as bs : List SyntaxTree) → Decidable (as = bs)
  | [], [] => isTrue rfl
  | [], _ :: _ => isFalse nofun
  | _ :: _, [] => isFalse nofun
  | a :: as, b :: bs =>
    match decEq a b, decEqAll as bs with
    | isTrue h, isTrue h' => isTrue (by rw [h, h'])
    | isFalse h, _ => isFalse fun e => h (by injection e)
    | _, isFalse h => isFalse fun e => h (by injection e)
end

instance : DecidableEq SyntaxTree := decEq

end SyntaxTree

/-! ## Shapes -/

/-- **The shape of a syntax tree**: what the grammar decides, without the
texts. -/
structure TreeShape where
  /-- The rule or token that the node stands for. -/
  kind : NodeKind
  /-- Where the node stands in the source. -/
  span : Span
  /-- The parts, in the order of the source. -/
  children : List TreeShape

namespace SyntaxTree

mutual
/-- **Cuts the text of every node from the source.** -/
def ofShape (source : List Char) : TreeShape → SyntaxTree
  | ⟨kind, span, children⟩ =>
    ⟨kind, span, String.ofList (slice source span), ofShapes source children⟩

/-- The same for several shapes. -/
def ofShapes (source : List Char) : List TreeShape → List SyntaxTree
  | [] => []
  | s :: ss => ofShape source s :: ofShapes source ss
end

@[simp] theorem ofShapes_eq_map (source : List Char) (ss : List TreeShape) :
    ofShapes source ss = ss.map (ofShape source) := by
  induction ss with
  | nil => simp [ofShapes]
  | cons s ss ih => simp [ofShapes, ih]

@[simp] theorem kind_ofShape (source : List Char) (s : TreeShape) :
    (ofShape source s).kind = s.kind := by
  cases s; simp [ofShape]

@[simp] theorem span_ofShape (source : List Char) (s : TreeShape) :
    (ofShape source s).span = s.span := by
  cases s; simp [ofShape]

@[simp] theorem text_ofShape (source : List Char) (s : TreeShape) :
    (ofShape source s).text = String.ofList (slice source s.span) := by
  cases s; simp [ofShape]

@[simp] theorem children_ofShape (source : List Char) (s : TreeShape) :
    (ofShape source s).children = s.children.map (ofShape source) := by
  cases s; simp [ofShape]

end SyntaxTree

end ImpFront
