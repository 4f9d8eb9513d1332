import ImpFront.Toml.Basic

/-!
# Tables under construction

A table may be mentioned several times before it is complete: by its own header,
by the headers of tables inside it, by names with dots. A `Section` is a table
that remembers how it came about, which decides what may still be added to it:

* a header may name a section once, unless it came about as the container of
  another one;
* a name with dots reaches only through sections that it could have made itself,
  and puts its value only into one that names with dots have made;
* a header in double brackets adds one more section to a list; later headers
  mean the last one of the list;
* nothing is ever added to a value.

The names of a section stand in the order in which they were first mentioned, but
a section that is named by its own header stands where the header is.
-/

namespace ImpFront.Toml

mutual

/-- **A table that may still grow.** -/
structure Section where
  /-- No header has named it yet. -/
  implicit : Bool
  /-- A name with dots has made it. -/
  dotted : Bool
  /-- What it holds so far. -/
  members : List Member

/-- What a name in a section stands for. -/
inductive Part
  | value (v : Value)
  | inner (s : Section)
  | list (first : List Section) (last : Section)

/-- A named part of a section. -/
structure Member where
  /-- The name. -/
  key : String
  /-- What it stands for. -/
  part : Part

end

namespace Section

/-- A section without members. -/
def empty (implicit dotted : Bool) : Section := ⟨implicit, dotted, []⟩

/-- The part of a name. -/
def find? (s : Section) (key : String) : Option Part :=
  (s.members.find? (·.key = key)).map Member.part

/-- Gives a name another part, or its first one. -/
def set (s : Section) (key : String) (part : Part) : Section :=
  if s.members.any (·.key = key) then
    { s with members := s.members.map fun m => if m.key = key then ⟨key, part⟩ else m }
  else { s with members := s.members ++ [⟨key, part⟩] }

/-- Moves a name to the end and gives it another part. -/
def moveToEnd (s : Section) (key : String) (part : Part) : Section :=
  { s with members := s.members.filter (·.key ≠ key) ++ [⟨key, part⟩] }

/-- **Adds a value** under a name with dots: through the sections of the
containers to the name itself. `nested` says whether containers have been passed
already. -/
def addValue (nested : Bool) (containers : List String) (key : String) (v : Value)
    (s : Section) : Option Section :=
  match containers with
  | [] =>
    if s.dotted = nested ∧ (s.find? key).isNone then some (s.set key (.value v)) else none
  | c :: cs =>
    match s.find? c with
    | none => do return s.set c (.inner (← addValue true cs key v (empty true true)))
    | some (.value _) => none
    | some (.inner t) =>
      if t.implicit then do return s.set c (.inner (← addValue true cs key v t)) else none
    | some (.list first last) =>
      do return s.set c (.list first (← addValue true cs key v last))

/-- Changes the section at the end of a path of names, making the ones that are
not there yet. -/
def modifyAt (f : Section → Option Section) (path : List String) (s : Section) :
    Option Section :=
  match path with
  | [] => f s
  | c :: cs =>
    match s.find? c with
    | none => do return s.set c (.inner (← modifyAt f cs (empty true false)))
    | some (.value _) => none
    | some (.inner t) => do return s.set c (.inner (← modifyAt f cs t))
    | some (.list first last) => do return s.set c (.list first (← modifyAt f cs last))

/-- **A header names a section.** It comes last in its container from then on. -/
def openTable (containers : List String) (key : String) : Section → Option Section :=
  modifyAt (fun s =>
    match s.find? key with
    | none => some (s.set key (.inner (empty false false)))
    | some (.inner t) =>
      if t.implicit && !t.dotted then some (s.moveToEnd key (.inner { t with implicit := false }))
      else none
    | some _ => none) containers

/-- **A header in double brackets adds a section to a list.** -/
def openElement (containers : List String) (key : String) : Section → Option Section :=
  modifyAt (fun s =>
    match s.find? key with
    | none => some (s.set key (.list [] (empty false false)))
    | some (.list first last) => some (s.set key (.list (first ++ [last]) (empty false false)))
    | some _ => none) containers

mutual
/-- **The entries of a section.** -/
def toEntries : Section → List Entry
  | ⟨_, _, members⟩ => membersToEntries members

/-- The value of a part. -/
def partToValue : Part → Value
  | .value v => v
  | .inner s => .table s.toEntries
  | .list first last => .array (sectionsToValues first ++ [.table last.toEntries])

/-- The entries of several members. -/
def membersToEntries : List Member → List Entry
  | [] => []
  | ⟨key, part⟩ :: ms => ⟨key, partToValue part⟩ :: membersToEntries ms

/-- The values of several sections. -/
def sectionsToValues : List Section → List Value
  | [] => []
  | s :: ss => .table s.toEntries :: sectionsToValues ss
end

end Section

end ImpFront.Toml
