import ImpFront.Format.Document
import ImpFront.Format.Yaml.Scalar

/-!
# YAML

Documents as YAML texts in block style. A part that fits into one line stands
behind its key; a record stands below its key, indented by two spaces, and a
list stands below its key, without indentation, each member behind a dash. Lines
are never folded.
-/

namespace ImpFront.Yaml

/-- A document that fits into one line. -/
def inline? : Document → Option String
  | .text s => some (String.ofList (scalar s.toList))
  | .int n => some (toString n)
  | .bool b => some (if b then "true" else "false")
  | .list [] => some "[]"
  | .record [] => some "\x7b\x7d"
  | .list _ | .record _ => none

/-- Lines indented by one level. -/
def indent (lines : List String) : List String := lines.map ("  " ++ ·)

/-- The lines of a member of a list, behind a dash. -/
def behindDash : List String → List String
  | [] => []
  | line :: lines => ("- " ++ line) :: indent lines

/-- The lines of a part, given the lines of its value. -/
def behindKey (key : String) (value : Document) (lines : List String) : List String :=
  let key := String.ofList (scalar key.toList)
  match inline? value, value with
  | some text, _ => [key ++ ": " ++ text]
  | none, .list _ => (key ++ ":") :: lines
  | none, _ => (key ++ ":") :: indent lines

mutual
/-- **The lines of a document.** -/
def lines : Document → List String
  | .list [] => ["[]"]
  | .list (d :: ds) => itemLines (d :: ds)
  | .record [] => ["\x7b\x7d"]
  | .record (f :: fs) => fieldLines (f :: fs)
  | d => (inline? d).toList

/-- The lines of the members of a list. -/
def itemLines : List Document → List String
  | [] => []
  | d :: ds => behindDash (lines d) ++ itemLines ds

/-- The lines of the parts of a record. -/
def fieldLines : List Field → List String
  | [] => []
  | ⟨key, value⟩ :: fs => behindKey key value (lines value) ++ fieldLines fs
end

/-- **A document as a YAML text.** -/
def write (d : Document) : String := String.join ((lines d).map (· ++ "\n"))

end ImpFront.Yaml
