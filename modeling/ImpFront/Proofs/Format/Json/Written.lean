import ImpFront.Format.Registry
import ImpFront.Proofs.Format.Document
import ImpFront.Proofs.Format.Json.Grammar
import ImpFront.Proofs.Number.Decimal
import Mathlib.Data.List.Basic
import Mathlib.Tactic.Common

/-!
# What is written as JSON is read back

The text of a document is JSON, and stands for that document and no other
(`denotes_write`). With the document, a program is known (`json_lossless`): whatever
characters there are in its names, nothing of it is lost in JSON.

The proof goes from the inside out, as documents are written. Each text is read as what
it was written for, and as nothing else (`Reads`), whatever follows: only a number does
not tell by itself where it ends, so nothing may follow that goes on with one. That the
text is read as *nothing else* is carried along all the way. A part of a list that could
be read in two ways might end in two places, and the rest of the list would be read from
either.
-/

namespace ImpFront

namespace Json

open Toml (charOfCode?)

/-! ## Strings -/

theorem charOfCode?_toNat (c : Char) : charOfCode? c.toNat = some c := by
  have hvalid : c.toNat.isValidChar := c.valid
  rw [charOfCode?, dif_pos hvalid]
  rfl

/-- The code of a control character is written with two digits. -/
theorem codeUnit?_control {n : Nat} (h : n < 32) :
    codeUnit? ['0', '0', hexDigit (n / 16), hexDigit (n % 16)] = some n := by
  revert n
  decide

/-- A character that stands for itself. -/
theorem letter?_plain {c : Char} {rest : List Char} (hcontrol : 32 ≤ c.toNat) (hquote : c ≠ '"')
    (hbackslash : c ≠ '\\') : letter? (c :: rest) = some (c, rest) := by
  unfold letter?
  split <;> simp_all

/-- **A character that is written in a string is read back.** -/
theorem letter?_escape (c : Char) (rest : List Char) :
    letter? (escape c ++ rest) = some (c, rest) := by
  unfold escape
  split_ifs with hquote hbackslash hb ht hn hf hr hcontrol
  any_goals (subst c; rfl)
  · show coded? (['0', '0', _, _] ++ rest) = _
    rw [coded?, List.take_left' (by rfl), List.drop_left' (by rfl), codeUnit?_control hcontrol]
    simp [charOfCode?_toNat]
  · exact letter?_plain (by omega) hquote hbackslash

/-- **A string that is written is read back.** -/
theorem chars_escape {s s' : List Char} {rest rest' : List Char} :
    Chars (s.flatMap escape ++ '"' :: rest) s' rest' ↔ s' = s ∧ rest' = rest := by
  induction s generalizing s' with
  | nil =>
    constructor
    · intro h
      cases h with
      | done => exact ⟨rfl, rfl⟩
      | more hc => simp [letter?] at hc
    · rintro ⟨rfl, rfl⟩
      exact .done
  | cons c s ih =>
    have hletter := letter?_escape c (s.flatMap escape ++ '"' :: rest)
    rw [List.flatMap_cons, List.append_assoc]
    constructor
    · intro h
      generalize hcs : escape c ++ (s.flatMap escape ++ '"' :: rest) = cs at h hletter
      cases h with
      | done => simp [letter?] at hletter
      | more hc h =>
        rw [hletter, Option.some_inj, Prod.mk.injEq] at hc
        obtain ⟨rfl, rfl⟩ := hc
        obtain ⟨rfl, rfl⟩ := ih.mp h
        exact ⟨rfl, rfl⟩
    · rintro ⟨rfl, rfl⟩
      exact .more hletter (ih.mpr ⟨rfl, rfl⟩)

/-! ## Numbers -/

/-- An integer is written as a whole number. -/
theorem whole_toString (n : Int) : Whole (toString n).toList n := by
  have hnatural (m : Nat) : Natural (Nat.toDigits 10 m) m :=
    ⟨Decimal.readNat?_toDigits m, Decimal.toDigits_of_head?_eq_zero⟩
  cases n with
  | ofNat m =>
    have htext : (toString (Int.ofNat m)).toList = Nat.toDigits 10 m :=
      Decimal.toList_toString_of_nonneg (Int.natCast_nonneg m)
    rw [htext]
    exact .natural (hnatural m)
  | negSucc m =>
    rw [Decimal.toList_toString_negSucc]
    exact .negative (hnatural (m + 1))

/-- A whole number is read as it. -/
theorem Whole.readInt? {text : List Char} {n : Int} (h : Whole text n) :
    Decimal.readInt? text = some n := by
  cases h with
  | natural h =>
    obtain ⟨⟨hne, hdigits⟩, rfl⟩ := Decimal.readNat?_eq_some.mp h.reads
    exact Decimal.readInt?_of_digits hne hdigits
  | negative h =>
    rw [Decimal.readInt?, h.reads]
    rfl

/-- Signs and digits are all there is in a whole number. -/
theorem Whole.forall {text : List Char} {n : Int} (h : Whole text n) :
    ∀ c ∈ text, c = '-' ∨ c.isDigit = true := by
  have hnatural {digits : List Char} {n : Nat} (h : Natural digits n) :
      ∀ c ∈ digits, c = '-' ∨ c.isDigit = true := fun c hc =>
    .inr (List.all_eq_true.mp (Decimal.readNat?_eq_some.mp h.reads).1.2 c hc)
  cases h with
  | natural h => exact hnatural h
  | negative h => exact List.forall_mem_cons.mpr ⟨.inl rfl, hnatural h⟩

/-- **A number that is written is read back.** -/
theorem number_toString {n : Int} {v : Option Int} :
    Number (toString n).toList v ↔ v = some n := by
  have hwhole := whole_toString n
  constructor
  · generalize (toString n).toList = text at hwhole
    intro h
    -- A fraction or an exponent begins with a character that it has not.
    cases h with
    | whole h => rw [← h.readInt?, hwhole.readInt?]
    | fraction | both => exact absurd (hwhole.forall '.' (by simp)) (by decide)
    | exponent _ hexponent =>
      obtain ⟨rfl | rfl, -⟩ := hexponent
      · exact absurd (hwhole.forall 'e' (by simp)) (by decide)
      · exact absurd (hwhole.forall 'E' (by simp)) (by decide)
  · rintro rfl
    exact .whole hwhole

/-! ## Values by their first characters -/

/-- A number begins with a character that numbers are made of. -/
theorem Number.ne_nil {v : Option Int} : ¬ Number [] v := by
  intro h
  have hwhole {n : Int} : ¬ Whole [] n := fun h => by cases h.readInt?
  generalize htext : [] = text at h
  cases h with
  | whole h =>
    subst htext
    exact hwhole h
  | fraction | both => simp at htext
  | exponent _ hexponent =>
    obtain ⟨-, -⟩ := hexponent
    simp at htext

section Value

variable {c : Char} {cs rest rest' : List Char} {v : Option Document}

/-- **The first character tells what a value is.** -/
theorem value_iff : Value (c :: cs) v rest ↔
    (c ∈ ['n', 't', 'f'] ∧ ∃ word, (word, v) ∈ words ∧ c :: cs = word.toList ++ rest)
      ∨ (c = '"' ∧ ∃ s, Chars cs s rest ∧ v = some (.text (.ofList s)))
      ∨ (isNumberPart c = true ∧ ∃ n, Number ((c :: cs).takeWhile isNumberPart) n
        ∧ v = n.map .int ∧ rest = (c :: cs).dropWhile isNumberPart)
      ∨ (c = '[' ∧ ∃ items, Bracketed Value ']' (skip cs) items rest ∧ v = items.map .list)
      ∨ (c = '\x7b' ∧ ∃ fields, Bracketed (Member Value) '\x7d' (skip cs) fields rest
        ∧ v = fields.map .record) := by
  constructor
  · intro h
    generalize hcs : c :: cs = cs' at h
    cases h with
    | word h =>
      refine .inl ⟨?_, _, h, rfl⟩
      simp only [words, List.mem_cons, Prod.mk.injEq, List.not_mem_nil, or_false] at h
      rcases h with ⟨rfl, -⟩ | ⟨rfl, -⟩ | ⟨rfl, -⟩ <;> simp_all
    | text h =>
      cases hcs
      exact .inr (.inl ⟨rfl, _, h, rfl⟩)
    | number h =>
      subst hcs
      refine .inr (.inr (.inl ⟨?_, _, h, rfl, rfl⟩))
      by_contra hc
      rw [List.takeWhile_cons_of_neg hc] at h
      exact Number.ne_nil h
    | list h =>
      cases hcs
      exact .inr (.inr (.inr (.inl ⟨rfl, _, h, rfl⟩)))
    | record h =>
      cases hcs
      exact .inr (.inr (.inr (.inr ⟨rfl, _, h, rfl⟩)))
  · rintro (⟨-, word, h, hcs⟩ | ⟨rfl, s, h, rfl⟩ | ⟨-, n, h, rfl, rfl⟩ | ⟨rfl, items, h, rfl⟩
      | ⟨rfl, fields, h, rfl⟩)
    · rw [hcs]
      exact .word h
    · exact .text h
    · exact .number h
    · exact .list h
    · exact .record h

theorem value_text : Value ('"' :: cs) v rest
    ↔ ∃ s, Chars cs s rest ∧ v = some (.text (.ofList s)) := by
  simp [value_iff, show isNumberPart '"' = false from rfl]

theorem value_list : Value ('[' :: cs) v rest
    ↔ ∃ items, Bracketed Value ']' (skip cs) items rest ∧ v = items.map .list := by
  simp [value_iff, show isNumberPart '[' = false from rfl]

theorem value_record : Value ('\x7b' :: cs) v rest
    ↔ ∃ fields, Bracketed (Member Value) '\x7d' (skip cs) fields rest
      ∧ v = fields.map .record := by
  simp [value_iff, show isNumberPart '\x7b' = false from rfl]

theorem value_number (hc : isNumberPart c = true) : Value (c :: cs) v rest
    ↔ ∃ n, Number ((c :: cs).takeWhile isNumberPart) n
      ∧ v = n.map .int ∧ rest = (c :: cs).dropWhile isNumberPart := by
  have hne (c' : Char) (hc' : isNumberPart c' = false) : c ≠ c' := by
    rintro rfl
    rw [hc] at hc'
    cases hc'
  simp [value_iff, hc, hne '"' rfl, hne '[' rfl, hne '\x7b' rfl, hne 'n' rfl, hne 't' rfl,
    hne 'f' rfl]

theorem value_bool {b : Bool} : Value ((if b then "true" else "false").toList ++ rest) v rest'
    ↔ v = some (.bool b) ∧ rest' = rest := by
  cases b <;>
    simp [value_iff, words, isNumberPart, or_and_right, exists_or, eq_comm]

end Value

/-! ## What is written, read back -/

/-- No number goes on in the text. -/
def Ended (cs : List Char) : Prop := ∀ c ∈ cs.head?, isNumberPart c = false

/-- The text is not empty, and begins with no blank. -/
def Opens (text : List Char) : Prop := ∃ c cs, text = c :: cs ∧ isSpace c = false

/-- **The text is read as a part**, and as nothing else, if what follows does not go on
with a number. -/
structure Reads {α : Type} (Part : List Char → Option α → List Char → Prop) (text : String)
    (a : α) : Prop where
  /-- The part begins where the text does. -/
  opens : Opens text.toList
  /-- The part is all that is read. -/
  iff {rest rest' : List Char} {v : Option α} (hrest : Ended rest) :
    Part (text.toList ++ rest) v rest' ↔ v = some a ∧ rest' = rest

theorem skip_cons {c : Char} (cs : List Char) (hc : isSpace c = false) : skip (c :: cs) = c :: cs :=
  List.dropWhile_cons_of_neg (by simp [hc])

/-- More text behind it does not change how a text begins. -/
theorem Opens.append {text : List Char} (h : Opens text) (rest : List Char) :
    Opens (text ++ rest) := by
  obtain ⟨c, cs, rfl, hc⟩ := h
  exact ⟨c, cs ++ rest, rfl, hc⟩

theorem Opens.skip_eq {text : List Char} (h : Opens text) : skip text = text := by
  obtain ⟨c, cs, rfl, hc⟩ := h
  exact skip_cons cs hc

/-- A new line is blank. -/
theorem skip_newLine (level : Nat) (rest : List Char) :
    skip ((newLine level).toList ++ rest) = skip rest := by
  refine List.dropWhile_append_of_pos fun c hc => ?_
  simp only [newLine, String.toList_ofList, List.mem_cons, List.mem_replicate] at hc
  rcases hc with rfl | ⟨-, rfl⟩ <;> rfl

theorem ended_newLine (level : Nat) (rest : List Char) :
    Ended ((newLine level).toList ++ rest) := by
  simp [Ended, newLine, isNumberPart]

/-! ### Parts between brackets -/

/-- **The bracket closes the parts.** It is none of the other tokens that may stand there. -/
structure Closes {α : Type} (Part : List Char → Option α → List Char → Prop) (closing : Char) :
    Prop where
  space : isSpace closing = false
  comma : closing ≠ ','
  part {cs rest : List Char} {v : Option α} : ¬ Part (closing :: cs) v rest

section Parts

variable {α : Type} {Part : List Char → Option α → List Char → Prop} {closing : Char}
  {texts : List String} {as : List α} {v : Option (List α)} {rest rest' : List Char}

/-- Behind a part, there is a closing bracket or a comma. -/
theorem parts_append {text : String} {a : α} {cs : List Char} (ha : Reads Part text a)
    (hcs : Ended cs) :
    Parts Part closing (text.toList ++ cs) v rest
      ↔ (skip cs = closing :: rest ∧ v = some [a])
        ∨ ∃ cs' as, skip cs = ',' :: cs' ∧ Parts Part closing (skip cs') as rest
          ∧ v = as.map (a :: ·) := by
  constructor
  · intro h
    cases h with
    | last h hclosing =>
      obtain ⟨rfl, rfl⟩ := (ha.iff hcs).mp h
      exact .inl ⟨hclosing, rfl⟩
    | more h hcomma hmore =>
      obtain ⟨rfl, rfl⟩ := (ha.iff hcs).mp h
      exact .inr ⟨_, _, hcomma, hmore, rfl⟩
  · have h := (ha.iff hcs).mpr ⟨rfl, rfl⟩
    rintro (⟨hclosing, rfl⟩ | ⟨cs', as, hcomma, hmore, rfl⟩)
    · exact .last h hclosing
    · exact .more h hcomma hmore

theorem opens_intercalate (h : List.Forall₂ (Reads Part) texts as) (hne : texts ≠ [])
    (separator : String) : Opens (separator.intercalate texts).toList := by
  cases h with
  | nil => exact absurd rfl hne
  | cons ha hs =>
    cases hs with
    | nil => exact ha.opens
    | cons =>
      rw [String.intercalate_cons_cons, String.append_assoc, String.toList_append]
      exact ha.opens.append _

/-- **Parts that are written one to a line are read back.** -/
theorem parts_intercalate (hc : Closes Part closing) (level : Nat)
    (h : List.Forall₂ (Reads Part) texts as) (hne : texts ≠ []) :
    Parts Part closing ((("," ++ newLine (level + 1)).intercalate texts).toList
      ++ ((newLine level).toList ++ closing :: rest)) v rest' ↔ v = some as ∧ rest' = rest := by
  induction h generalizing v with
  | nil => exact absurd rfl hne
  | @cons text a texts as ha hs ih =>
    cases hs with
    | nil =>
      rw [String.intercalate_singleton, parts_append ha (ended_newLine _ _), skip_newLine,
        skip_cons _ hc.space]
      simp [hc.comma, eq_comm, and_comm]
    | @cons text' a' texts as hb hs =>
      have hmore := List.cons_ne_nil text' texts
      have hended (cs : List Char) : Ended (',' :: cs) := by simp [Ended, isNumberPart]
      rw [String.intercalate_cons_cons, String.toList_append, String.toList_append,
        String.toList_append, List.append_assoc, List.append_assoc, List.append_assoc]
      show Parts Part closing (text.toList ++ (',' :: ((newLine (level + 1)).toList ++ _))) v rest'
        ↔ _
      rw [parts_append ha (hended _), skip_cons _ rfl]
      simp only [List.cons.injEq, hc.comma.symm, false_and, true_and, false_or]
      -- Behind the comma and the new line there are the other parts.
      have hopens := opens_intercalate (.cons hb hs) hmore ("," ++ newLine (level + 1))
      constructor
      · rintro ⟨_, _, rfl, h, rfl⟩
        rw [skip_newLine, (hopens.append _).skip_eq] at h
        obtain ⟨rfl, rfl⟩ := (ih hmore).mp h
        exact ⟨rfl, rfl⟩
      · rintro ⟨rfl, rfl⟩
        refine ⟨_, some (a' :: as), rfl, ?_, rfl⟩
        rw [skip_newLine, (hopens.append _).skip_eq]
        exact (ih hmore).mpr ⟨rfl, rfl⟩

theorem Closes.not_parts {cs : List Char} (hc : Closes Part closing) :
    ¬ Parts Part closing (closing :: cs) v rest := by
  intro h
  cases h with
  | last h | more h => exact hc.part h

/-- Where there are parts, the brackets are not empty. -/
theorem bracketed_iff_parts {cs : List Char} (hc : Closes Part closing)
    (h : Parts Part closing cs (some as) rest) :
    Bracketed Part closing cs v rest' ↔ Parts Part closing cs v rest' := by
  refine ⟨fun h' => ?_, .parts⟩
  cases h' with
  | empty => exact absurd h hc.not_parts
  | parts h' => exact h'

/-- **What is written between brackets is read back.** -/
theorem bracketed_enclose (hc : Closes Part closing) (opening : String) (level : Nat)
    (h : List.Forall₂ (Reads Part) texts as) :
    ∃ inner, (enclose opening (String.singleton closing) level texts).toList
        = opening.toList ++ inner
      ∧ ∀ {rest rest' : List Char} {v : Option (List α)},
        Bracketed Part closing (skip (inner ++ rest)) v rest' ↔ v = some as ∧ rest' = rest := by
  by_cases hne : texts = []
  · subst hne
    cases h
    refine ⟨[closing], by simp [enclose], fun {rest rest' v} => ?_⟩
    rw [List.cons_append, List.nil_append, skip_cons _ hc.space]
    constructor
    · intro h
      cases h with
      | empty => exact ⟨rfl, rfl⟩
      | parts h => exact absurd h hc.not_parts
    · rintro ⟨rfl, rfl⟩
      exact .empty
  · refine ⟨(newLine (level + 1)).toList
      ++ ((("," ++ newLine (level + 1)).intercalate texts).toList
        ++ ((newLine level).toList ++ [closing])), ?_, fun {rest rest' v} => ?_⟩
    · unfold enclose
      simp
    · rw [List.append_assoc, List.append_assoc, List.append_assoc, skip_newLine,
        ((opens_intercalate h hne _).append _).skip_eq]
      rw [List.cons_append, List.nil_append,
        bracketed_iff_parts hc ((parts_intercalate hc level h hne).mpr ⟨rfl, rfl⟩),
        parts_intercalate hc level h hne]

end Parts

/-! ### Documents -/

theorem closes_value : Closes Value ']' where
  space := rfl
  comma := by decide
  part := by simp [value_iff, isNumberPart]

theorem closes_member : Closes (Member Value) '\x7d' where
  space := rfl
  comma := by decide
  part := nofun

theorem toList_quote (s : String) :
    (quote s).toList = '"' :: (s.toList.flatMap escape ++ ['"']) := by
  simp [quote]

theorem reads_quote (s : String) : Reads Value (quote s) (.text s) where
  opens := ⟨_, _, toList_quote s, rfl⟩
  iff _ := by
    rw [toList_quote, List.cons_append, List.append_assoc, List.cons_append, List.nil_append,
      value_text]
    simp [chars_escape, and_comm, eq_comm]

theorem isSpace_of_isNumberPart {c : Char} (h : isNumberPart c = true) : isSpace c = false := by
  by_contra hspace
  simp only [isSpace, Bool.not_eq_false, Bool.or_eq_true, decide_eq_true_eq] at hspace
  rcases hspace with ((rfl | rfl) | rfl) | rfl <;> exact absurd h (by decide)

theorem reads_int (n : Int) : Reads Value (toString n) (.int n) := by
  have hwhole := whole_toString n
  have hparts : ∀ c ∈ (toString n).toList, isNumberPart c = true := by
    intro c hc
    rcases hwhole.forall c hc with rfl | h
    · rfl
    · simp [isNumberPart, h]
  have hnumber {v : Option Int} := number_toString (n := n) (v := v)
  generalize htext : (toString n).toList = text at hwhole hparts hnumber
  match text with
  | [] => cases hwhole.readInt?
  | c :: cs =>
    have hspace : isSpace c = false := isSpace_of_isNumberPart (hparts c (by simp))
    refine ⟨⟨c, cs, htext, hspace⟩, fun {rest rest' v} hrest => ?_⟩
    rw [htext, List.cons_append, value_number (hparts c (by simp)), ← List.cons_append,
      List.takeWhile_append_of_pos hparts, List.dropWhile_append_of_pos hparts]
    have hend : rest.takeWhile isNumberPart = [] ∧ rest.dropWhile isNumberPart = rest := by
      cases rest with
      | nil => exact ⟨rfl, rfl⟩
      | cons c rest => simp [hrest c rfl]
    rw [hend.1, hend.2, List.append_nil]
    simp [hnumber]

theorem reads_bool (b : Bool) : Reads Value (if b then "true" else "false") (.bool b) where
  opens := by cases b <;> exact ⟨_, _, rfl, rfl⟩
  iff _ := value_bool

/-- A part of a record stands on one line. -/
theorem reads_member {text : String} {v : Document} (key : String) (h : Reads Value text v) :
    Reads (Member Value) (quote key ++ ": " ++ text) ⟨key, v⟩ := by
  have htext : (quote key ++ ": " ++ text).toList
      = '"' :: (key.toList.flatMap escape ++ '"' :: ':' :: ' ' :: text.toList) := by
    simp [quote]
  refine ⟨⟨_, _, htext, rfl⟩, fun {rest rest' f} hrest => ?_⟩
  rw [htext, List.cons_append, List.append_assoc, List.cons_append]
  have hblank : skip (' ' :: (text.toList ++ rest)) = text.toList ++ rest :=
    (h.opens.append rest).skip_eq
  constructor
  · rintro ⟨hkey, hcolon, hv⟩
    obtain ⟨rfl, rfl⟩ := chars_escape.mp hkey
    obtain rfl := (List.cons.inj hcolon).2
    obtain ⟨rfl, rfl⟩ := (h.iff hrest).mp (hblank ▸ hv)
    simp
  · rintro ⟨rfl, rfl⟩
    have hkey (rest : List Char) :
        Chars (key.toList.flatMap escape ++ '"' :: rest) key.toList rest :=
      chars_escape.mpr ⟨rfl, rfl⟩
    have hv : Value (skip (' ' :: (text.toList ++ rest'))) (some v) rest' := by
      rw [hblank]
      exact (h.iff hrest).mpr ⟨rfl, rfl⟩
    simpa using Member.mk (hkey _) (skip_cons _ rfl) hv

mutual
/-- **A document that is written is read back.** -/
theorem reads_write (level : Nat) : ∀ d : Document, Reads Value (write level d) d
  | .text s => reads_quote s
  | .int n => reads_int n
  | .bool b => reads_bool b
  | .list items => by
    obtain ⟨inner, hinner, hiff⟩ := bracketed_enclose closes_value "[" level
      (reads_writeItems (level + 1) items)
    have htext : (write level (.list items)).toList = '[' :: inner := hinner
    refine ⟨⟨_, _, htext, rfl⟩, fun _ => ?_⟩
    rw [htext, List.cons_append, value_list]
    simp [hiff, and_comm, eq_comm]
  | .record fields => by
    obtain ⟨inner, hinner, hiff⟩ := bracketed_enclose closes_member "\x7b" level
      (reads_writeFields (level + 1) fields)
    have htext : (write level (.record fields)).toList = '\x7b' :: inner := hinner
    refine ⟨⟨_, _, htext, rfl⟩, fun _ => ?_⟩
    rw [htext, List.cons_append, value_record]
    simp [hiff, and_comm, eq_comm]

theorem reads_writeItems (level : Nat) :
    ∀ ds : List Document, List.Forall₂ (Reads Value) (writeItems level ds) ds
  | [] => .nil
  | d :: ds => .cons (reads_write level d) (reads_writeItems level ds)

theorem reads_writeFields (level : Nat) :
    ∀ fs : List Field, List.Forall₂ (Reads (Member Value)) (writeFields level fs) fs
  | [] => .nil
  | ⟨key, value⟩ :: fs =>
    .cons (reads_member key (reads_write level value)) (reads_writeFields level fs)
end

/-- **A document that is written as a text of its own is read back**, and nothing else is. -/
theorem denotes_write {d : Document} {v : Option Document} :
    Denotes (write 0 d) v ↔ v = some d := by
  have h := reads_write 0 d
  have hread {rest : List Char} {v : Option Document} :
      Value (skip (write 0 d).toList) v rest ↔ v = some d ∧ rest = [] := by
    rw [h.opens.skip_eq, ← List.append_nil (write 0 d).toList]
    exact h.iff (by simp [Ended])
  constructor
  · rintro ⟨rest, hv, -⟩
    exact (hread.mp hv).1
  · rintro rfl
    exact ⟨[], hread.mpr ⟨rfl, rfl⟩, rfl⟩

end Json

/-- **JSON loses nothing.** A program is always written; the text is JSON, and stands for
the document of the program and nothing else; and from that document the program is read
back. -/
theorem json_lossless (p : Program) :
    ∃ text, Formatter.json.serialize p = .ok text
      ∧ (∀ v, Json.Denotes text v ↔ v = some p.toDocument)
      ∧ Program.ofDocument? p.toDocument = some p :=
  ⟨_, rfl, fun _ => Json.denotes_write, p.ofDocument?_toDocument⟩

/-- A name with a quote, a backslash and a control character in it. -/
example : Formatter.json.serialize ⟨[⟨"\"\\\x07", .int, none⟩], []⟩ = .ok
    ("\x7b\n  \"variables\": [\n    \x7b\n      \"name\": \"\\\"\\\\\\u0007\",\n"
      ++ "      \"type\": \"int\"\n    \x7d\n  ],\n  \"functions\": []\n\x7d") := by
  decide +kernel

end ImpFront
