import KitchenScript.Diagnostic
import KitchenScript.Json.Record

/-!
# Diagnostics in JSON

The fields of a span stand among those of the diagnostic itself.  A diagnostic is therefore an
object and never an array, and the fields it does not know are read before they are passed over:
they have to be readable and must not nest too deep.
-/

namespace KitchenScript

namespace Json

/-- How deep containers may nest where every part of a value is read. -/
def maxDepth : Nat := 127

end Json

namespace Span

/-- One more than the largest line or column. -/
def bound : Nat := UInt32.size

def fieldNames : List String :=
  ["line", "column", "end_line", "end_column"]

def fields (s : Span) : List (String × Json) :=
  [("line", .nat s.first.line), ("column", .nat s.first.column),
    ("end_line", .nat s.last.line), ("end_column", .nat s.last.column)]

def toJson (s : Span) : Json :=
  .object s.fields

def ofJson? (j : Json) : Option Span := do
  match ← j.record? fieldNames with
  | [line, column, endLine, endColumn] =>
    let line ← Json.required? (Json.asNat? bound) line
    let column ← Json.required? (Json.asNat? bound) column
    let endLine ← Json.required? (Json.asNat? bound) endLine
    let endColumn ← Json.required? (Json.asNat? bound) endColumn
    some ⟨⟨line, column⟩, ⟨endLine, endColumn⟩⟩
  | _ => none

end Span

namespace Category

def ofJson? : Json → Option Category :=
  Json.asName? false [(syntactic.name, syntactic), (structural.name, structural)]

end Category

namespace Diagnostic

def toJson (d : Diagnostic) : Json :=
  .object <|
    [("file", .text d.file), ("code", .nat d.code.number), ("category", .text d.category.name),
      ("message", .text d.message)]
      ++ d.span.fields
      ++ [("source_line", .text d.sourceLine)]
      ++ (d.suggestion.map fun s => ("suggestion", Json.text s)).toList

/-- The fields that are not those of the span. -/
def ownFields : List String :=
  ["file", "code", "category", "message", "source_line", "suggestion"]

/-- A text that may be absent or null. -/
def suggestion? : Option Json → Option (Option String)
  | none => some none
  | some .null => some none
  | some (.text s) => some (some s)
  | some _ => none

/-- The diagnostic of a value that stands inside `around` containers. -/
def ofJson? (around : Nat) (j : Json) : Option Diagnostic := do
  match j with
  | .object fields =>
    let others := fields.filter fun f => !ownFields.contains f.1
    if !others.all fun f => f.2.fits (Json.maxDepth - around - 1) then none
    match ← j.record? ownFields with
    | [file, code, category, message, sourceLine, suggestion] =>
      let file ← Json.required? Json.asText? file
      let code ← Json.required? (Json.asNat? UInt16.size) code
      let category ← Json.required? Category.ofJson? category
      let message ← Json.required? Json.asText? message
      let sourceLine ← Json.required? Json.asText? sourceLine
      let suggestion ← suggestion? suggestion
      let span ← Span.ofJson? (.object others)
      some ⟨file, ⟨code⟩, category, message, span, sourceLine, suggestion⟩
    | _ => none
  | _ => none

end Diagnostic

namespace Diagnostics

def toJson (ds : Diagnostics) : Json :=
  .object [("errors", .array (ds.errors.map Diagnostic.toJson)), ("total_errors", .nat ds.total)]

def ofJson? (j : Json) : Option Diagnostics := do
  match ← j.record? ["errors", "total_errors"] with
  | [errors, total] =>
    let errors ← Json.required? (Json.asList? (Diagnostic.ofJson? 2)) errors
    let total ← Json.required? (Json.asNat? UInt64.size) total
    some ⟨errors, total⟩
  | _ => none

end Diagnostics

end KitchenScript
