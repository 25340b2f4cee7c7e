import ResourceTypes.Json.Record
import ResourceTypes.Json.Value
import ResourceTypes.Schema.Reader
import ResourceTypes.Text.Lines

/-! # Operation logs

A log is a text of lines, each of which is a JSON object with a level, a message and possibly
a diagnostic. `parseLog` reads all lines that are not blank, `LogLine.contribution?` gives what
a line adds to the account of a failure. -/

namespace ResourceTypes

/-- The file that a diagnostic refers to. -/
structure LogRange where
  filename : String := ""
deriving DecidableEq, Repr

/-- The structured part of a log line. -/
structure Diagnostic where
  severity : String := ""
  summary : String := ""
  detail : String := ""
  range : Option LogRange := none
deriving DecidableEq, Repr

/-- One line of a log. -/
structure LogLine where
  level : String := ""
  message : String := ""
  diagnostic : Option Diagnostic := none
deriving DecidableEq, Repr

namespace LogLine

/-- The level and the severity of errors. -/
def errorLevel : String := "error"

/-- The account of an error diagnostic: its summary and detail, and the file if it is known. -/
def account (d : Diagnostic) : String :=
  d.summary ++ ": " ++ d.detail ++
    match d.range with
    | some r => if r.filename.isEmpty then "" else ": File name: " ++ r.filename
    | none => ""

/-- What a line adds to the account of a failure: nothing unless its level is that of errors;
then the account of an error diagnostic that has a summary, else its message. -/
def contribution? (l : LogLine) : Option String :=
  if l.level = errorLevel then
    match l.diagnostic with
    | none => some l.message
    | some d =>
      if d.severity = errorLevel && !d.summary.isEmpty then some (account d)
      else some l.message
  else none

/-! ### As JSON -/

/-- A file as JSON. -/
def rangeToJson (r : LogRange) : Json := .object [("filename", .text r.filename)]

/-- A diagnostic as JSON. -/
def diagnosticToJson (d : Diagnostic) : Json :=
  .object
    [("severity", .text d.severity),
     ("summary", .text d.summary),
     ("detail", .text d.detail),
     ("range", (d.range.map rangeToJson).getD .null)]

/-- A line as JSON. -/
def toJson (l : LogLine) : Json :=
  .object
    [("@level", .text l.level),
     ("@message", .text l.message),
     ("diagnostic", (l.diagnostic.map diagnosticToJson).getD .null)]

/-! ### Reading -/

open Json
open Schema (slot)

/-- How a file is read. -/
def rangeShape : Shape LogRange LogRange where
  title := "struct LogRange"
  slots := [slot "filename" Reader.text fun r t => { r with filename := t }]
  start := {}
  complete := .ok

/-- How a diagnostic is read. -/
def diagnosticShape (fuel : Nat) : Shape Diagnostic Diagnostic where
  title := "struct LogDiagnostic"
  slots :=
    [slot "severity" Reader.text fun d t => { d with severity := t },
     slot "summary" Reader.text fun d t => { d with summary := t },
     slot "detail" Reader.text fun d t => { d with detail := t },
     slot "range" (Reader.optional (Reader.record fuel true rangeShape))
       fun d r => { d with range := r }]
  start := {}
  complete := .ok

/-- How a line is read. -/
def shape (fuel : Nat) : Shape LogLine LogLine where
  title := "struct LogLine"
  slots :=
    [slot "@level" Reader.text fun l t => { l with level := t },
     slot "@message" Reader.text fun l t => { l with message := t },
     slot "diagnostic" (Reader.optional (Reader.record fuel true (diagnosticShape fuel)))
       fun l d => { l with diagnostic := d }]
  start := {}
  complete := .ok

/-- Reads one line. -/
def parse (s : List Char) : Except ReadError LogLine :=
  readAll (Reader.record (fuelFor s) true (shape (fuelFor s))) s

end LogLine

/-- The lines of a log that are not blank, trimmed. -/
def logTexts (s : List Char) : List (List Char) :=
  ((Text.pieces '\n' s).map Text.trim).filter fun line => !line.isEmpty

/-- Reads a log; the first line that cannot be read decides the error. -/
def parseLog (s : List Char) : Except Json.ReadError (List LogLine) :=
  (logTexts s).mapM LogLine.parse

end ResourceTypes
