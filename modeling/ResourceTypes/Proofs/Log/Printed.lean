import Mathlib.Data.List.Forall2
import ResourceTypes.Log.Failure
import ResourceTypes.Proofs.Schema.RoundTrip
import ResourceTypes.Proofs.Text.Pieces
import ResourceTypes.Proofs.Text.Trim
import ResourceTypes.Proofs.Text.Utf8

/-! # Printed logs

A line of a log is printed as a JSON object without control characters or blanks at its ends, and
it is read back from there (`LogLine.parse_print`).  So the lines of a printed log are those that
were printed, whatever texts they hold (`parseLog_printed`), and its classification follows from
them alone.

`LogLine.Tells` says in which of five ways an error is told: by the message of the line, unless
there is an error diagnostic with a summary; then by the summary and the detail, and by the file if
it is known.  The lines of errors contribute what tells them (`forall₂_tells`), and no other line
does (`LogLine.contribution?_eq_none_iff`). -/

namespace ResourceTypes

open Json

namespace LogLine

/-! ### Reading a printed line -/

theorem reads_range {fuel : Nat} (enough : 1 < fuel) (r : LogRange) :
    Reads (Reader.record fuel true rangeShape) (rangeToJson r).print r := by
  have fills : FillsSlots rangeShape.slots _ rangeShape.start r :=
    Schema.fills_slot (reads_text r.filename) (.nil r)
  exact fills.reads (List.nodup_singleton _) rfl enough

theorem reads_optional {α : Type} {read : Reader α} {json : α → Json}
    (reads : ∀ a, ∃ entries, json a = .object entries ∧ Reads read (json a).print a)
    (o : Option α) :
    Reads (Reader.optional read) ((o.map json).getD .null).print o := by
  cases o with
  | none => exact reads_optional_null read
  | some a =>
      obtain ⟨entries, object, reads⟩ := reads a
      rw [Option.map_some, Option.getD_some]
      rw [object] at reads ⊢
      exact reads_optional_object reads

theorem reads_diagnostic {fuel : Nat} (enough : 4 < fuel) (d : Diagnostic) :
    Reads (Reader.record fuel true (diagnosticShape fuel)) (diagnosticToJson d).print d := by
  have one : 1 < fuel := Nat.lt_trans (by decide) enough
  have range := reads_optional (fun r => ⟨_, rfl, reads_range one r⟩) d.range
  have fills : FillsSlots (diagnosticShape fuel).slots _ (diagnosticShape fuel).start d :=
    Schema.fills_slot (reads_text d.severity) <| Schema.fills_slot (reads_text d.summary) <|
      Schema.fills_slot (reads_text d.detail) <| Schema.fills_slot range (.nil d)
  have keys : ["severity", "summary", "detail", "range"].Nodup := by decide +kernel
  exact fills.reads keys rfl enough

theorem reads_line {fuel : Nat} (enough : 4 < fuel) (l : LogLine) :
    Reads (Reader.record fuel true (shape fuel)) l.toJson.print l := by
  have diagnostic := reads_optional (fun d => ⟨_, rfl, reads_diagnostic enough d⟩) l.diagnostic
  have fills : FillsSlots (shape fuel).slots _ (shape fuel).start l :=
    Schema.fills_slot (reads_text l.level) <| Schema.fills_slot (reads_text l.message) <|
      Schema.fills_slot diagnostic (.nil l)
  have keys : ["@level", "@message", "diagnostic"].Nodup := by decide +kernel
  exact fills.reads keys rfl (Nat.lt_of_succ_lt enough)

theorem print_cases (l : LogLine) : ∃ inside, l.toJson.print = '\x7b' :: (inside ++ ['\x7d']) :=
  ⟨_, print_object _⟩

/-- A printed line is read back. -/
theorem parse_print (l : LogLine) : parse l.toJson.print = .ok l := by
  have enough : 4 < fuelFor l.toJson.print := by
    obtain ⟨inside, h⟩ := l.print_cases
    rw [fuelFor, h, List.length_cons, List.length_append, List.length_singleton]
    omega
  have read := reads_line enough l []
  rw [List.append_nil] at read
  rw [parse, readAll, read]
  rfl

theorem trimmed_print (l : LogLine) : Text.Trimmed l.toJson.print := by
  obtain ⟨inside, h⟩ := l.print_cases
  rw [h]
  refine ⟨fun c hc => ?_, fun c hc => ?_⟩
  · cases hc
    decide
  · rw [← List.cons_append, List.getLast?_concat] at hc
    cases hc
    decide

end LogLine

/-! ### Reading a printed log -/

/-- The bytes of a log with every line printed on a line of its own. -/
def printedLog (lines : List LogLine) : List UInt8 :=
  Text.encode ("\n".intercalate (lines.map fun l => l.toJson.compact)).toList

theorem toList_printed (lines : List LogLine) :
    ("\n".intercalate (lines.map fun l => l.toJson.compact)).toList =
      ['\n'].intercalate (lines.map fun l => l.toJson.print) := by
  have texts : String.toList ∘ (fun l : LogLine => l.toJson.compact) = fun l => l.toJson.print :=
    funext fun _ => String.toList_ofList
  rw [String.toList_intercalate, List.map_map, texts]
  rfl

theorem logTexts_printed (lines : List LogLine) :
    logTexts (['\n'].intercalate (lines.map fun l => l.toJson.print)) =
      lines.map fun l => l.toJson.print := by
  cases lines with
  | nil => rfl
  | cons l lines =>
      have oneLine : ∀ s ∈ (l :: lines).map fun l => l.toJson.print, '\n' ∉ s := by
        refine List.forall_mem_map.mpr fun l _ control => ?_
        exact absurd (printable_print l.toJson '\n' control) (by decide)
      have trimmed : ∀ s ∈ (l :: lines).map fun l => l.toJson.print, Text.trim s = s :=
        List.forall_mem_map.mpr fun l _ => l.trimmed_print.trim_eq
      have filled : ∀ s ∈ (l :: lines).map fun l => l.toJson.print, (!s.isEmpty) = true := by
        refine List.forall_mem_map.mpr fun l _ => ?_
        obtain ⟨inside, h⟩ := l.print_cases
        rw [h]
        rfl
      rw [List.map_cons] at oneLine trimmed filled ⊢
      obtain ⟨hfirst, hothers⟩ := List.forall_mem_cons.mp oneLine
      rw [logTexts, Text.intercalate_cons, Text.pieces_join hfirst hothers,
        List.map_congr_left trimmed, List.map_id', List.filter_eq_self.mpr filled]

/-- The lines of a printed log are read back. -/
theorem parseLog_printed (lines : List LogLine) :
    parseLog (Text.decodeLossy (printedLog lines)) = .ok lines := by
  rw [printedLog, Text.decodeLossy_encode, toList_printed, parseLog, logTexts_printed]
  induction lines with
  | nil => rfl
  | cons l lines ih =>
      rw [List.map_cons, List.mapM_cons, l.parse_print, ih]
      rfl

/-! ### Telling errors -/

/-- An error is told by the message of its line, or by an error diagnostic that has a summary. -/
inductive LogLine.Tells : LogLine → String → Prop
  | message {l : LogLine} (missing : l.diagnostic = none) : Tells l l.message
  | harmless {l : LogLine} {d : Diagnostic} (found : l.diagnostic = some d)
      (severity : d.severity ≠ "error") : Tells l l.message
  | unsummarized {l : LogLine} {d : Diagnostic} (found : l.diagnostic = some d)
      (summary : d.summary = "") : Tells l l.message
  | summary {l : LogLine} {d : Diagnostic} (found : l.diagnostic = some d)
      (severity : d.severity = "error") (summary : d.summary ≠ "")
      (file : ∀ r ∈ d.range, r.filename = "") : Tells l (d.summary ++ ": " ++ d.detail)
  | located {l : LogLine} {d : Diagnostic} {r : LogRange} (found : l.diagnostic = some d)
      (severity : d.severity = "error") (summary : d.summary ≠ "") (range : d.range = some r)
      (file : r.filename ≠ "") :
      Tells l (d.summary ++ ": " ++ d.detail ++ ": File name: " ++ r.filename)

/-- A line tells an error in one way only. -/
theorem LogLine.Tells.unique {l : LogLine} {account account' : String} (h : l.Tells account)
    (h' : l.Tells account') : account = account' := by
  cases h <;> cases h' <;> simp_all

theorem LogLine.tells_account {l : LogLine} {d : Diagnostic} (found : l.diagnostic = some d)
    (severity : d.severity = "error") (summary : d.summary ≠ "") : l.Tells (account d) := by
  rw [account]
  cases range : d.range with
  | none =>
      rw [String.append_empty]
      exact .summary found severity summary (by simp [range])
  | some r =>
      dsimp only
      by_cases file : r.filename = ""
      · rw [file, if_pos (by decide), String.append_empty]
        exact .summary found severity summary (by simpa [range] using file)
      · rw [if_neg (by simpa using file), ← String.append_assoc]
        exact .located found severity summary range file

theorem LogLine.exists_tells {l : LogLine} (h : l.level = "error") :
    ∃ account, l.contribution? = some account ∧ l.Tells account := by
  have level : l.level = errorLevel := h
  rw [contribution?, if_pos level]
  cases found : l.diagnostic with
  | none => exact ⟨_, rfl, .message found⟩
  | some d =>
      by_cases severity : d.severity = "error"
      · by_cases summary : d.summary = ""
        · exact ⟨_, by simp [summary], .unsummarized found summary⟩
        · exact ⟨_, by simp [severity, summary, errorLevel], tells_account found severity summary⟩
      · exact ⟨_, by simp [severity, errorLevel], .harmless found severity⟩

theorem LogLine.contribution?_eq_none_iff {l : LogLine} :
    l.contribution? = none ↔ l.level ≠ "error" := by
  constructor
  · intro h level
    obtain ⟨account, contributes, -⟩ := exists_tells level
    rw [h] at contributes
    cases contributes
  · exact fun level => if_neg level

/-- Lines contribute what tells the errors among them. -/
theorem forall₂_tells (lines : List LogLine) :
    List.Forall₂ LogLine.Tells (lines.filter fun l => l.level = "error")
      (lines.filterMap LogLine.contribution?) := by
  induction lines with
  | nil => exact .nil
  | cons l lines ih =>
      by_cases h : l.level = "error"
      · obtain ⟨account, contributes, tells⟩ := LogLine.exists_tells h
        rw [List.filter_cons_of_pos (by simpa using h), List.filterMap_cons_some contributes]
        exact .cons tells ih
      · rw [List.filter_cons_of_neg (by simpa using h),
          List.filterMap_cons_none (LogLine.contribution?_eq_none_iff.mpr h)]
        exact ih

/-- Lines report what they contribute when one of them is an error, and else nothing. -/
theorem classifyLines_eq (operation : Operation) (lines : List LogLine) :
    classifyLines operation lines =
      if ∃ l ∈ lines, l.level = "error" then
        some (.reported operation ("\n".intercalate (lines.filterMap LogLine.contribution?)))
      else none := by
  have silent : lines.filterMap LogLine.contribution? = [] ↔ ¬∃ l ∈ lines, l.level = "error" := by
    simp [LogLine.contribution?_eq_none_iff]
  rw [classifyLines]
  by_cases errors : ∃ l ∈ lines, l.level = "error"
  · rw [if_pos errors, if_neg (by rwa [List.isEmpty_iff, silent, not_not])]
  · rw [if_neg errors, if_pos (by rwa [List.isEmpty_iff, silent])]

/-! ### Main statement -/

/-- A printed log has no failure when no line is an error, and otherwise it reports what tells the
errors, in their order. -/
theorem classify_printedLog (operation : Operation) (lines : List LogLine) :
    (classify operation (printedLog lines) = none ↔ ∀ l ∈ lines, l.level ≠ "error") ∧
    ∃! accounts,
      List.Forall₂ LogLine.Tells (lines.filter fun l => l.level = "error") accounts ∧
      classify operation (printedLog lines) =
        if ∃ l ∈ lines, l.level = "error" then
          some (.reported operation ("\n".intercalate accounts))
        else none := by
  have told := forall₂_tells lines
  have classified : classify operation (printedLog lines) = classifyLines operation lines := by
    rw [classify, parseLog_printed]
  rw [classified, classifyLines_eq]
  refine ⟨by simp, _, ⟨told, rfl⟩, ?_⟩
  rintro accounts ⟨told', -⟩
  exact List.right_unique_forall₂' (fun _ _ _ h h' => h.unique h') told' told

/-- A text that is printed with escapes. -/
example :
    classify .plan (printedLog [⟨"error", "é\n\"", none⟩]) = some (.reported .plan "é\n\"") := by
  decide +kernel

end ResourceTypes
