import Mathlib.Data.List.Basic
import ResourceTypes.Log.Failure
import ResourceTypes.Proofs.Text.Utf8

/-! # Logs one after the other

The lines of two logs with a line feed between them are those of the first and then those of the
second (`logTexts_append`), also where a character is cut short before the line feed.  Lines are
read one by one, so that the classification of both follows from what is read of each
(`classify_append`), and from the two classifications alone: the first log that cannot be read
decides, and accounts are joined (`Failure.merge`). -/

namespace ResourceTypes

/-! ### Merging failures -/

/-- The failure of a log that consists of two, from their failures. -/
def Failure.merge : Option Failure → Option Failure → Option Failure
  | some (.unparsed operation e), _ => some (.unparsed operation e)
  | none, second => second
  | some (.reported operation account), none => some (.reported operation account)
  | some (.reported _ _), some (.unparsed operation e) => some (.unparsed operation e)
  | some (.reported operation account), some (.reported _ more) =>
    some (.reported operation (account ++ "\n" ++ more))

@[simp] theorem Failure.merge_eq_none {first second : Option Failure} :
    merge first second = none ↔ first = none ∧ second = none := by
  rcases first with _ | ⟨_ | _⟩ <;> rcases second with _ | ⟨_ | _⟩ <;> simp [merge]

theorem intercalate_append_of_ne_nil (sep : String) {first others : List String}
    (hfirst : first ≠ []) (hothers : others ≠ []) :
    sep.intercalate (first ++ others) = sep.intercalate first ++ sep ++ sep.intercalate others := by
  induction first with
  | nil => exact absurd rfl hfirst
  | cons s first ih =>
      obtain rfl | hrest := eq_or_ne first []
      · rw [List.singleton_append, String.intercalate_cons_of_ne_nil hothers,
          String.intercalate_singleton]
      · have hboth : first ++ others ≠ [] := List.append_ne_nil_of_left_ne_nil hrest others
        rw [List.cons_append, String.intercalate_cons_of_ne_nil hboth, ih hrest,
          String.intercalate_cons_of_ne_nil hrest]
        simp only [String.append_assoc]

/-! ### Lines -/

theorem logTexts_append (s t : List Char) :
    logTexts (s ++ '\n' :: t) = logTexts s ++ logTexts t := by
  rw [logTexts, Text.pieces_append, List.map_append, List.filter_append]
  rfl

/-- The lines of both logs are read, or the first fault of the first log, else of the second, is
reported. -/
theorem parseLog_append (s t : List Char) :
    parseLog (s ++ '\n' :: t) =
      match parseLog s, parseLog t with
      | .error e, _ => .error e
      | .ok _, .error e => .error e
      | .ok first, .ok others => .ok (first ++ others) := by
  rw [parseLog, logTexts_append, List.mapM_append]
  show parseLog s >>= (fun first => parseLog t >>= fun others => pure (first ++ others)) = _
  cases parseLog s with
  | error e => rfl
  | ok first =>
      cases parseLog t with
      | error e => rfl
      | ok others => rfl

theorem decodeLossy_append_lineFeed (a b : List UInt8) :
    Text.decodeLossy (a ++ 10 :: b) = Text.decodeLossy a ++ '\n' :: Text.decodeLossy b :=
  Text.decodeLossy_append_ascii (by decide) a b

/-! ### Classifications -/

theorem classifyLines_append (operation : Operation) (first others : List LogLine) :
    classifyLines operation (first ++ others) =
      Failure.merge (classifyLines operation first) (classifyLines operation others) := by
  unfold classifyLines
  rw [List.filterMap_append]
  generalize first.filterMap LogLine.contribution? = messages
  generalize others.filterMap LogLine.contribution? = more
  cases messages with
  | nil => rfl
  | cons m messages =>
      cases more with
      | nil =>
          rw [List.append_nil]
          rfl
      | cons m' more =>
          have joined := intercalate_append_of_ne_nil "\n" (List.cons_ne_nil m messages)
            (List.cons_ne_nil m' more)
          exact congrArg (fun account => some (Failure.reported operation account)) joined

theorem merge_classifyLines_unparsed (operation : Operation) (lines : List LogLine)
    (e : Json.ReadError) :
    Failure.merge (classifyLines operation lines) (some (.unparsed operation e)) =
      some (.unparsed operation e) := by
  unfold classifyLines
  dsimp only
  split <;> rfl

/-- A log that consists of two with a line feed between them is classified as their
classifications say. -/
theorem classify_append_eq_merge (operation : Operation) (a b : List UInt8) :
    classify operation (a ++ 10 :: b) =
      Failure.merge (classify operation a) (classify operation b) := by
  unfold classify
  rw [decodeLossy_append_lineFeed, parseLog_append]
  cases parseLog (Text.decodeLossy a) with
  | error e => rfl
  | ok first =>
      cases parseLog (Text.decodeLossy b) with
      | error e => exact (merge_classifyLines_unparsed operation first e).symm
      | ok others => exact classifyLines_append operation first others

theorem classify_flatMap (operation : Operation) (log : List UInt8) (logs : List (List UInt8)) :
    classify operation (log ++ logs.flatMap (10 :: ·)) =
      (logs.map (classify operation)).foldl Failure.merge (classify operation log) := by
  induction logs generalizing log with
  | nil =>
      rw [List.flatMap_nil, List.append_nil]
      rfl
  | cons next logs ih =>
      have regrouped : log ++ (next :: logs).flatMap (10 :: ·) =
          (log ++ 10 :: next) ++ logs.flatMap (10 :: ·) := by simp
      rw [regrouped, ih, classify_append_eq_merge]
      rfl

/-! ### Main statement -/

/-- A log that consists of two with a line feed between them cannot be read where the first cannot,
or else where the second cannot; and otherwise it reports what the lines of the first contribute
and then what those of the second do.  Nothing else of the two logs matters than how each of them is
classified. -/
theorem classify_append (operation : Operation) (a b : List UInt8) :
    (classify operation (a ++ 10 :: b) =
      match parseLog (Text.decodeLossy a), parseLog (Text.decodeLossy b) with
      | .error e, _ => some (.unparsed operation e)
      | .ok _, .error e => some (.unparsed operation e)
      | .ok first, .ok others =>
        let messages :=
          first.filterMap LogLine.contribution? ++ others.filterMap LogLine.contribution?
        if messages.isEmpty then none
        else some (.reported operation ("\n".intercalate messages))) ∧
    classify operation (a ++ 10 :: b) =
      Failure.merge (classify operation a) (classify operation b) ∧
    (classify operation (a ++ 10 :: b) = none ↔
      classify operation a = none ∧ classify operation b = none) := by
  have merged := classify_append_eq_merge operation a b
  refine ⟨?_, merged, by rw [merged, Failure.merge_eq_none]⟩
  rw [classify, decodeLossy_append_lineFeed, parseLog_append]
  cases parseLog (Text.decodeLossy a) with
  | error e => rfl
  | ok first =>
      cases parseLog (Text.decodeLossy b) with
      | error e => rfl
      | ok others =>
          dsimp only
          rw [classifyLines, List.filterMap_append]

end ResourceTypes
