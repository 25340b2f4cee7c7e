/-! # Pieces and lines of a text

A text is cut at every occurrence of a separator (`pieces`), which keeps empty pieces, or
into lines (`lines`), where a line ends with a line feed that one carriage return may precede
and the text after the last line feed is a line only when it is not empty. By `pieces_append`
the texts around a separator are cut each on its own. -/

namespace ResourceTypes.Text

/-- Cuts at every `sep`; `piece` holds the reversed current piece and `done` the reversed
earlier ones. -/
def piecesFrom (sep : Char) : List Char → List Char → List (List Char) → List (List Char)
  | [], piece, done => (piece.reverse :: done).reverse
  | c :: rest, piece, done =>
    if c = sep then piecesFrom sep rest [] (piece.reverse :: done)
    else piecesFrom sep rest (c :: piece) done

/-- The pieces between the separators, the empty ones included. -/
def pieces (sep : Char) (s : List Char) : List (List Char) := piecesFrom sep s [] []

/-- A line without the carriage return that ended it. -/
def dropReturn (line : List Char) : List Char :=
  match line.reverse with
  | '\r' :: kept => kept.reverse
  | _ => line

/-- The lines of pieces cut at line feeds: all but the last were ended by a line feed. -/
def linesOfPieces : List (List Char) → List (List Char)
  | [] => []
  | [last] => if last.isEmpty then [] else [last]
  | piece :: rest => dropReturn piece :: linesOfPieces rest

/-- The lines of a text, without their ends. -/
def lines (s : List Char) : List (List Char) := linesOfPieces (pieces '\n' s)

/-- The text after `start`, if it begins with it. -/
def after? (start : List Char) (s : List Char) : Option (List Char) :=
  match start, s with
  | [], s => some s
  | _ :: _, [] => none
  | a :: start, c :: s => if a = c then after? start s else none

/-- The text before `finish`, if it ends with it. -/
def before? (finish : List Char) (s : List Char) : Option (List Char) :=
  (after? finish.reverse s.reverse).map List.reverse

/-- The two parts around the first `sep`. -/
def cutAt (sep : Char) : List Char → Option (List Char × List Char)
  | [] => none
  | c :: rest =>
    if c = sep then some ([], rest)
    else (cutAt sep rest).map fun parts => (c :: parts.1, parts.2)

/-! ### Small laws -/

@[simp] theorem after?_append (start s : List Char) : after? start (start ++ s) = some s := by
  induction start with
  | nil => simp [after?]
  | cons a start ih => simp [after?, ih]

theorem eq_append_of_after? {start s rest : List Char} (h : after? start s = some rest) :
    s = start ++ rest := by
  induction start generalizing s with
  | nil => simpa [after?] using h
  | cons a start ih =>
    cases s with
    | nil => simp [after?] at h
    | cons c s =>
      simp only [after?] at h
      split at h
      next hac => rw [hac, ih h]; rfl
      next => cases h

theorem piecesFrom_eq (sep : Char) (s piece : List Char) (done : List (List Char)) :
    piecesFrom sep s piece done = done.reverse ++ piecesFrom sep s piece [] := by
  induction s generalizing piece done with
  | nil => simp [piecesFrom]
  | cons c s ih =>
    simp only [piecesFrom]
    split
    · rw [ih [] (piece.reverse :: done), ih [] [piece.reverse]]; simp
    · rw [ih (c :: piece) done]

/-- Texts around a separator are cut each on its own. -/
theorem pieces_append (sep : Char) (s t : List Char) :
    pieces sep (s ++ sep :: t) = pieces sep s ++ pieces sep t := by
  suffices h : ∀ piece,
      piecesFrom sep (s ++ sep :: t) piece [] = piecesFrom sep s piece [] ++ pieces sep t from h []
  induction s with
  | nil =>
    intro piece
    simp only [List.nil_append, piecesFrom, if_true, pieces]
    rw [piecesFrom_eq]
  | cons c s ih =>
    intro piece
    simp only [List.cons_append, piecesFrom]
    split
    · rw [piecesFrom_eq, ih, piecesFrom_eq sep s [] [piece.reverse], List.append_assoc]
    · exact ih _

theorem pieces_of_not_mem {sep : Char} {s : List Char} (h : sep ∉ s) : pieces sep s = [s] := by
  suffices key : ∀ piece, piecesFrom sep s piece [] = [piece.reverse ++ s] from key []
  induction s with
  | nil => simp [piecesFrom]
  | cons c s ih =>
    intro piece
    obtain ⟨hc, hs⟩ := not_or.1 (mt List.mem_cons.2 h)
    simp [piecesFrom, Ne.symm hc, ih hs]

theorem pieces_ne_nil (sep : Char) (s : List Char) : pieces sep s ≠ [] := by
  suffices h : ∀ piece, piecesFrom sep s piece [] ≠ [] from h []
  induction s with
  | nil => simp [piecesFrom]
  | cons c s ih =>
    intro piece
    simp only [piecesFrom]
    split
    · rw [piecesFrom_eq]; simp
    · exact ih _

end ResourceTypes.Text
