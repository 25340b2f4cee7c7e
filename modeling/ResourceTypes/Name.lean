import ResourceTypes.Text.Case
import ResourceTypes.Text.Lines

/-! # Field names

An attribute is named in snake case, as words joined by underscores. Its generated field takes
the camel form, in which known acronyms are in capitals; target paths take the lower camel
form, whose first word is in lower case; serialisation tags take a lower camel form that knows
no acronyms. `FieldName.ofSnake` derives the forms from the snake form, `FieldName.ofCamel`
from a camel name, whose words begin where the class of letters changes. -/

namespace ResourceTypes

open Text

/-- The forms of one name. -/
structure FieldName where
  snake : String
  camel : String
  lowerCamel : String
  /-- Lower camel without acronyms, for tags. -/
  tag : String
deriving DecidableEq, Repr

namespace FieldName

/-- Words written in capitals in camel forms. -/
def acronyms : List (List Char) :=
  ["acl", "api", "arn", "cidr", "dns", "http", "https", "id", "ip", "json", "kms", "sql", "ssl",
   "tls", "ttl", "uri", "url"].map String.toList

/-! ### From snake case -/

/-- A lower case word in a camel form. -/
def camelWord (word : List Char) : List Char :=
  if acronyms.contains word then word.map Char.toUpper else capitalize word

/-- The words of a snake name in lower case, without the empty ones. -/
def snakeWords (s : List Char) : List (List Char) :=
  ((pieces '_' s).filter fun w => !w.isEmpty).map lower

/-- The camel form of lower case words. -/
def camelOfWords (words : List (List Char)) : List Char := words.flatMap camelWord

/-- The lower camel form of lower case words. -/
def lowerCamelOfWords : List (List Char) → List Char
  | [] => []
  | first :: others => first ++ camelOfWords others

/-- The lower camel form without acronyms; empty words count, so a leading underscore gives a
capital. -/
def tagOfSnake (s : List Char) : List Char :=
  match pieces '_' s with
  | [] => []
  | first :: others => lower first ++ others.flatMap capitalize

/-- The forms of a snake name. -/
def ofSnake (snake : String) : FieldName :=
  let words := snakeWords snake.toList
  { snake
    camel := String.ofList (camelOfWords words)
    lowerCamel := String.ofList (lowerCamelOfWords words)
    tag := String.ofList (tagOfSnake snake.toList) }

/-! ### From camel case -/

/-- Classes of characters that decide where a word begins. -/
inductive LetterClass where
  | upper
  | lower
  | digit
  | other
deriving DecidableEq, Repr

/-- The class of a character with its marks. -/
def classOf (cluster : List Char) : LetterClass :=
  let raised := Text.upper cluster
  let lowered := Text.lower cluster
  if cluster.all Char.isDigit then .digit
  else if raised = lowered then .other
  else if cluster = raised then .upper
  else if cluster = lowered then .lower
  else .other

/-- A word begins between characters of classes `a` and `b`, where `next` follows `b`. -/
def beginsWord (a b : LetterClass) (next : Option LetterClass) : Bool :=
  match a, b with
  | .lower, .upper | .lower, .digit | .upper, .digit | .digit, .lower | .digit, .upper => true
  | .upper, .upper => next == some .lower
  | _, _ => false

/-- The words of a camel name given as its characters. -/
def wordsOfClusters : List (List Char) → List (List Char)
  | [] => []
  | c :: rest =>
    match rest, wordsOfClusters rest with
    | d :: more, word :: words =>
      if beginsWord (classOf c) (classOf d) (more.head?.map classOf) then c :: word :: words
      else (c ++ word) :: words
    | _, _ => [c]

/-- The words of a camel name. -/
def camelWords (s : List Char) : List (List Char) := wordsOfClusters (clusters s)

/-- The snake form of a camel name. -/
def snakeOfCamel (s : List Char) : List Char := ['_'].intercalate ((camelWords s).map lower)

/-- The forms of a camel name, which is kept as it is. -/
def ofCamel (camel : String) : FieldName :=
  { ofSnake (String.ofList (snakeOfCamel camel.toList)) with camel }

end FieldName

end ResourceTypes
