import ResourceTypes.Text.Mark

/-! # Quoted text

Messages show a text between double quotes with everything invisible spelled out: quotes and
backslashes take a backslash, line ends, tabs and the null character have letters, and
control characters, blanks other than the space, format characters, marks, private characters
and noncharacters appear by code. All else stands for itself. -/

namespace ResourceTypes.Text

/-- A character that would not be seen, or not be seen alone, in a message. -/
def isHidden (c : Char) : Bool :=
  isControl c || (isBlank c && c != ' ') || isFormat c || isMark c || isPrivate c
    || isNoncharacter c

/-- The code of a character in hexadecimal, between braces after `\u`. -/
def codeEscape (c : Char) : List Char :=
  '\\' :: 'u' :: '\x7b' :: Nat.toDigits 16 c.toNat ++ ['\x7d']

/-- One character of a quoted text. -/
def quotedChar (c : Char) : List Char :=
  if c = '"' then ['\\', '"']
  else if c = '\\' then ['\\', '\\']
  else if c = '\n' then ['\\', 'n']
  else if c = '\r' then ['\\', 'r']
  else if c = '\t' then ['\\', 't']
  else if c.toNat = 0 then ['\\', '0']
  else if isHidden c then codeEscape c
  else [c]

/-- The quoted form of a text. -/
def quoted (s : String) : String :=
  String.ofList ('"' :: s.toList.flatMap quotedChar ++ ['"'])

end ResourceTypes.Text
