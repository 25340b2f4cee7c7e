import ResourceTypes.Declaration.Basic
import ResourceTypes.Text.Lines

/-! # Printing declarations

Types are printed one after the other with an empty line between them. Each field stands on
a line of its own, with its tags between backquotes, under the lines of its documentation. -/

namespace ResourceTypes

/-- The tags of a field as they stand between backquotes. -/
def Tags.text (t : Tags) : String := "json:\"" ++ t.json ++ "\" tf:\"" ++ t.tf ++ "\""

/-- A line of documentation. -/
def commentLine (line : List Char) : String :=
  if line.isEmpty then "\t//\n" else "\t// " ++ String.ofList line ++ "\n"

/-- The documentation of a field, line by line. -/
def commentText (text : String) : String :=
  String.join ((Text.lines text.toList).map commentLine)

/-- A field under its documentation. -/
def Field.render (comments : Comments) (typeName : String) (f : Field) : String :=
  ((comments.get? (typeName, f.name)).map commentText).getD ""
    ++ "\t" ++ f.name ++ " " ++ f.type.text ++ " `" ++ f.tags.text ++ "`\n"

/-- The declaration of a type. -/
def TypeDecl.render (comments : Comments) (t : TypeDecl) : String :=
  "type " ++ t.name ++ " struct \x7b\n"
    ++ String.join (t.fields.map (Field.render comments t.name)) ++ "\x7d\n"

/-- The declarations of all types. -/
def Generated.render (g : Generated) : String :=
  "\n".intercalate (g.types.map (TypeDecl.render g.comments))

end ResourceTypes
