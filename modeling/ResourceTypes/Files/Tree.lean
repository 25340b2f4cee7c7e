import ResourceTypes.Files.Host

/-! # A tree of files in memory

Paths lead from a working directory through named entries; `.` stays, `..` goes up, and
above the working directory there are
directories and nothing else. A path that passes through a file or ends in
a slash after one is no directory, and a file to append to is created when its directory
exists. -/

namespace ResourceTypes

/-- A file or a directory. -/
inductive FileTree where
  | file (content : List UInt8)
  | directory (entries : List (String × FileTree))

namespace FileTree

/-- The entry of the given name. -/
def child? (entries : List (String × FileTree)) (name : String) : Option FileTree :=
  (entries.find? fun e => e.1 == name).map Prod.snd

/-- The node at the end of a list of names. -/
def at? : FileTree → List String → Option FileTree
  | tree, [] => some tree
  | .file _, _ :: _ => none
  | .directory entries, name :: rest =>
    match child? entries name with
    | some tree => tree.at? rest
    | none => none

/-- The entries with another node under a name. -/
def withEntry (entries : List (String × FileTree)) (name : String) (node : FileTree) :
    List (String × FileTree) :=
  match child? entries name with
  | some _ => entries.map fun e => if e.1 == name then (name, node) else e
  | none => entries ++ [(name, node)]

/-- The tree with a node at the end of a list of names; missing directories are created. -/
def put (node : FileTree) : FileTree → List String → FileTree
  | _, [] => node
  | .file content, _ :: _ => .file content
  | .directory entries, name :: rest =>
    .directory (withEntry entries name
      (put node ((child? entries name).getD (.directory [])) rest))

/-! ### Paths -/

/-- The greatest length of a path in bytes. -/
def maxPathBytes : Nat := 4095

/-- The greatest length of a name in bytes. -/
def maxNameBytes : Nat := 255

/-- The names on a path. -/
def components (path : String) : List String :=
  ((Text.pieces '/' path.toList).filter fun c => !c.isEmpty).map String.ofList

/-- A path that names a directory by a slash at its end. -/
def endsInSlash (path : String) : Bool := path.toList.getLast? == some '/'

/-- What a path meets above the working directory: a directory as long as it names nothing. -/
def above : List String → FileFault
  | [] => .isDirectory
  | name :: rest =>
    if name = "." ∨ name = ".." then above rest
    else if maxNameBytes < name.utf8ByteSize then .nameTooLong
    else .notFound

/-- Follows the names on a path from a place in the tree, itself given by names. -/
def follow (tree : FileTree) : List String → List String → Except FileFault (List String)
  | place, [] => .ok place
  | place, name :: rest =>
    match tree.at? place with
    | some (.directory entries) =>
      if name = "." then tree.follow place rest
      else if name = ".." then
        if place.isEmpty then .error (above rest) else tree.follow place.dropLast rest
      else if maxNameBytes < name.utf8ByteSize then .error .nameTooLong
      else if (child? entries name).isSome then tree.follow (place ++ [name]) rest
      else .error .notFound
    | _ => .error .notDirectory

/-- The checks on a path as a whole. -/
def checkPath (path : String) : Except FileFault Unit :=
  if path.toList.contains '\x00' then .error .nullByte
  else if path.isEmpty then .error .notFound
  else if maxPathBytes < path.utf8ByteSize then .error .nameTooLong
  else if path.toList.head? = some '/' then .error (above (components path))
  else .ok ()

/-- The content of the file at a path. -/
def read (tree : FileTree) (path : String) : Except FileFault (List UInt8) := do
  checkPath path
  let place ← tree.follow [] (components path)
  match tree.at? place with
  | some (.file content) => if endsInSlash path then throw .notDirectory else return content
  | some (.directory _) => throw .isDirectory
  | none => throw .notFound

/-- The names that lead to the file at a path, which need not exist. -/
def fileAt (tree : FileTree) (path : String) : Except FileFault (List String) := do
  checkPath path
  let names := components path
  let place ← tree.follow [] names.dropLast
  match tree.at? place, names.getLast? with
  | some (.directory entries), some name =>
    if endsInSlash path || name == "." || name == ".." then throw .isDirectory
    if maxNameBytes < name.utf8ByteSize then throw .nameTooLong
    match child? entries name with
    | some (.directory _) => throw .isDirectory
    | _ => return place ++ [name]
  | some (.directory _), none => throw .isDirectory
  | _, _ => throw .notDirectory

/-- The tree with an empty file at a path, unless a file is there. -/
def touch (tree : FileTree) (path : String) : Except FileFault FileTree := do
  let place ← tree.fileAt path
  match tree.at? place with
  | some (.file _) => return tree
  | _ => return put (.file []) tree place

/-- The tree with further bytes at the end of the file at a path. -/
def append (tree : FileTree) (path : String) (bytes : List UInt8) : FileTree :=
  match tree.fileAt path with
  | .error _ => tree
  | .ok place =>
    match tree.at? place with
    | some (.file content) => put (.file (content ++ bytes)) tree place
    | _ => put (.file bytes) tree place

/-- Runs commands on a tree, with the given environment and at time zero. -/
def host (configVariable : Option String) : Host (StateM FileTree) where
  read path := do return (← get).read path
  touch path := do
    match (← get).touch path with
    | .error f => return .error f
    | .ok tree =>
      set tree
      return .ok ()
  append path text := modify fun tree => tree.append path (Text.encode text.toList)
  configVariable := return configVariable
  now := return 0

end FileTree

end ResourceTypes
