/-! # Symbol tables

A table holds the type names that are taken. A name for a suffix is sought along a chain of
ancestor names, outermost first: the innermost name with the suffix, then with one more
ancestor in front each time, and at last the whole chain with a number. -/

namespace ResourceTypes

/-- Names that are taken, each once. -/
structure SymbolTable where
  names : List String
  nodup : names.Nodup

/-- Why no name can be given. -/
inductive AllocationError where
  | exhausted (name : String)
  | emptyChain
deriving DecidableEq, Repr

namespace SymbolTable

/-- The table without names. -/
def empty : SymbolTable := ⟨[], .nil⟩

instance : Inhabited SymbolTable := ⟨empty⟩

/-- The name is taken. -/
def contains (t : SymbolTable) (name : String) : Bool := t.names.contains name

/-- The number of names that are taken. -/
def size (t : SymbolTable) : Nat := t.names.length

/-- The table with one more name taken. -/
def insert (t : SymbolTable) (name : String) : SymbolTable :=
  if h : name ∈ t.names then t else ⟨name :: t.names, List.nodup_cons.2 ⟨h, t.nodup⟩⟩

/-- The table in which the given names are taken. -/
def ofNames (names : List String) : SymbolTable := names.foldl insert empty

/-! ### Allocation -/

/-- The numbers that may be put after a name. -/
def numbers : List Nat := [2, 3, 4, 5, 6, 7, 8, 9]

/-- A name with a number. -/
def numbered (name : String) (n : Nat) : String := name ++ "_" ++ toString n

/-- The first free name with a number. -/
def allocateNumbered (t : SymbolTable) (name : String) : Except AllocationError String :=
  match (numbers.map (numbered name)).find? fun n => !t.contains n with
  | some n => .ok n
  | none => .error (.exhausted name)

/-- The candidate if it is free, else the candidate with the next ancestor in front. -/
def climb (t : SymbolTable) (candidate : String) : List String → Except AllocationError String
  | [] => if t.contains candidate then t.allocateNumbered candidate else .ok candidate
  | ancestor :: rest =>
    if t.contains candidate then t.climb (ancestor ++ candidate) rest else .ok candidate

/-- A free name for the suffix along the chain; the table is not changed. -/
def allocate (t : SymbolTable) (suffix : String) (chain : List String) :
    Except AllocationError String :=
  match chain.reverse with
  | [] => .error .emptyChain
  | last :: ancestors => t.climb (last ++ suffix) ancestors

/-! ### Small laws -/

@[simp] theorem contains_empty (name : String) : empty.contains name = false := rfl

theorem contains_insert (t : SymbolTable) (name other : String) :
    (t.insert name).contains other = (other == name || t.contains other) := by
  unfold insert contains
  split <;> grind

end SymbolTable

end ResourceTypes
