/-
Finite maps from names, kept in increasing order of the names.
-/
namespace VectorEngine

structure NameTable (β : Type) where
  entries : List (String × β) := []

namespace NameTable

variable {β : Type}

def empty : NameTable β := {}

def find? (t : NameTable β) (name : String) : Option β := (t.entries.find? (·.1 == name)).map (·.2)

def contains (t : NameTable β) (name : String) : Bool := (t.find? name).isSome

def insertEntry (name : String) (value : β) : List (String × β) → List (String × β)
  | [] => [(name, value)]
  | entry :: rest =>
    if name < entry.1 then (name, value) :: entry :: rest
    else if name = entry.1 then (name, value) :: rest
    else entry :: insertEntry name value rest

/-- Adds an entry, or replaces the one of that name. -/
def insert (t : NameTable β) (name : String) (value : β) : NameTable β := ⟨insertEntry name value t.entries⟩

def erase (t : NameTable β) (name : String) : NameTable β := ⟨t.entries.filter (·.1 != name)⟩

/-- The names in increasing order. -/
def names (t : NameTable β) : List String := t.entries.map (·.1)

def size (t : NameTable β) : Nat := t.entries.length

def ofList (entries : List (String × β)) : NameTable β :=
  entries.foldl (fun t e => t.insert e.1 e.2) empty

end NameTable
end VectorEngine
