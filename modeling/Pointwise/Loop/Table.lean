import Pointwise.Loop

/-!
# Tables of loops

The loops of a function, found by their argument types and listed in the order of registration.
Nothing is ever removed.
-/

namespace Pointwise

/-- Loops by their argument types. -/
structure LoopTable where
  entries : List (List DType × Loop)
  /-- The argument types of all entries, the earliest first. -/
  order : List (List DType)
  /-- The code and the imports of all entries, which stay in memory as long as the table does. -/
  retained : List (String × List (String × UInt8))

namespace LoopTable

def empty : LoopTable := ⟨[], [], []⟩

variable (table : LoopTable)

def get? (args : List DType) : Option Loop := table.entries.lookup args

/-- Adds a loop, unless there is one for its argument types, and returns the one that is there. -/
def insert (l : Loop) : Loop × LoopTable :=
  match table.get? l.args with
  | some existing => (existing, table)
  | none =>
    (l, ⟨(l.args, l) :: table.entries, table.order ++ [l.args],
      table.retained ++ [(l.symbol, l.imports)]⟩)

/-- All loops, the earliest first. -/
def toList : List Loop := table.order.filterMap table.get?

def size : Nat := table.entries.length

def isEmpty : Bool := table.entries.isEmpty

end LoopTable

end Pointwise
