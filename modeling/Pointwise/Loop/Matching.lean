import Pointwise.Loop

/-!
# Matching loops

Which of several loops serves argument types that none of them has.
-/

namespace Pointwise.Loop

/-- Whether the loop takes arguments of the given types after safe conversions. -/
def accepts (l : Loop) (requested : List DType) : Bool :=
  l.args.length == requested.length &&
    (requested.zip l.args).all fun (s, t) => s.castsSafely t

/-- How far the argument types of a loop are promoted, the first one counting most. -/
def rank (l : Loop) : List Nat := l.args.map DType.order

/-- The better one of two loops: the one that promotes less, the earlier one if both do alike. -/
def better (best : Option Loop) (l : Loop) : Option Loop :=
  match best with
  | some b => if b.rank ≤ l.rank then some b else some l
  | none => some l

/-- The loop among the accepting ones that promotes the least. -/
def findMatching? (requested : List DType) (loops : List Loop) : Option Loop :=
  (loops.filter (·.accepts requested)).foldl better none

end Pointwise.Loop
