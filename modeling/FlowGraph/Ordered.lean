/-!
Ordered lists. Sorting is by insertion, which keeps equal elements in their order. A list of
integers becomes a set by sorting and dropping repeats, or keeps its order and loses every repeat
of an earlier element.
-/
namespace FlowGraph

def insertBy {α : Type} (le : α → α → Bool) (x : α) : List α → List α
  | [] => [x]
  | y :: ys => if le x y then x :: y :: ys else y :: insertBy le x ys

def sortBy {α : Type} (le : α → α → Bool) : List α → List α
  | [] => []
  | x :: xs => insertBy le x (sortBy le xs)

def ascending (xs : List Int) : List Int := sortBy (fun a b => decide (a ≤ b)) xs

/-- Puts an integer into a strictly ascending list, unless it is there already. -/
def insertNew (x : Int) : List Int → List Int
  | [] => [x]
  | y :: ys => if x < y then x :: y :: ys else if x = y then y :: ys else y :: insertNew x ys

/-- The distinct members in strictly ascending order. -/
def ascendingSet : List Int → List Int
  | [] => []
  | x :: xs => insertNew x (ascendingSet xs)

/-- Every member once, where it first stands. -/
def distinct : List Int → List Int
  | [] => []
  | x :: xs => x :: (distinct xs).filter (· ≠ x)

end FlowGraph
