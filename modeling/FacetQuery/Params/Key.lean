/-!
# Params — Keys

The key of a request parameter names a root and a path below it, `root[a][b][]`. A key without a
root before its first bracket, or whose brackets do not close up to its end, is a root as a whole.
-/

namespace FacetQuery.Params

/-- A root and the segments below it; an empty segment stands for the next item of an array. -/
structure Key where
  root : List Char
  path : List (List Char)
deriving DecidableEq, Repr

/-- `segments? current cs` are the contents of the brackets that make up all of `cs`, where
`current` holds, last character first, what has been read of a bracket that is still open. A
bracket closes at the first `]`. -/
def segments? : Option (List Char) → List Char → Option (List (List Char))
  | none, [] => some []
  | some _, [] => none
  | none, c :: cs => if c = '[' then segments? (some []) cs else none
  | some current, c :: cs =>
      if c = ']' then (segments? none cs).map (current.reverse :: ·)
      else segments? (some (c :: current)) cs

namespace Key

/-- `read cs` is the key that `cs` spells. -/
def read (cs : List Char) : Key :=
  match cs.takeWhile (· ≠ '['), segments? none (cs.dropWhile (· ≠ '[')) with
  | [], _ => ⟨cs, []⟩
  | root, some path => ⟨root, path⟩
  | _, none => ⟨cs, []⟩

/-- `text k` spells `k`. -/
def text (k : Key) : List Char :=
  k.root ++ k.path.flatMap fun segment => '[' :: (segment ++ [']'])

end Key

end FacetQuery.Params
