/-!
# Text — Splitting

Cutting a text at a separator, and blanks off its ends.

- `splitOn_append`: a separator between two texts cuts there and nowhere else new.
- `cutFirst` cuts at the first separator only.
- `trim` cuts off the characters with the Unicode property `White_Space`.
-/

namespace FacetQuery.Text

/-! ### Separators -/

/-- `splitOn sep cs` are the pieces of `cs` between the separators, one more than there are
separators. -/
def splitOn (sep : Char) : List Char → List (List Char)
  | [] => [[]]
  | c :: cs =>
      if c = sep then [] :: splitOn sep cs
      else match splitOn sep cs with
        | [] => [[c]]
        | piece :: pieces => (c :: piece) :: pieces

/-- `cutFirst sep cs` is what stands before the first separator and what stands behind it, the
latter empty if there is none. -/
def cutFirst (sep : Char) (cs : List Char) : List Char × List Char :=
  (cs.takeWhile (· ≠ sep), (cs.dropWhile (· ≠ sep)).drop 1)

/-- `cutLast? sep cs` is what stands before the last separator and what stands behind it. -/
def cutLast? (sep : Char) (cs : List Char) : Option (List Char × List Char) :=
  match cs.reverse.dropWhile (· ≠ sep) with
  | [] => none
  | _ :: before => some (before.reverse, (cs.reverse.takeWhile (· ≠ sep)).reverse)

/-! ### Laws of splitting -/

theorem splitOn_ne_nil (sep : Char) (cs : List Char) : splitOn sep cs ≠ [] := by
  cases cs with
  | nil => simp [splitOn]
  | cons c cs =>
      simp only [splitOn]
      split
      · simp
      · split <;> simp

theorem splitOn_of_notMem {sep : Char} {cs : List Char} (h : sep ∉ cs) :
    splitOn sep cs = [cs] := by
  induction cs with
  | nil => rfl
  | cons c cs ih =>
      simp only [List.mem_cons, not_or] at h
      simp [splitOn, Ne.symm h.1, ih h.2]

theorem splitOn_append {sep : Char} {cs : List Char} (h : sep ∉ cs) (rest : List Char) :
    splitOn sep (cs ++ sep :: rest) = cs :: splitOn sep rest := by
  induction cs with
  | nil => simp [splitOn]
  | cons c cs ih =>
      simp only [List.mem_cons, not_or] at h
      simp [splitOn, Ne.symm h.1, ih h.2]

theorem cutLast?_append {sep : Char} (before : List Char) {after : List Char} (h : sep ∉ after) :
    cutLast? sep (before ++ sep :: after) = some (before, after) := by
  have hd : (after.reverse ++ sep :: before.reverse).dropWhile (· ≠ sep)
      = sep :: before.reverse := by
    rw [List.dropWhile_append_of_pos]
    · simp
    · intro c hc; simp only [List.mem_reverse] at hc
      simpa using fun e : c = sep => h (e ▸ hc)
  have ht : (after.reverse ++ sep :: before.reverse).takeWhile (· ≠ sep) = after.reverse := by
    rw [List.takeWhile_append_of_pos]
    · simp
    · intro c hc; simp only [List.mem_reverse] at hc
      simpa using fun e : c = sep => h (e ▸ hc)
  simp only [cutLast?, List.reverse_append, List.reverse_cons, List.append_assoc,
    List.singleton_append, hd, ht, List.reverse_reverse]

/-! ### Blanks -/

/-- `isBlank c` says that `c` has the property `White_Space`. -/
def isBlank (c : Char) : Bool :=
  let n := c.toNat
  (0x9 ≤ n && n ≤ 0xD) || n == 0x20 || n == 0x85 || n == 0xA0 || n == 0x1680
    || (0x2000 ≤ n && n ≤ 0x200A) || n == 0x2028 || n == 0x2029 || n == 0x202F || n == 0x205F
    || n == 0x3000

/-- `trimLeft cs` drops the blanks at the head of `cs`. -/
def trimLeft (cs : List Char) : List Char :=
  cs.dropWhile isBlank

/-- `trim cs` drops the blanks at both ends of `cs`. -/
def trim (cs : List Char) : List Char :=
  (trimLeft (trimLeft cs).reverse).reverse

end FacetQuery.Text
