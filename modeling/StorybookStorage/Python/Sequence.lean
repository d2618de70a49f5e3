import Mathlib.Data.Char
import Mathlib.Data.List.Lex
import Mathlib.Data.List.Sort
import StorybookStorage.Python.Str

/-!
# Python lists

Slices, and sorting texts by their code points.
-/

namespace Python

variable {α : Type}

/-- `xs[:n]`: a negative bound counts from the end. -/
def sliceTo (xs : List α) (n : Int) : List α :=
  if 0 ≤ n then xs.take n.toNat else xs.take (xs.length - n.natAbs)

theorem sliceTo_natCast (xs : List α) (n : Nat) : sliceTo xs n = xs.take n := by
  unfold sliceTo
  rw [if_pos (Int.natCast_nonneg n), Int.toNat_natCast]

theorem mem_of_mem_sliceTo {xs : List α} {n : Int} {x : α}
    (h : x ∈ sliceTo xs n) : x ∈ xs := by
  unfold sliceTo at h
  split at h <;> exact List.mem_of_mem_take h

def sortTexts (texts : List Text) : List Text :=
  texts.insertionSort (· ≤ ·)

theorem mem_sortTexts {texts : List Text} {t : Text} :
    t ∈ sortTexts texts <-> t ∈ texts :=
  List.mem_insertionSort (· ≤ ·)

theorem sortTexts_sortedLT {texts : List Text} (h : texts.Nodup) :
    (sortTexts texts).SortedLT :=
  List.sortedLE_insertionSort.sortedLT_of_nodup
    ((List.perm_insertionSort (· ≤ ·) texts).nodup_iff.mpr h)

end Python
