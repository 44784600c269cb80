import Mathlib

namespace Reddish
namespace Slab

/-!
Size classes of the slab pool.

Only the arithmetic that the database uses is here: the class table, the class
chosen for a request, and the fact that a class is never too small for it.
-/

def classSizes : List Nat :=
  [8, 16, 24, 32, 40, 48, 56, 64, 72, 80, 88, 96,
    104, 112, 120, 128, 160, 192, 224, 256, 320, 384, 448, 512,
    640, 768, 896, 1024, 1280, 1536, 1792, 2048, 2560, 3072, 3584, 4096]

def classCount : Nat := 36
def denseLimit : Nat := 128
def denseClasses : Nat := denseLimit / 8
def largestClass : Nat := 4096

def classSize (index : Nat) : Nat :=
  classSizes.getD index 0

/-- The binary search of `class_index`; `steps` bounds its rounds. -/
def classSearch (size : Nat) : Nat -> Nat -> Nat -> Nat
  | 0, low, _ => low
  | steps + 1, low, high =>
      if low < high then
        let middle := (low + high) / 2
        if classSize middle < size then classSearch size steps (middle + 1) high
        else classSearch size steps low middle
      else low

def classIndex (size : Nat) : Nat :=
  if size ≤ denseLimit then (if size ≤ 8 then 0 else (size + 7) / 8 - 1)
  else classSearch size classCount denseClasses (classCount - 1)

/-- The search keeps its upper end large enough and closes the interval. -/
theorem classSearch_spec {size steps low high : Nat} (ordered : low ≤ high)
    (enough : high - low ≤ steps) (large : size ≤ classSize high) (bound : high < classCount) :
    size ≤ classSize (classSearch size steps low high) ∧
      classSearch size steps low high < classCount := by
  induction steps generalizing low high with
  | zero =>
      have same : low = high := by omega
      rw [classSearch, same]
      exact ⟨large, bound⟩
  | succ steps ih =>
      rw [classSearch]
      by_cases more : low < high
      · rw [if_pos more]
        by_cases small : classSize ((low + high) / 2) < size
        · simp only [if_pos small]
          exact ih (by omega) (by omega) large bound
        · simp only [if_neg small]
          exact ih (by omega) (by omega) (Nat.not_lt.mp small) (by omega)
      · rw [if_neg more]
        have same : low = high := by omega
        rw [same]
        exact ⟨large, bound⟩

private theorem classSize_dense {index : Nat} (dense : index < denseClasses) :
    classSize index = 8 * (index + 1) := by
  revert index
  decide

/-- No class is larger than the largest one. -/
theorem classSize_le (index : Nat) : classSize index ≤ largestClass := by
  unfold classSize
  rw [List.getD_eq_getElem?_getD]
  cases found : classSizes[index]? with
  | none => exact Nat.zero_le _
  | some size =>
      have all : forall size, size ∈ classSizes -> size ≤ largestClass := by decide
      exact all size (List.mem_of_getElem? found)

/-- A block of the chosen class is large enough, and the class exists. -/
theorem le_classSize_classIndex {size : Nat} (small : size ≤ largestClass) :
    size ≤ classSize (classIndex size) ∧ classIndex size < classCount := by
  unfold classIndex
  by_cases dense : size ≤ denseLimit
  · rw [if_pos dense]
    have limit : denseLimit = 128 := rfl
    have count : classCount = 36 := rfl
    by_cases tiny : size ≤ 8
    · rw [if_pos tiny]
      exact ⟨tiny, by decide⟩
    · rw [if_neg tiny]
      have index : (size + 7) / 8 - 1 < denseClasses := by
        change (size + 7) / 8 - 1 < 16
        omega
      have classes : denseClasses = 16 := rfl
      rw [classSize_dense index]
      omega
  · rw [if_neg dense]
    exact classSearch_spec (by decide) (by decide) small (by decide)

end Slab
end Reddish
