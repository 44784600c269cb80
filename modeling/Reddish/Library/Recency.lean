import Mathlib.Data.List.Basic

namespace Reddish
namespace Library

/-!
# Lists in the order of last use

A history lists uses, the latest first.  The position at which an item occurs
first tells how long ago it was used last.  A list is ordered by last use if
these positions increase along it.
-/

variable {α : Type} [DecidableEq α]

/-- Use an item: it comes first, and the others keep their order. -/
def moveToFront (item : α) (items : List α) : List α :=
  item :: items.filter fun other => decide (other ≠ item)

/-- All items have been used, each one more recently than those behind it. -/
structure ByRecency (history items : List α) : Prop where
  used : forall item, item ∈ items -> item ∈ history
  order : items.Pairwise fun first second => history.idxOf first < history.idxOf second

namespace ByRecency

variable {history items later : List α} {item : α}

theorem nil : ByRecency history [] :=
  ⟨nofun, List.Pairwise.nil⟩

/-- Removing items does not disturb the order. -/
theorem sublist (recent : ByRecency history items) (sub : later.Sublist items) :
    ByRecency history later :=
  ⟨fun item inside => recent.used item (sub.subset inside), recent.order.sublist sub⟩

/-- What happened before the items were used for the first time does not count. -/
theorem append (recent : ByRecency history items) (earlier : List α) :
    ByRecency (history ++ earlier) items where
  used := fun item inside => List.mem_append_left earlier (recent.used item inside)
  order := by
    refine recent.order.imp_of_mem ?_
    intro first second isFirst isSecond less
    rw [List.idxOf_append_of_mem (recent.used first isFirst),
      List.idxOf_append_of_mem (recent.used second isSecond)]
    exact less

/-- Using an item makes it the first one. -/
theorem moveToFront (recent : ByRecency history items) :
    ByRecency (item :: history) (moveToFront item items) where
  used := by
    intro other inside
    rcases List.mem_cons.mp inside with rfl | old
    · exact List.mem_cons_self
    · exact List.mem_cons_of_mem item (recent.used other (List.mem_of_mem_filter old))
  order := by
    have later : forall other, other ∈ items.filter (fun other => decide (other ≠ item)) ->
        (item :: history).idxOf other = history.idxOf other + 1 := by
      intro other inside
      have different : other ≠ item := by simpa using (List.mem_filter.mp inside).2
      exact List.idxOf_cons_ne history different.symm
    refine List.pairwise_cons.mpr ⟨?_, ?_⟩
    · intro other inside
      rw [List.idxOf_cons_self, later other inside]
      exact Nat.succ_pos _
    · refine (recent.order.sublist List.filter_sublist).imp_of_mem ?_
      intro first second isFirst isSecond less
      rw [later first isFirst, later second isSecond]
      exact Nat.succ_lt_succ less

/-- Some items are used, and then some are removed. -/
theorem uses (recent : ByRecency history items) (used : List α)
    (sub : later.Sublist (used.foldr Library.moveToFront items)) :
    ByRecency (used ++ history) later := by
  refine sublist ?_ sub
  clear sub
  induction used with
  | nil => exact recent
  | cons item others ih => exact ih.moveToFront

end ByRecency

variable {item : α} {items later : List α}

/-- Using an item again changes nothing. -/
theorem moveToFront_again : moveToFront item (moveToFront item items) = moveToFront item items := by
  unfold moveToFront
  rw [List.filter_cons_of_neg (by simp), List.filter_filter]
  simp

theorem moveToFront_sublist (sub : later.Sublist items) :
    (moveToFront item later).Sublist (moveToFront item items) :=
  (sub.filter _).cons_cons item

theorem moveToFront_mono (sub : later.Sublist (moveToFront item items)) :
    (moveToFront item later).Sublist (moveToFront item items) := by
  rw [<- @moveToFront_again _ _ item items]
  exact moveToFront_sublist sub

/-- A list of which an item is no longer part has not been disturbed by its use. -/
theorem sublist_of_moveToFront
    (sub : later.Sublist (moveToFront item items)) (gone : item ∉ later) :
    later.Sublist items := by
  unfold moveToFront at sub
  refine List.Sublist.trans ?_ (@List.filter_sublist _ (fun other => decide (other ≠ item)) items)
  cases sub with
  | cons _ rest => exact rest
  | cons_cons _ rest => exact absurd List.mem_cons_self gone

end Library
end Reddish
