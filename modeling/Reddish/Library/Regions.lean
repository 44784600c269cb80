import Mathlib

namespace Reddish
namespace Library

/-!
# Ranges of addresses

An allocator hands out ranges and cuts some of them into blocks of one size.
Two ranges are apart when no address belongs to both.
-/

/-- The addresses from `address` on, so many of them. -/
structure Range where
  address : Nat
  bytes : Nat
  deriving DecidableEq

namespace Range

/-- No address belongs to both ranges. -/
def Apart (first second : Range) : Prop :=
  first.address + first.bytes ≤ second.address ∨ second.address + second.bytes ≤ first.address

instance decidableApart (first second : Range) : Decidable (first.Apart second) :=
  inferInstanceAs (Decidable (_ ∨ _))

def Covers (range : Range) (address : Nat) : Prop :=
  range.address ≤ address ∧ address < range.address + range.bytes

instance decidableCovers (range : Range) (address : Nat) : Decidable (range.Covers address) :=
  inferInstanceAs (Decidable (_ ∧ _))

/-- One range lies within another. -/
def Inside (inner outer : Range) : Prop :=
  outer.address ≤ inner.address ∧ inner.address + inner.bytes ≤ outer.address + outer.bytes

theorem Apart.symm {first second : Range} (apart : first.Apart second) : second.Apart first :=
  Or.symm apart

theorem Apart.mono {first second firstOuter secondOuter : Range}
    (apart : firstOuter.Apart secondOuter) (firstInside : first.Inside firstOuter)
    (secondInside : second.Inside secondOuter) : first.Apart second := by
  unfold Apart Inside at *
  omega

theorem Apart.not_covers {first second : Range} (apart : first.Apart second) {address : Nat}
    (covered : first.Covers address) : Not (second.Covers address) := by
  unfold Apart Covers at *
  omega

theorem inside_refl (range : Range) : range.Inside range :=
  ⟨Nat.le_refl _, Nat.le_refl _⟩

def total (ranges : List Range) : Nat :=
  (ranges.map Range.bytes).sum

theorem total_cons (range : Range) (ranges : List Range) :
    total (range :: ranges) = range.bytes + total ranges := by
  rw [total, List.map_cons, List.sum_cons, total]

theorem total_append (first second : List Range) :
    total (first ++ second) = total first + total second := by
  rw [total, List.map_append, List.sum_append, total, total]

theorem total_perm {first second : List Range} (same : first.Perm second) :
    total first = total second :=
  (same.map Range.bytes).sum_eq

end Range

/-! ## Blocks of one size -/

/-- The addresses of `count` blocks of one size, one behind the other. -/
def blockStarts (start size count : Nat) : List Nat :=
  (List.range count).map (fun place => start + place * size)

theorem mem_blockStarts {start size count address : Nat} :
    address ∈ blockStarts start size count <->
      exists place, place < count ∧ address = start + place * size := by
  unfold blockStarts
  rw [List.mem_map]
  constructor
  · rintro ⟨place, member, rfl⟩
    exact ⟨place, List.mem_range.mp member, rfl⟩
  · rintro ⟨place, small, rfl⟩
    exact ⟨place, List.mem_range.mpr small, rfl⟩

theorem length_blockStarts (start size count : Nat) :
    (blockStarts start size count).length = count := by
  rw [blockStarts, List.length_map, List.length_range]

theorem nodup_blockStarts {size : Nat} (positive : 0 < size) (start count : Nat) :
    (blockStarts start size count).Nodup := by
  refine List.Nodup.map ?_ List.nodup_range
  intro first second same
  exact Nat.eq_of_mul_eq_mul_right positive (Nat.add_left_cancel same)

/-- Every block lies within the range that was cut up. -/
theorem inside_of_mem_blockStarts {start size count address bytes : Nat}
    (member : address ∈ blockStarts start size count) (fits : count * size ≤ bytes) :
    (Range.mk address size).Inside ⟨start, bytes⟩ := by
  rcases mem_blockStarts.mp member with ⟨place, small, rfl⟩
  have bound : (place + 1) * size ≤ count * size := Nat.mul_le_mul_right size small
  rw [Nat.add_mul, Nat.one_mul] at bound
  unfold Range.Inside
  simp only
  omega

theorem apart_of_mem_blockStarts {start size count first second : Nat}
    (firstMember : first ∈ blockStarts start size count)
    (secondMember : second ∈ blockStarts start size count) (different : first ≠ second) :
    (Range.mk first size).Apart ⟨second, size⟩ := by
  rcases mem_blockStarts.mp firstMember with ⟨place, _, rfl⟩
  rcases mem_blockStarts.mp secondMember with ⟨other, _, rfl⟩
  have order : place < other ∨ other < place := by
    apply Nat.lt_or_gt_of_ne
    rintro rfl
    exact different rfl
  unfold Range.Apart
  simp only
  rcases order with before | behind
  · have bound : (place + 1) * size ≤ other * size := Nat.mul_le_mul_right size before
    rw [Nat.add_mul, Nat.one_mul] at bound
    omega
  · have bound : (other + 1) * size ≤ place * size := Nat.mul_le_mul_right size behind
    rw [Nat.add_mul, Nat.one_mul] at bound
    omega

/-! ## Pairs of a list that is sorted into classes -/

/-- A symmetric relation holds between all members of a list when it holds
within each class and between members of different classes. -/
theorem pairwise_of_classes {α γ : Type} [DecidableEq γ] {R : α -> α -> Prop} (kind : α -> γ)
    {items : List α}
    (within : forall k, (items.filter (fun item => kind item = k)).Pairwise R)
    (across : forall first, first ∈ items -> forall second, second ∈ items ->
      kind first ≠ kind second -> R first second) : items.Pairwise R := by
  induction items with
  | nil => exact List.Pairwise.nil
  | cons head tail ih =>
      refine List.pairwise_cons.mpr ⟨?_, ih ?_ ?_⟩
      · intro other member
        by_cases same : kind other = kind head
        · have both := within (kind head)
          rw [List.filter_cons_of_pos (by simp)] at both
          exact (List.pairwise_cons.mp both).1 other
            (List.mem_filter.mpr ⟨member, by simpa using same⟩)
        · exact across head List.mem_cons_self other (List.mem_cons_of_mem _ member)
            (fun equal => same equal.symm)
      · intro k
        exact (within k).sublist ((List.sublist_cons_self head tail).filter _)
      · intro first firstMember second secondMember
        exact across first (List.mem_cons_of_mem _ firstMember) second
          (List.mem_cons_of_mem _ secondMember)

end Library
end Reddish
