/-!
# Routines that sort

What a stable sort promises, it promises for comparisons that are a total preorder of the items. Under
another comparison the items come in any order, or the routine breaks off.

* `IsArrangement`: a list has the items of another, none before a lesser one, and those that are
  equal to each other in the order in which they were.
* `IsPreorderOn`: a comparison is a total preorder of items.
* `Sorting`: a routine that sorts, and what can be relied on.
* `Sorting.merge`: sorting by merging, which never breaks off.
-/

namespace RecordQuery

open Std (TransCmp OrientedCmp)

variable {α : Type}

/-! ## Stable arrangements -/

/-- The list is the stable arrangement of the items: none comes before a lesser one, and items that
are equal to each other come in the order in which they were. -/
structure IsArrangement (cmp : α → α → Ordering) (items arranged : List α) : Prop where
  perm : arranged.Perm items
  sorted : arranged.Pairwise fun x y => cmp x y ≠ .gt
  stable : ∀ x ∈ items,
    arranged.filter (fun y => cmp x y = .eq) = items.filter fun y => cmp x y = .eq

/-- The comparison is a total preorder of the items: on them it agrees with one of all values. -/
def IsPreorderOn (cmp : α → α → Ordering) (items : List α) : Prop :=
  ∃ order : α → α → Ordering, TransCmp order ∧ ∀ x ∈ items, ∀ y ∈ items, cmp x y = order x y

/-- Whether a list is a stable arrangement of items hangs on the comparison of these items only. -/
theorem IsArrangement.congr {cmp cmp' : α → α → Ordering} {items arranged : List α}
    (hcmp : ∀ x ∈ items, ∀ y ∈ items, cmp x y = cmp' x y) (h : IsArrangement cmp items arranged) :
    IsArrangement cmp' items arranged where
  perm := h.perm
  sorted := by
    refine h.sorted.imp_of_mem fun {x y} hx hy hle => ?_
    rwa [← hcmp x (h.perm.mem_iff.mp hx) y (h.perm.mem_iff.mp hy)]
  stable x hx := by
    have harranged : arranged.filter (fun y => cmp' x y = .eq) =
        arranged.filter fun y => cmp x y = .eq :=
      List.filter_congr fun y hy => by rw [hcmp x hx y (h.perm.mem_iff.mp hy)]
    have hitems : items.filter (fun y => cmp' x y = .eq) = items.filter fun y => cmp x y = .eq :=
      List.filter_congr fun y hy => by rw [hcmp x hx y hy]
    rw [harranged, hitems, h.stable x hx]

/-! ## Sorting by merging -/

/-- The first item is not greater than the second. -/
def inOrder (cmp : α → α → Ordering) (x y : α) : Bool := cmp x y != .gt

theorem inOrder_iff {cmp : α → α → Ordering} {x y : α} : inOrder cmp x y ↔ (cmp x y).isLE := by
  rw [inOrder, bne_iff_ne, Ordering.isLE_iff_ne_gt]

section TotalPreorder

variable {cmp : α → α → Ordering} [TransCmp cmp]

theorem inOrder_trans (x y z : α) (hxy : inOrder cmp x y) (hyz : inOrder cmp y z) :
    inOrder cmp x z :=
  inOrder_iff.mpr (TransCmp.isLE_trans (inOrder_iff.mp hxy) (inOrder_iff.mp hyz))

theorem inOrder_total (x y : α) : inOrder cmp x y || inOrder cmp y x := by
  have hswap : cmp y x = (cmp x y).swap := OrientedCmp.eq_swap
  rw [inOrder, inOrder, hswap]
  cases cmp x y <;> rfl

/-- Items that are equal to an item are equal to each other. -/
theorem inOrder_of_eq {x y z : α} (hy : cmp x y = .eq) (hz : cmp x z = .eq) : inOrder cmp y z := by
  have hyx : cmp y x = .eq := OrientedCmp.eq_comm.mp hy
  exact inOrder_iff.mpr
    (TransCmp.isLE_trans (Ordering.isLE_of_eq_eq hyx) (Ordering.isLE_of_eq_eq hz))

theorem isArrangement_mergeSort (items : List α) :
    IsArrangement cmp items (items.mergeSort (inOrder cmp)) := by
  have hperm : (items.mergeSort (inOrder cmp)).Perm items := List.mergeSort_perm _ _
  refine ⟨hperm, ?_, fun x hx => ?_⟩
  · exact (List.pairwise_mergeSort inOrder_trans inOrder_total items).imp fun h => bne_iff_ne.mp h
  · have hties : (items.filter fun y => cmp x y = .eq).Pairwise fun y z => inOrder cmp y z := by
      refine List.pairwise_of_forall_mem_list fun y hy z hz => inOrder_of_eq (x := x) ?_ ?_
      · simpa using (List.mem_filter.mp hy).2
      · simpa using (List.mem_filter.mp hz).2
    have hsub := (List.sublist_mergeSort inOrder_trans inOrder_total hties
      List.filter_sublist).filter fun y => cmp x y = .eq
    rw [List.filter_filter] at hsub
    simp only [Bool.and_self] at hsub
    exact (hsub.eq_of_length (hperm.filter _).length_eq.symm).symm

end TotalPreorder

/-- Sorting by merging compares items of the list only. -/
theorem IsPreorderOn.isArrangement_mergeSort {cmp : α → α → Ordering} {items : List α}
    (h : IsPreorderOn cmp items) : IsArrangement cmp items (items.mergeSort (inOrder cmp)) := by
  obtain ⟨order, horder, hagree⟩ := h
  have hsort : items.mergeSort (inOrder cmp) = items.mergeSort (inOrder order) := by
    have hmap := List.map_mergeSort (r := inOrder cmp) (s := inOrder order) (f := id) (l := items)
      fun x hx y hy => by rw [id, id, inOrder, inOrder, hagree x hx y hy]
    simpa using hmap
  rw [hsort]
  exact (RecordQuery.isArrangement_mergeSort items).congr fun x hx y hy => (hagree x hx y hy).symm

/-! ## Routines -/

/-- A routine that sorts items by a comparison. It loses no item and adds none. If the comparison is a
total preorder of the items, it gives their stable arrangement; if not, it may give any order, and
may break off. -/
structure Sorting (α : Type) where
  /-- the items as they are sorted, or none if the routine breaks off -/
  run : (α → α → Ordering) → List α → Option (List α)
  perm : ∀ {cmp items arranged}, run cmp items = some arranged → arranged.Perm items
  stable : ∀ {cmp items}, IsPreorderOn cmp items →
    ∃ arranged, run cmp items = some arranged ∧ IsArrangement cmp items arranged

namespace Sorting

/-- Sorting by merging. -/
def merge : Sorting α where
  run cmp items := some (items.mergeSort (inOrder cmp))
  perm h := by
    cases h
    exact List.mergeSort_perm _ _
  stable h := ⟨_, rfl, h.isArrangement_mergeSort⟩

end Sorting

end RecordQuery
