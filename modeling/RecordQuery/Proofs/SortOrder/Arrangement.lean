import RecordQuery.Proofs.SortOrder.Homogeneous
import RecordQuery.Sorting

/-!
# Records in their one stable arrangement

* `IsArrangement.unique`: under a total preorder of the items there is one stable arrangement.
* `SortOrder.isPreorderOn_of_homogeneous`: a sort order is one of homogeneous records.
* `SortOrder.isArrangement_of_no_criteria`: an order without criteria leaves items as they are.
-/

namespace RecordQuery

open Std (TransCmp OrientedCmp ReflCmp)

variable {α : Type}

section TotalPreorder

variable {cmp : α → α → Ordering} [TransCmp cmp]

/-- A list in order is told by its items and by the order of those that are equal to each other. -/
theorem eq_of_ties {l l' : List α} (hperm : l.Perm l')
    (hl : l.Pairwise fun x y => cmp x y ≠ .gt) (hl' : l'.Pairwise fun x y => cmp x y ≠ .gt)
    (hties : ∀ x ∈ l, l.filter (fun y => cmp x y = .eq) = l'.filter fun y => cmp x y = .eq) :
    l = l' := by
  induction l generalizing l' with
  | nil => exact hperm.nil_eq
  | cons x rest ih =>
    cases l' with
    | nil => exact absurd hperm.symm (List.not_perm_nil_cons x rest)
    | cons y rest' =>
      obtain ⟨hx, hrest⟩ := List.pairwise_cons.mp hl
      obtain ⟨hy, hrest'⟩ := List.pairwise_cons.mp hl'
      have hxx : cmp x x = .eq := ReflCmp.compare_self
      -- Each of the two first items stands in the other list, so neither is less.
      have hxy : cmp x y ≠ .gt := by
        rcases List.mem_cons.mp (hperm.mem_iff.mpr List.mem_cons_self) with rfl | hmem
        · simp [hxx]
        · exact hx y hmem
      have hyx : cmp y x ≠ .gt := by
        rcases List.mem_cons.mp (hperm.mem_iff.mp List.mem_cons_self) with heq | hmem
        · simp [← heq, hxx]
        · exact hy x hmem
      have heq : cmp x y = .eq := OrientedCmp.isLE_antisymm
        (Ordering.isLE_iff_ne_gt.mpr hxy) (Ordering.isLE_iff_ne_gt.mpr hyx)
      have hfirst := hties x List.mem_cons_self
      simp only [hxx, heq, List.filter_cons, decide_true, if_true, List.cons.injEq] at hfirst
      obtain ⟨rfl, -⟩ := hfirst
      refine congrArg (x :: ·) (ih (List.perm_cons x |>.mp hperm) hrest hrest' fun z hz => ?_)
      have hz := hties z (List.mem_cons_of_mem _ hz)
      simp only [List.filter_cons] at hz
      split at hz
      · exact (List.cons.inj hz).2
      · exact hz

end TotalPreorder

theorem IsArrangement.unique {cmp : α → α → Ordering} {items l l' : List α}
    (hcmp : IsPreorderOn cmp items) (h : IsArrangement cmp items l)
    (h' : IsArrangement cmp items l') : l = l' := by
  obtain ⟨order, horder, hagree⟩ := hcmp
  have h := h.congr hagree
  have h' := h'.congr hagree
  refine eq_of_ties (h.perm.trans h'.perm.symm) h.sorted h'.sorted fun x hx => ?_
  have hitems : x ∈ items := h.perm.mem_iff.mp hx
  rw [h.stable x hitems, h'.stable x hitems]

namespace SortOrder

/-- An order is a total preorder of items whose records are homogeneous under each criterion. -/
theorem isPreorderOn_of_homogeneous {o : SortOrder} {record : α → Json} {items : List α}
    (h : ∀ c ∈ o.criteria, c.IsHomogeneous (items.map record)) :
    IsPreorderOn (fun x y => o.compare (record x) (record y)) items := by
  obtain ⟨cmp, hcmp, hagree⟩ := exists_transCmp h
  exact ⟨_, transCmp_comap record cmp, fun x hx y hy =>
    hagree _ (List.mem_map_of_mem hx) _ (List.mem_map_of_mem hy)⟩

theorem isArrangement_of_no_criteria {o : SortOrder} (h : o.criteria = []) (record : α → Json)
    (items : List α) :
    IsArrangement (fun x y => o.compare (record x) (record y)) items items where
  perm := .refl _
  sorted := by
    refine List.pairwise_of_forall fun x y => ?_
    rw [compare, h, compareBy]
    decide
  stable _ _ := rfl

end SortOrder

end RecordQuery
