import RecordQuery.Page
import RecordQuery.Proofs.SortOrder.Arrangement

/-!
# The records of a page

* `Options.matching`: the items whose records the filter accepts. A page arranges these
  (`Options.perm_of_arranged?`) and counts them (`Options.total_page?`).
* `Options.arranged?_of_homogeneous`: where the matching records are homogeneous under each
  criterion, every routine gives their one stable arrangement.
* `Options.page_of_homogeneous`: so a page has the records at the places asked for in it, and its
  total counts all of them.
-/

namespace RecordQuery.Options

variable {α : Type}

/-- The items whose records the filter accepts; all of them if there is none. -/
def matching (o : Options) (record : α → Json) (items : List α) (strict : Bool) : List α :=
  items.filter fun x => o.filter?.all fun f => f.test (record x) strict

theorem passes_eq (o : Options) (record : α → Json) (strict : Bool) :
    o.passes record strict = fun x => o.filter?.all fun f => f.test (record x) strict := by
  funext x
  unfold passes
  cases o.filter? <;> rfl

theorem arranged?_eq (sorting : Sorting α) (o : Options) (record : α → Json) (items : List α)
    (strict : Bool) :
    o.arranged? sorting record items strict =
      if o.sortOrder.criteria = [] then some (o.matching record items strict)
      else sorting.run (fun x y => o.sortOrder.compare (record x) (record y))
        (o.matching record items strict) := by
  simp only [arranged?, passes_eq, matching, List.isEmpty_iff]

/-- All matching items are arranged, whatever their order. -/
theorem perm_of_arranged? {sorting : Sorting α} {o : Options} {record : α → Json} {items : List α}
    {strict : Bool} {arranged : List α}
    (h : o.arranged? sorting record items strict = some arranged) :
    arranged.Perm (o.matching record items strict) := by
  rw [arranged?_eq] at h
  split at h
  · cases h
    exact .refl _
  · exact sorting.perm h

theorem total_page? {sorting : Sorting α} {o : Options} {record : α → Json} {items : List α}
    {strict : Bool} {page : Page α} (h : o.page? sorting record items strict = some page) :
    page.total =
      if o.inlineCount?.isSome then some (o.matching record items strict).length else none := by
  obtain ⟨arranged, harranged, rfl⟩ := Option.map_eq_some_iff.mp h
  simp only [cut, (perm_of_arranged? harranged).length_eq]
  cases o.inlineCount? <;> rfl

section Homogeneous

variable {o : Options} {record : α → Json} {items : List α} {strict : Bool}
  (h : ∀ c ∈ o.sortOrder.criteria, c.IsHomogeneous ((o.matching record items strict).map record))
include h

/-- Homogeneous records have one stable arrangement, which is the order given if there is no
criterion. -/
theorem exists_arrangement : ∃ arranged : List α,
    (∀ l, IsArrangement (fun x y => o.sortOrder.compare (record x) (record y))
      (o.matching record items strict) l ↔ l = arranged) ∧
    (o.sortOrder.criteria = [] → arranged = o.matching record items strict) := by
  have hpreorder := SortOrder.isPreorderOn_of_homogeneous h
  have hmerge := hpreorder.isArrangement_mergeSort
  refine ⟨_, fun l => ⟨fun hl => hl.unique hpreorder hmerge, ?_⟩, fun hcriteria => ?_⟩
  · rintro rfl
    exact hmerge
  · exact hmerge.unique hpreorder (SortOrder.isArrangement_of_no_criteria hcriteria record _)

theorem arranged?_of_homogeneous {arranged : List α}
    (harranged : IsArrangement (fun x y => o.sortOrder.compare (record x) (record y))
      (o.matching record items strict) arranged) (sorting : Sorting α) :
    o.arranged? sorting record items strict = some arranged := by
  have hpreorder := SortOrder.isPreorderOn_of_homogeneous h
  rw [arranged?_eq]
  split
  · rename_i hcriteria
    have hgiven := SortOrder.isArrangement_of_no_criteria hcriteria record
      (o.matching record items strict)
    rw [hgiven.unique hpreorder harranged]
  · obtain ⟨arranged', hrun, harranged'⟩ := sorting.stable hpreorder
    rw [hrun, harranged'.unique hpreorder harranged]

end Homogeneous

/-- The records of a page are at the places that the options ask for in the one stable arrangement
of the matching records, which is the order given if there is no criterion. Its total, if asked for,
counts all matching records. No routine that sorts them breaks off or gives another page. -/
theorem page_of_homogeneous (o : Options) (record : α → Json) (items : List α) (strict : Bool)
    (h : ∀ c ∈ o.sortOrder.criteria,
      c.IsHomogeneous ((o.matching record items strict).map record)) :
    let page := o.page record items strict
    let matching := o.matching record items strict
    (∀ sorting, o.page? sorting record items strict = some page) ∧
    ∃ arranged : List α,
      (∀ l, IsArrangement (fun x y => o.sortOrder.compare (record x) (record y)) matching l ↔
        l = arranged) ∧
      (o.sortOrder.criteria = [] → arranged = matching) ∧
      (∀ i, page.records[i]? =
        if o.top?.all (i < ·) then arranged[o.skip?.getD 0 + i]? else none) ∧
      page.total = if o.inlineCount?.isSome then some matching.length else none := by
  intro page matching
  obtain ⟨arranged, hunique, hgiven⟩ := exists_arrangement h
  have hpage (sorting : Sorting α) :
      o.page? sorting record items strict = some (o.cut arranged) := by
    rw [page?, arranged?_of_homogeneous h ((hunique arranged).mpr rfl) sorting]
    rfl
  have hmerge : page = o.cut arranged := by
    rw [← Option.some.injEq, ← hpage .merge, page?_merge]
  refine ⟨fun sorting => by rw [hpage, hmerge], arranged, hunique, hgiven, fun i => ?_,
    total_page? (o.page?_merge record items strict)⟩
  rw [hmerge, cut]
  cases o.top? with
  | none => simp
  | some n => simp [List.getElem?_take]

/-- The first of five matching records is passed over and the fourth is cut off. The record that
does not match has a number where the others have dates. -/
theorem page_of_homogeneous_dates :
    let f : Filter := .condition "n" (.comparison .lt) (.number (.ofInt 9))
    let o := ((((empty.setText .orderBy "day desc, n").setFilter f).setCount .skip 1).setCount .top
      2).setInlineCount true
    let item (day : Json) (n : Int) := Json.object [("day", day), ("n", .number (.integer n))]
    let items := [item (.string "2020-01-02") 7, item .null 1, item (.number (.integer 5)) 9,
      item (.string "2020-01-02T01:00:00+01:00") 3, item (.string "2021-01-01") 2, item .null 1]
    let page := o.page id items true
    let matching := o.matching id items true
    (∀ c ∈ o.sortOrder.criteria, c.IsHomogeneous (matching.map id)) ∧
      (∀ sorting, o.page? sorting id items true = some page) ∧
      ∃ arranged : List Json,
        (∀ l, IsArrangement (fun x y => o.sortOrder.compare x y) matching l ↔ l = arranged) ∧
        page.records[0]? = arranged[1]? ∧ page.records[1]? = arranged[2]? ∧
        page.records[2]? = none ∧ page.total = some 5 := by
  intro f o item items page matching
  have hhomogeneous : ∀ c ∈ o.sortOrder.criteria, c.IsHomogeneous (matching.map id) := by
    decide +kernel
  obtain ⟨hpage, arranged, hunique, -, hrecords, htotal⟩ :=
    page_of_homogeneous o id items true hhomogeneous
  refine ⟨hhomogeneous, hpage, arranged, hunique, hrecords 0, hrecords 1, hrecords 2,
    htotal.trans ?_⟩
  decide +kernel

end RecordQuery.Options
