import Mathlib.Data.List.DropRight
import RecordQuery.Text.Blank

/-!
# Lists without what stands at their two ends

* `dropEnds_append`: what is dropped at the ends does not matter.
* `exists_dropEnds`: a list is what is left, with dropped elements before and after it.
* `dropEnds_eq_self`: nothing is dropped where the ends stay.
* `trim_append`: blanks around a text do not matter.
-/

namespace RecordQuery.Text

variable {α : Type}

/-- The list without the elements at its two ends of which `p` holds. -/
def dropEnds (p : α → Bool) (l : List α) : List α := (l.dropWhile p).rdropWhile p

theorem rdropWhile_append {p : α → Bool} (l : List α) {after : List α} (h : ∀ a ∈ after, p a = true) :
    (l ++ after).rdropWhile p = l.rdropWhile p := by
  rw [List.rdropWhile, List.reverse_append,
    List.dropWhile_append_of_pos fun a ha => h a (List.mem_reverse.mp ha), List.rdropWhile]

theorem dropEnds_append {p : α → Bool} {before after : List α} (hbefore : ∀ a ∈ before, p a = true)
    (hafter : ∀ a ∈ after, p a = true) (l : List α) :
    dropEnds p (before ++ l ++ after) = dropEnds p l := by
  rw [dropEnds, List.append_assoc, List.dropWhile_append_of_pos hbefore, List.dropWhile_append]
  split
  · rename_i hempty
    rw [List.dropWhile_eq_nil_iff.mpr hafter, dropEnds, List.isEmpty_iff.mp hempty]
  · exact rdropWhile_append _ hafter

theorem exists_dropEnds (p : α → Bool) (l : List α) :
    ∃ before after, l = before ++ dropEnds p l ++ after ∧ (∀ a ∈ before, p a = true) ∧
      ∀ a ∈ after, p a = true := by
  refine ⟨l.takeWhile p, (l.dropWhile p).rtakeWhile p, ?_, fun a => List.mem_takeWhile_imp,
    fun a => List.mem_rtakeWhile_imp⟩
  rw [dropEnds, List.append_assoc, List.rdropWhile_append_rtakeWhile, List.takeWhile_append_dropWhile]

/-- What is left is a part of the list. -/
theorem dropEnds_infix (p : α → Bool) (l : List α) : dropEnds p l <:+: l :=
  (List.rdropWhile_prefix p _).isInfix.trans (List.dropWhile_suffix p).isInfix

theorem dropEnds_eq_self {p : α → Bool} {l : List α} (hfirst : ∀ a ∈ l.head?, p a = false)
    (hlast : ∀ a ∈ l.getLast?, p a = false) : dropEnds p l = l := by
  have hstart : l.dropWhile p = l := by
    cases l with
    | nil => rfl
    | cons a l => exact List.dropWhile_cons_of_neg (by rw [hfirst a rfl]; decide)
  rw [dropEnds, hstart, List.rdropWhile_eq_self_iff]
  intro hne
  rw [hlast _ (List.getLast?_eq_some_getLast hne)]
  decide

/-! ## Blanks around a text -/

theorem trim_eq_dropEnds (text : List Char) : trim text = dropEnds isBlank text := rfl

/-- Blanks around a text do not matter. -/
theorem trim_append {before after : List Char} (hbefore : ∀ c ∈ before, isBlank c = true)
    (hafter : ∀ c ∈ after, isBlank c = true) (text : List Char) :
    trim (before ++ text ++ after) = trim text :=
  dropEnds_append hbefore hafter text

end RecordQuery.Text
