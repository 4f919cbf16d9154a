import RecordQuery.Text.Blank

/-!
# Texts cut into pieces

* `sublist_of_mem_splitOnP`: a piece is a part of the text without the separators.
* `splitOn_intercalate_eq_flatMap`: a text that is put together with separators has the pieces of its
  parts, whether or not the parts have separators themselves.
* `exists_splitOn_eq_cons`, `exists_last_piece`: the first piece of a text is what stands before the
  first separator, and the last piece what stands after the last one.
* `words_append_blank`, `mem_words`: the words of a text that begins with one, and what words are.
-/

namespace RecordQuery.Text

section Pieces

variable {α : Type}

theorem sublist_of_mem_splitOnP {p : α → Bool} {text piece : List α} (h : piece ∈ text.splitOnP p) :
    piece.Sublist (text.filter fun a => !p a) := by
  induction text generalizing piece with
  | nil =>
    rw [List.splitOnP_nil, List.mem_singleton] at h
    exact h ▸ List.nil_sublist _
  | cons a rest ih =>
    rw [List.splitOnP_cons_eq_if_modifyHead] at h
    split at h
    · rename_i ha
      rw [List.filter_cons_of_neg (by simp [ha])]
      rcases List.mem_cons.mp h with rfl | h
      · exact List.nil_sublist _
      · exact ih h
    · rename_i ha
      rw [List.filter_cons_of_pos (by simp [ha])]
      obtain ⟨first, pieces, hpieces⟩ := List.exists_cons_of_ne_nil (List.splitOnP_ne_nil p rest)
      rw [hpieces] at h ih
      rcases List.mem_cons.mp h with rfl | h
      · exact (ih List.mem_cons_self).cons_cons a
      · exact (ih (List.mem_cons_of_mem _ h)).cons a

variable [DecidableEq α]

/-- A text that is put together with separators has the pieces of its parts. -/
theorem splitOn_intercalate_eq_flatMap (a : α) {parts : List (List α)} (h : parts ≠ []) :
    (List.intercalate [a] parts).splitOn a = parts.flatMap fun part => part.splitOn a := by
  induction parts with
  | nil => exact absurd rfl h
  | cons part rest ih =>
    cases rest with
    | nil => simp [List.intercalate_singleton]
    | cons next rest =>
      rw [List.intercalate_cons_cons, List.append_assoc, List.singleton_append,
        List.splitOn_append_cons_self, ih (by simp)]
      rfl

theorem exists_splitOn_eq_cons (a : α) (text : List α) :
    ∃ pieces, text.splitOn a = text.takeWhile (· ≠ a) :: pieces := by
  induction text with
  | nil => exact ⟨[], rfl⟩
  | cons b rest ih =>
    obtain ⟨pieces, hpieces⟩ := ih
    rw [List.splitOn_cons_eq_if_modifyHead, hpieces]
    by_cases hb : b = a <;> simp [hb]

/-- A text is its last piece, or its last piece after a separator. -/
theorem exists_last_piece (a : α) (text : List α) :
    a ∉ text ∨ ∃ before last, text = before ++ a :: last ∧ a ∉ last := by
  by_cases h : a ∈ text
  · obtain ⟨last, before, hreverse, hlast⟩ := List.eq_append_cons_of_mem (List.mem_reverse.mpr h)
    refine .inr ⟨before.reverse, last.reverse, ?_, by simpa using hlast⟩
    rw [← List.reverse_reverse text, hreverse]
    simp
  · exact .inl h

end Pieces

/-! ## Words -/

/-- A word is not empty, and has none but characters of the text that are not blank. -/
theorem mem_words {text word : List Char} (h : word ∈ words text) :
    word ≠ [] ∧ ∀ c ∈ word, c ∈ text ∧ isBlank c = false := by
  obtain ⟨hpiece, hne⟩ := List.mem_filter.mp h
  refine ⟨by simpa using hne, fun c hc => ?_⟩
  simpa using (sublist_of_mem_splitOnP hpiece).mem hc

section Word

variable {word : List Char} (hne : word ≠ []) (h : ∀ c ∈ word, isBlank c = false)
include hne h

theorem words_singleton : words word = [word] := by
  simp [words, List.splitOnP_eq_singleton h, hne]

theorem words_append_blank {blank : Char} (hblank : isBlank blank = true) (rest : List Char) :
    words (word ++ blank :: rest) = word :: words rest := by
  simp [words, List.splitOnP_append_cons_of_forall_mem h _ hblank, hne]

end Word

end RecordQuery.Text
