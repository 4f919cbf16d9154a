import Mathlib.Data.List.Basic
import RecordQuery.Options.Basic
import RecordQuery.Proofs.Text.Pieces

/-!
# Sort orders read back from their text

* `SortOrder.IsWritable`: orders whose properties are not empty and have neither blanks nor commas.
* `SortOrder.Criterion.read?_chars`, `SortOrder.Criterion.of_read?`: a criterion is read back from its
  text, and what is read can be written.
* `SortOrder.read_text_eq_iff`, `SortOrder.isWritable_read`: so it is with orders.
* `SortOrder.criteria_read_joinTexts`: texts with commas between them write the criteria of all texts,
  in order.
* `SortOrder.text_correspondence`: all this together, and for the option.
-/

namespace RecordQuery.SortOrder

/-! ## One criterion -/

/-- The property is not empty, and has neither blanks nor commas. -/
structure Criterion.IsWritable (c : Criterion) : Prop where
  ne_nil : c.property.toList ≠ []
  bare : ∀ ch ∈ c.property.toList, Text.isBlank ch = false ∧ ch ≠ ','

/-- All properties are not empty, and have neither blanks nor commas. -/
def IsWritable (o : SortOrder) : Prop := ∀ c ∈ o.criteria, c.IsWritable

theorem Direction.ofWord?_word (d : Direction) : ofWord? d.word = some d := by
  cases d <;> decide +kernel

theorem Direction.word_chars (d : Direction) :
    d.word.toList ≠ [] ∧ ∀ c ∈ d.word.toList, Text.isBlank c = false ∧ c ≠ ',' := by
  have hbare : d.word.toList.all (fun c => !Text.isBlank c && c != ',') = true := by
    cases d <;> decide +kernel
  exact ⟨by cases d <;> decide, by simpa using hbare⟩

namespace Criterion

theorem read?_chars {c : Criterion} (h : c.IsWritable) : read? c.chars = some c := by
  obtain ⟨hne, hword⟩ := c.direction.word_chars
  have hwords : Text.words c.chars = [c.property.toList, c.direction.word.toList] := by
    rw [chars, Text.words_append_blank h.ne_nil (fun ch hch => (h.bare ch hch).1) (by decide),
      Text.words_singleton hne fun ch hch => (hword ch hch).1]
  simp [read?, hwords, Direction.ofWord?_word]

theorem property_mem_words {text : List Char} {c : Criterion} (h : read? text = some c) :
    c.property.toList ∈ Text.words text := by
  unfold read? at h
  split at h
  · rename_i property hwords
    cases h
    simp [hwords]
  · rename_i property direction hwords
    obtain ⟨d, -, rfl⟩ := Option.map_eq_some_iff.mp h
    simp [hwords]
  · cases h

/-- What is read from a text without commas can be written. -/
theorem of_read? {text : List Char} (hcomma : ',' ∉ text) {c : Criterion}
    (h : read? text = some c) : c.IsWritable := by
  obtain ⟨hne, hchars⟩ := Text.mem_words (property_mem_words h)
  refine ⟨hne, fun ch hch => ⟨(hchars ch hch).2, ?_⟩⟩
  rintro rfl
  exact hcomma (hchars ',' hch).1

theorem IsWritable.comma_not_mem_chars {c : Criterion} (h : c.IsWritable) : ',' ∉ c.chars := by
  intro hmem
  rcases List.mem_append.mp hmem with hmem | hmem
  · exact (h.bare ',' hmem).2 rfl
  · rcases List.mem_cons.mp hmem with heq | hmem
    · revert heq
      decide
    · exact (c.direction.word_chars.2 ',' hmem).2 rfl

end Criterion

/-! ## Orders -/

theorem isWritable_read (text : String) : (read text).IsWritable := by
  intro c hc
  obtain ⟨piece, hpiece, hread⟩ := List.mem_filterMap.mp hc
  refine Criterion.of_read? (fun hcomma => ?_) hread
  have hkept := (Text.sublist_of_mem_splitOnP hpiece).mem hcomma
  simp at hkept

theorem read_text {o : SortOrder} (h : o.IsWritable) : read o.text = o := by
  obtain ⟨criteria⟩ := o
  by_cases hnil : criteria = []
  · subst hnil
    decide
  · have hpieces : (List.intercalate [','] (criteria.map Criterion.chars)).splitOn ',' =
        criteria.map Criterion.chars := by
      refine List.splitOn_intercalate ',' (fun piece hpiece => ?_) (by simpa using hnil)
      obtain ⟨c, hc, rfl⟩ := List.mem_map.mp hpiece
      exact (h c hc).comma_not_mem_chars
    have hread : criteria.filterMap (Criterion.read? ∘ Criterion.chars) = criteria.filterMap some :=
      List.filterMap_congr fun c hc => Criterion.read?_chars (h c hc)
    simp only [read, text, String.toList_ofList, hpieces, List.filterMap_map, hread,
      List.filterMap_some]

/-- The orders that are read back from their text are those that can be written. -/
theorem read_text_eq_iff {o : SortOrder} : read o.text = o ↔ o.IsWritable :=
  ⟨fun h => h ▸ isWritable_read o.text, read_text⟩

/-- Texts with commas between them write the criteria of all texts, in order. -/
theorem criteria_read_joinTexts (items : List String) :
    (read (Options.joinTexts items)).criteria = items.flatMap fun item => (read item).criteria := by
  by_cases hnil : items = []
  · subst hnil
    decide
  · have hchars : (Options.joinTexts items).toList =
        List.intercalate [','] (items.map String.toList) := String.toList_intercalate
    simp only [read, hchars]
    rw [Text.splitOn_intercalate_eq_flatMap ',' (by simpa using hnil), List.flatMap_map,
      List.filterMap_flatMap]

/-- An order is read back from its text if and only if its properties are not empty and have neither
blanks nor commas. Any text gives such an order, and so reading what was read and written changes
nothing. The order under a list of texts has the criteria that the texts write, in order, also where
the texts have commas themselves or write nothing. -/
theorem text_correspondence :
    (∀ o : SortOrder, read o.text = o ↔ o.IsWritable) ∧
      (∀ text, (read text).IsWritable ∧ read (read text).text = read text) ∧
      ∀ (o : Options) (items : List String),
        (o.setTexts .orderBy items).sortOrder.criteria =
          items.flatMap fun item => (read item).criteria := by
  refine ⟨fun o => read_text_eq_iff, fun text => ?_, fun o items => ?_⟩
  · exact ⟨isWritable_read text, read_text (isWritable_read text)⟩
  · have horder : (o.setTexts .orderBy items).orderBy? = some (Options.joinTexts items) := by
      rw [Options.orderBy?, Options.text?, Options.setTexts, Options.setText, Options.get?,
        Options.put, Keyed.get?_put, if_pos rfl]
    rw [Options.sortOrder, horder, ← criteria_read_joinTexts]

/-- Blanks of several kinds, directions in capitals, criteria that are passed over and an item with
commas. -/
example :
    (Options.empty.setTexts .orderBy ["a\u00a0DESC ,b up", "", "c.d\t"]).sortOrder =
      ⟨[⟨"a", .descending⟩, ⟨"c.d", .ascending⟩]⟩ := by
  decide +kernel

end RecordQuery.SortOrder
