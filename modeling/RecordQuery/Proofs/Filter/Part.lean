import RecordQuery.Filter.Evaluation
import RecordQuery.Proofs.Text.Sigma

/-!
# Parts of texts found by text functions

A text function finds every part of a text in its place, if putting the part in lower case does not
change how its capital sigmas end words.

* `Text.hasPart_iff_isInfix`: what it means that a part stands somewhere in a text.
* `Text.isPrefixOf_lower_iff`, `Text.isSuffixOf_lower_iff`, `Text.hasPart_lower`: when a text in
  lower case has a part of it in lower case at its start, at its end, or in it.
* `Filter.test_part`: which records with a part, and more around it, the text functions accept.
* `Filter.test_part_lost`: a part that none of them finds.
-/

namespace RecordQuery

namespace Text

theorem hasPart_iff_isInfix {part text : List Char} : hasPart part text = true ↔ part <:+: text := by
  induction text with
  | nil => simp [hasPart]
  | cons c rest ih =>
    rw [hasPart, Bool.or_eq_true, ih, List.isPrefixOf_iff_prefix, List.infix_cons_iff]

/-- In lower case too a text begins with its first part if the sigmas of the part stay, and only
then. -/
theorem isPrefixOf_lower_iff (part after : List Char) :
    (lower part).isPrefixOf (lower (part ++ after)) = true ↔ KeepsSigmas [] part after := by
  have hlength : (lower part).length = (lowerBetween [] after part).length := by
    rw [lower_eq_lowerBetween]
    exact length_lowerBetween ..
  rw [List.isPrefixOf_iff_prefix, ← lowerBetween_eq_lower_iff, lower.eq_1 (part ++ after),
    lowerFrom_append]
  constructor
  · intro h
    have hlead := List.prefix_of_prefix_length_le h (List.prefix_append _ _) (Nat.le_of_eq hlength)
    exact (hlead.eq_of_length hlength).symm
  · intro h
    rw [h]
    exact List.prefix_append _ _

theorem isSuffixOf_lower_iff (before part : List Char) :
    (lower part).isSuffixOf (lower (before ++ part)) = true ↔ KeepsSigmas before.reverse part [] := by
  have hlength : (lower part).length = (lowerBetween before.reverse [] part).length := by
    rw [lower_eq_lowerBetween]
    exact length_lowerBetween ..
  rw [List.isSuffixOf_iff_suffix, ← lowerBetween_eq_lower_iff, lower.eq_1 (before ++ part),
    lowerFrom_append, List.append_nil, lowerFrom_eq_lowerBetween before.reverse]
  constructor
  · intro h
    have hsuffix := List.suffix_of_suffix_length_le h (List.suffix_append _ _) (Nat.le_of_eq hlength)
    exact (hsuffix.eq_of_length hlength).symm
  · intro h
    rw [h]
    exact List.suffix_append _ _

theorem hasPart_lower {before part after : List Char} (h : KeepsSigmas before.reverse part after) :
    hasPart (lower part) (lower (before ++ part ++ after)) = true := by
  rw [hasPart_iff_isInfix, lower_append, (lowerBetween_eq_lower_iff ..).mpr h, ← List.append_assoc]
  exact List.infix_append _ _ _

end Text

namespace Filter

/-- A text function on the only field of a record compares the two texts in lower case. -/
theorem test_field {name : String} (hne : name ≠ "") (hpoint : '.' ∉ name.toList) (f : TextFunction)
    (part text : String) (strict : Bool) :
    (condition name (.function f) (.text part)).test (.object [(name, .string text)]) strict =
      f.finds (Text.lower text.toList) (Text.lower part.toList) := by
  have hresolve : Json.resolve? name (.object [(name, .string text)]) = some (.string text) := by
    simp [Json.resolve?, hne, List.splitOn_eq_singleton hpoint, Json.field?, Keyed.get?]
  simp only [condition, test_leaf, Condition.test, hresolve]
  rfl

/-- A text that begins or ends with a part, or has it in it, is accepted by the text function for
that part unless a capital sigma at an end of the part is changed by a letter beyond it. A part at
the start or the end of a text is found in no other case. -/
theorem test_part {name : String} (hne : name ≠ "") (hpoint : '.' ∉ name.toList)
    (a b c : String) (strict : Bool) :
    let accepts (f : TextFunction) (text : String) :=
      (condition name (.function f) (.text b)).test (.object [(name, .string text)]) strict
    (accepts .startsWith (b ++ c) = true ↔
        ¬(Text.ClosesWithSigma b.toList ∧ Text.reachesCased c.toList = true)) ∧
      (accepts .endsWith (a ++ b) = true ↔
        ¬(Text.OpensWithSigma b.toList [] ∧ Text.reachesCased a.toList.reverse = true)) ∧
      (¬(Text.ClosesWithSigma b.toList ∧ Text.reachesCased c.toList = true) →
        ¬(Text.OpensWithSigma b.toList c.toList ∧ Text.reachesCased a.toList.reverse = true) →
        accepts .contains (a ++ b ++ c) = true) ∧
      ('Σ' ∉ b.toList → accepts .startsWith (b ++ c) = true ∧ accepts .endsWith (a ++ b) = true ∧
        accepts .contains (a ++ b ++ c) = true) := by
  intro accepts
  have hstart : accepts .startsWith (b ++ c) = true ↔ Text.KeepsSigmas [] b.toList c.toList := by
    simp only [accepts, test_field hne hpoint, String.toList_append]
    exact Text.isPrefixOf_lower_iff b.toList c.toList
  have hend : accepts .endsWith (a ++ b) = true ↔
      Text.KeepsSigmas a.toList.reverse b.toList [] := by
    simp only [accepts, test_field hne hpoint, String.toList_append]
    exact Text.isSuffixOf_lower_iff a.toList b.toList
  have hwithin : Text.KeepsSigmas a.toList.reverse b.toList c.toList →
      accepts .contains (a ++ b ++ c) = true := by
    simp only [accepts, test_field hne hpoint, String.toList_append]
    exact Text.hasPart_lower
  refine ⟨?_, ?_, fun hcloses hopens => ?_, fun hsigma => ⟨?_, ?_, ?_⟩⟩
  · simp [hstart, Text.keepsSigmas_iff]
  · simp [hend, Text.keepsSigmas_iff]
  · exact hwithin ((Text.keepsSigmas_iff ..).mpr ⟨hcloses, hopens⟩)
  · exact hstart.mpr (Text.keepsSigmas_of_not_mem hsigma _ _)
  · exact hend.mpr (Text.keepsSigmas_of_not_mem hsigma _ _)
  · exact hwithin (Text.keepsSigmas_of_not_mem hsigma _ _)

/-- A word that ends with a sigma is found between blanks. -/
theorem test_part_word :
    (condition "p" (.function .contains) (.text "ΟΔΟΣ")).test
      (.object [("p", .string ("Η " ++ "ΟΔΟΣ" ++ " ΑΣ"))]) = true := by
  have hbefore : Text.reachesCased "Η ".toList.reverse = false := by decide +kernel
  have hafter : Text.reachesCased " ΑΣ".toList = false := by decide +kernel
  have hne : "p" ≠ "" := by decide
  obtain ⟨-, -, hcontains, -⟩ := test_part hne (by decide) "Η " "ΟΔΟΣ" " ΑΣ" true
  refine hcontains (fun ⟨_, h⟩ => ?_) (fun ⟨_, h⟩ => ?_)
  · rw [hafter] at h
    cases h
  · rw [hbefore] at h
    cases h

/-- A sigma that ends a word in the part, and not in the text, or the other way round. -/
theorem test_part_lost :
    (condition "p" (.function .contains) (.text "ΑΣ")).test
        (.object [("p", .string ("" ++ "ΑΣ" ++ "Α"))]) = false ∧
      (condition "p" (.function .startsWith) (.text "ΑΣ")).test
        (.object [("p", .string ("ΑΣ" ++ "Α"))]) = false ∧
      (condition "p" (.function .endsWith) (.text "Σ")).test
        (.object [("p", .string ("Α" ++ "Σ"))]) = false := by
  decide +kernel

end Filter

end RecordQuery
