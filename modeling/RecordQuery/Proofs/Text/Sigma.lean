import RecordQuery.Text.Case

/-!
# Lower case of a part of a text

The lower case form of a capital sigma depends on the letters around it, that of every other
character does not.

* `lowerBetween`: the lower case form of a part between what stands before and after it.
* `lower_append`: a text in lower case is its parts in lower case, each between the others.
* `KeepsSigmas`: the capital sigmas of a part end words in the text as they do in the part alone;
  `lowerBetween_eq_lower_iff`: then the part has its own lower case form, and only then.
* `ClosesWithSigma`, `OpensWithSigma`: parts whose last or first letter is a sigma that a letter
  beyond the part can change, and `keepsSigmas_iff`: nothing else can.
-/

namespace RecordQuery.Text

/-! ## Lower case between other texts -/

/-- The lower case form of a part of a text. What stands before it is given nearest first. -/
def lowerBetween (before after : List Char) : List Char → List Char
  | [] => []
  | c :: rest =>
    (if c = 'Σ' then [if endsWord before (rest ++ after) then 'ς' else 'σ'] else lowerOfChar c) ++
      lowerBetween (c :: before) after rest

/-- A part and what follows it are put in lower case one after the other. -/
theorem lowerFrom_append (before part after : List Char) :
    lowerFrom before (part ++ after) =
      lowerBetween before after part ++ lowerFrom (part.reverse ++ before) after := by
  induction part generalizing before with
  | nil => rfl
  | cons c rest ih =>
    rw [List.cons_append, lowerFrom, lowerBetween, ih, List.reverse_cons, List.append_assoc,
      List.append_assoc, List.singleton_append]
    split <;> rfl

theorem lowerFrom_eq_lowerBetween (before part : List Char) :
    lowerFrom before part = lowerBetween before [] part := by
  simpa [lowerFrom] using lowerFrom_append before part []

theorem lower_eq_lowerBetween (part : List Char) : lower part = lowerBetween [] [] part :=
  lowerFrom_eq_lowerBetween [] part

/-- Each part of a text is put in lower case between the others. -/
theorem lower_append (before part after : List Char) :
    lower (before ++ part ++ after) = lowerBetween [] (part ++ after) before ++
      (lowerBetween before.reverse after part ++
        lowerBetween (before ++ part).reverse [] after) := by
  rw [lower, List.append_assoc, lowerFrom_append, List.append_nil, lowerFrom_append,
    lowerFrom_eq_lowerBetween, List.reverse_append]

theorem length_lowerBetween (before after before' after' part : List Char) :
    (lowerBetween before after part).length = (lowerBetween before' after' part).length := by
  induction part generalizing before before' with
  | nil => rfl
  | cons c rest ih =>
    simp only [lowerBetween, List.length_append, ih (c :: before) (c :: before')]
    split <;> rfl

/-! ## Sigmas that stay as they are -/

/-- Each capital sigma of the part ends a word between the other texts if and only if it ends one
in the part alone. What stands before the part is given nearest first. -/
def KeepsSigmas (before part after : List Char) : Prop :=
  ∀ u v, part = u ++ 'Σ' :: v → endsWord (u.reverse ++ before) (v ++ after) = endsWord u.reverse v

/-- A text is split at a character at its first one, or its rest is. -/
theorem forall_split_cons_iff {c d : Char} {rest : List Char} {P : List Char → List Char → Prop} :
    (∀ u v, c :: rest = u ++ d :: v → P u v) ↔
      (c = d → P [] rest) ∧ ∀ u v, rest = u ++ d :: v → P (c :: u) v := by
  constructor
  · intro h
    refine ⟨?_, fun u v hrest => h (c :: u) v (by rw [hrest, List.cons_append])⟩
    rintro rfl
    exact h [] rest rfl
  · rintro ⟨hhead, hrest⟩ u v heq
    cases u with
    | nil =>
      obtain ⟨rfl, rfl⟩ := List.cons.inj heq
      exact hhead rfl
    | cons e u =>
      obtain ⟨rfl, hsplit⟩ := List.cons.inj heq
      exact hrest u v hsplit

/-- A part has the same lower case form between two pairs of texts if its sigmas end words between
both of them or between none, and only then. -/
theorem lowerBetween_eq_iff (before after before' after' part : List Char) :
    lowerBetween before after part = lowerBetween before' after' part ↔
      ∀ u v, part = u ++ 'Σ' :: v →
        endsWord (u.reverse ++ before) (v ++ after) = endsWord (u.reverse ++ before') (v ++ after') := by
  induction part generalizing before before' with
  | nil => simp [lowerBetween]
  | cons c rest ih =>
    simp only [forall_split_cons_iff, List.reverse_cons, List.append_assoc, List.singleton_append,
      List.reverse_nil, List.nil_append, ← ih]
    by_cases hc : c = 'Σ'
    · simp only [lowerBetween, hc, if_true, List.cons_append, List.nil_append, List.cons.injEq,
        forall_const]
      refine and_congr_left fun _ => ?_
      cases endsWord before (rest ++ after) <;> cases endsWord before' (rest ++ after') <;> simp
    · simp [lowerBetween, hc]

theorem lowerBetween_eq_lower_iff (before part after : List Char) :
    lowerBetween before after part = lower part ↔ KeepsSigmas before part after := by
  rw [lower_eq_lowerBetween, lowerBetween_eq_iff]
  simp [KeepsSigmas]

/-! ## Sigmas at the ends of a part -/

@[simp] theorem reachesCased_nil : reachesCased [] = false := rfl

theorem reachesCased_append (text after : List Char) :
    reachesCased (text ++ after) =
      (reachesCased text || (text.all isCaseIgnorable && reachesCased after)) := by
  induction text with
  | nil => rfl
  | cons c rest ih =>
    by_cases hc : isCaseIgnorable c = true
    · simpa [reachesCased, List.dropWhile_cons_of_pos hc, hc] using ih
    · simp [reachesCased, List.dropWhile_cons_of_neg hc, hc]

theorem reachesCased_of_all {text : List Char} (h : text.all isCaseIgnorable = true) :
    reachesCased text = false := by
  induction text with
  | nil => rfl
  | cons c rest ih =>
    obtain ⟨hc, hrest⟩ := Bool.and_eq_true_iff.mp h
    simpa [reachesCased, List.dropWhile_cons_of_pos hc] using ih hrest

/-- The last letter of the text is a capital sigma that ends a word. -/
def ClosesWithSigma (text : List Char) : Prop :=
  ∃ u v, text = u ++ 'Σ' :: v ∧ v.all isCaseIgnorable = true ∧ reachesCased u.reverse = true

/-- The first letter of the text is a capital sigma that ends a word if a letter stands before the
text, and `after` behind it. -/
def OpensWithSigma (text after : List Char) : Prop :=
  ∃ u v, text = u ++ 'Σ' :: v ∧ u.all isCaseIgnorable = true ∧ reachesCased (v ++ after) = false

/-- A place in a part ends a word in the text as in the part unless it is the last of a word that a
letter after the part continues, or the first of one that a letter before the part begins. -/
theorem endsWord_append_iff (before after u v : List Char) :
    endsWord (u.reverse ++ before) (v ++ after) = endsWord u.reverse v ↔
      ¬(v.all isCaseIgnorable = true ∧ reachesCased u.reverse = true ∧ reachesCased after = true) ∧
        ¬(u.all isCaseIgnorable = true ∧ reachesCased (v ++ after) = false ∧
          reachesCased before = true) := by
  have hu := @reachesCased_of_all u.reverse
  have hv := @reachesCased_of_all v
  simp only [endsWord, reachesCased_append, List.all_reverse] at *
  -- What is left depends on six truth values only.
  generalize reachesCased u.reverse = ru at *
  generalize u.all isCaseIgnorable = au at *
  generalize reachesCased v = rv at *
  generalize v.all isCaseIgnorable = av at *
  generalize reachesCased after = ra
  generalize reachesCased before = rb
  revert hu hv
  revert ru au rv av ra rb
  decide

/-- The sigmas of a part stay unless the last letter of the part is one that a letter after the part
changes, or the first one is one that a letter before the part changes. -/
theorem keepsSigmas_iff (before part after : List Char) :
    KeepsSigmas before part after ↔
      ¬(ClosesWithSigma part ∧ reachesCased after = true) ∧
        ¬(OpensWithSigma part after ∧ reachesCased before = true) := by
  constructor
  · refine fun h => ⟨?_, ?_⟩
    · rintro ⟨⟨u, v, hpart, hv, hu⟩, hafter⟩
      exact ((endsWord_append_iff before after u v).mp (h u v hpart)).1 ⟨hv, hu, hafter⟩
    · rintro ⟨⟨u, v, hpart, hu, hv⟩, hbefore⟩
      exact ((endsWord_append_iff before after u v).mp (h u v hpart)).2 ⟨hu, hv, hbefore⟩
  · rintro ⟨hcloses, hopens⟩ u v hpart
    refine (endsWord_append_iff before after u v).mpr ⟨?_, ?_⟩
    · rintro ⟨hv, hu, hafter⟩
      exact hcloses ⟨⟨u, v, hpart, hv, hu⟩, hafter⟩
    · rintro ⟨hu, hv, hbefore⟩
      exact hopens ⟨⟨u, v, hpart, hu, hv⟩, hbefore⟩

theorem keepsSigmas_of_not_mem {part : List Char} (h : 'Σ' ∉ part) (before after : List Char) :
    KeepsSigmas before part after := by
  rintro u v rfl
  simp at h

end RecordQuery.Text
