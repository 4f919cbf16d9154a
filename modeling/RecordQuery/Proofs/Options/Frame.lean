import Mathlib.Data.List.Nodup
import RecordQuery.Proofs.Options.Refusal
import RecordQuery.Proofs.Options.WellFormed

/-!
# Options that are left alone

* `Options.get?_setField_of_ne`, `Options.get?_setQueryPair_of_ne`: a field of an object and a pair
  of a query leave every option alone that their name does not stand for.
* `Options.get?_foldl`, `Options.exists_foldl_get?`: so do many, and of entries that are set again
  one after another, that of an option decides on it.
* `Options.exists_pair_of_contains`: a query sets only the options of its names.
-/

namespace RecordQuery.Options

/-! ## One step -/

section Step

variable {o : Options} {k : Key}

theorem get?_setField_of_ne {field : String × Json}
    (h : ∀ d, setterOf? field.1 = some d → .directive d ≠ k) :
    (o.setField field).get? k = o.get? k := by
  unfold setField
  cases hset : o.trySetField field with
  | error e => rfl
  | ok o' =>
    obtain rfl | ⟨d, hd, hchanges⟩ := Changes.trySetField hset
    · rfl
    · exact hchanges.get?_of_ne (h d hd)

theorem get?_setQueryPair_of_ne {pair : List Char × List Char}
    (h : Key.ofName? (String.ofList pair.1) ≠ some k) :
    (o.setQueryPair pair).get? k = o.get? k := by
  obtain heq | ⟨k', hk', hchanges⟩ := Changes.setQueryPair o pair
  · rw [heq]
  · refine hchanges.get?_of_ne ?_
    rintro rfl
    exact h hk'

end Step

/-! ## Many steps -/

theorem get?_foldl {α : Type} {step : Options → α → Options} {xs : List α} {k : Key}
    (h : ∀ x ∈ xs, ∀ acc, (step acc x).get? k = acc.get? k) (acc : Options) :
    (xs.foldl step acc).get? k = acc.get? k :=
  List.foldlRecOn xs step (motive := fun o => o.get? k = acc.get? k) rfl
    fun o ih x hx => (h x hx o).trans ih

section Entries

variable {κ α : Type} {entries : List (κ × α)} {e : κ × α}

theorem exists_append_of_mem (hnodup : (Keyed.keys entries).Nodup) (hmem : e ∈ entries) :
    ∃ before after, entries = before ++ e :: after ∧ ∀ other ∈ before ++ after, other.1 ≠ e.1 := by
  obtain ⟨before, after, rfl⟩ := List.append_of_mem hmem
  rw [Keyed.keys, List.map_append, List.map_cons, List.nodup_middle, ← List.map_append] at hnodup
  exact ⟨before, after, rfl, fun other hother heq =>
    (List.nodup_cons.mp hnodup).1 (List.mem_map.mpr ⟨other, hother, heq⟩)⟩

/-- Where no key occurs twice, and the entries of other keys leave an option alone when entries are
set one after another, the entry of a key decides on the option. -/
theorem exists_foldl_get? (set : Options → κ × α → Options) (hnodup : (Keyed.keys entries).Nodup)
    (hmem : e ∈ entries) {k : Key}
    (hset : ∀ other ∈ entries, other.1 ≠ e.1 → ∀ acc, (set acc other).get? k = acc.get? k)
    (acc : Options) :
    ∃ acc', acc'.get? k = acc.get? k ∧ (entries.foldl set acc).get? k = (set acc' e).get? k := by
  obtain ⟨before, after, rfl, hne⟩ := exists_append_of_mem hnodup hmem
  refine ⟨before.foldl set acc, get?_foldl (fun other hother => ?_) acc, ?_⟩
  · exact hset other (List.mem_append_left _ hother) (hne other (List.mem_append_left _ hother))
  · rw [List.foldl_append, List.foldl_cons]
    refine get?_foldl (fun other hother => ?_) _
    exact hset other (List.mem_append_right _ (List.mem_cons_of_mem _ hother))
      (hne other (List.mem_append_right _ hother))

end Entries

/-- A query sets only the options of its names. -/
theorem exists_pair_of_contains {query : String} {k : Key}
    (h : (ofQueryString query).contains k = true) :
    ∃ pair ∈ Text.formPairs (dropMark query.toList),
      Key.ofName? (String.ofList pair.1) = some k := by
  by_contra hnone
  have hget : (ofQueryString query).get? k = none := get?_foldl (fun pair hpair acc =>
    get?_setQueryPair_of_ne fun hname => hnone ⟨pair, hpair, hname⟩) empty
  rw [contains, hget] at h
  cases h

end RecordQuery.Options
