import RecordQuery.Proofs.Options.Frame
import RecordQuery.Proofs.Options.Object
import RecordQuery.Proofs.Options.QueryString

/-!
# Counts in objects and in query strings

* `Options.IsWellFormed.ofJson_toJson_eq`, `Options.IsUnambiguous.ofQueryString_queryString_eq`:
  reading sets one option again after another.
* `Options.count?_ofJson_toJson`: an object carries every count.
* `Options.count?_ofQueryString_queryString`: a query string carries the number of double precision
  nearest to a count, and no count if that is `2^63`.
* `Options.count?_carried`: both together, and which counts a query string keeps.
-/

namespace RecordQuery.Options

open Number (nearestDouble nearestDouble_eq_self_iff nearestDouble_lt_iff)

-- Powers are those of core, whatever else is imported.
attribute [local instance (high)] instPowNat

/-! ## Counts -/

theorem IsWellFormed.mem_of_count? {o : Options} (h : o.IsWellFormed) {k : CountKey} {n : Nat}
    (hn : o.count? k = some n) :
    (.directive (.count k), .count n) ∈ o.entries ∧ n < 2 ^ (63 : Nat) := by
  have hmem : (Key.directive (.count k), Setting.count n) ∈ o.entries := by
    unfold count? at hn
    split at hn <;> cases hn
    exact Keyed.mem_of_get? ‹_›
  refine ⟨hmem, ?_⟩
  cases h.admits _ hmem
  assumption

/-! ## Counts in objects -/

/-- Sets an option again as the object of options says it. -/
def setAsField (o : Options) (e : Key × Setting) : Options := o.setField (e.1.name, e.2.toJson)

theorem IsWellFormed.ofJson_toJson_eq {o : Options} (h : o.IsWellFormed) :
    Options.ofJson o.toJson = o.entries.foldl setAsField Options.empty := by
  rw [h.toJson_eq]
  exact List.foldl_map

/-- The name of an option is the key of a setter only for directives, and then of its own. -/
theorem IsWellFormed.eq_of_setterOf? {o : Options} (h : o.IsWellFormed) {e : Key × Setting}
    (he : e ∈ o.entries) {d : Directive} (hd : setterOf? e.1.name = some d) :
    e.1 = .directive d := by
  obtain ⟨k, s⟩ := e
  cases k with
  | directive d' =>
    have hsome : setterOf? d'.name = some d := hd
    rw [setterOf?_directive] at hsome
    rw [Option.some.inj hsome]
  | custom name =>
    cases h.admits _ he with
    | custom hname =>
      have hsome : setterOf? name = some d := hd
      rw [setterOf?_custom hname] at hsome
      cases hsome

theorem setAsField_count (o : Options) (k : CountKey) {n : Nat} (hn : n < 2 ^ (63 : Nat)) :
    o.setAsField (.directive (.count k), .count n) = o.put (.directive (.count k)) (.count n) :=
  o.setField_count k (integerOf?_integer hn)

theorem count?_ofJson_toJson {o : Options} (h : o.IsWellFormed) {k : CountKey} {n : Nat}
    (hn : o.count? k = some n) : (ofJson o.toJson).count? k = some n := by
  obtain ⟨hmem, hlt⟩ := h.mem_of_count? hn
  obtain ⟨acc, -, hget⟩ := exists_foldl_get? (k := .directive (.count k)) setAsField h.nodup hmem
    (fun e he hne acc =>
      get?_setField_of_ne fun d hd heq => hne ((h.eq_of_setterOf? he hd).trans heq)) empty
  rw [h.ofJson_toJson_eq, count?_congr hget, setAsField_count acc k hlt, count?_put]

/-! ## Counts in query strings -/

/-- A query of plain values can be taken apart: names stand for themselves, and no value has a
character that parts a query or stands for another. -/
def IsUnambiguous (o : Options) : Prop :=
  ∀ e ∈ o.entries, IsBare e.1.name ∧ ∀ c ∈ ['&', '+', '%'], c ∉ e.2.chars

theorem IsUnambiguous.formPairs_queryChars {o : Options} (h : o.IsUnambiguous) :
    Text.formPairs (dropMark (o.queryChars id)) =
      o.entries.map fun (k, s) => (k.name.toList, s.chars) := by
  refine Options.formPairs_queryChars (fun k hk => ?_) fun e he => ?_
  · obtain ⟨e, he, rfl⟩ := List.mem_map.mp hk
    exact (h e he).1
  · have hvalue := (h e he).2
    refine ⟨hvalue _ (by decide), Text.formDecode_of_ne fun c hc => ⟨?_, ?_⟩⟩
    all_goals
      rintro rfl
      exact hvalue _ (by decide) hc

/-- Sets an option again as a query of plain values says it. -/
def setAsPair (o : Options) (e : Key × Setting) : Options :=
  o.setQueryPair (e.1.name.toList, e.2.chars)

/-- Reading a query of plain values sets its options again one after another. -/
theorem IsUnambiguous.ofQueryString_queryString_eq {o : Options} (h : o.IsUnambiguous) :
    ofQueryString o.queryString = o.entries.foldl setAsPair empty := by
  rw [ofQueryString, queryString, String.toList_ofList, h.formPairs_queryChars]
  exact List.foldl_map

/-- A query of plain values carries the integer of double precision nearest to a count, and no count
if that is `2^63`. -/
theorem count?_ofQueryString_queryString {o : Options} (h : o.IsWellFormed)
    (hplain : o.IsUnambiguous) {k : CountKey} {n : Nat} (hn : o.count? k = some n) :
    (ofQueryString o.queryString).count? k =
      if nearestDouble n < 2 ^ (63 : Nat) then some (nearestDouble n) else none := by
  obtain ⟨hmem, hlt⟩ := h.mem_of_count? hn
  have hothers : ∀ e ∈ o.entries, e.1 ≠ .directive (.count k) → ∀ acc : Options,
      (acc.setAsPair e).get? (.directive (.count k)) = acc.get? (.directive (.count k)) := by
    intro e he hne acc
    refine get?_setQueryPair_of_ne ?_
    rw [String.ofList_toList, h.ofName?_of_mem (List.mem_map_of_mem he)]
    exact fun heq => hne (Option.some.inj heq)
  obtain ⟨acc, hacc, hget⟩ := exists_foldl_get? setAsPair h.nodup hmem hothers empty
  have hset : acc.setAsPair (.directive (.count k), .count n) = _ := setQueryPair_count acc k hlt
  rw [hplain.ofQueryString_queryString_eq, count?_congr hget, hset]
  split
  · rw [count?_put]
  · rw [count?_congr hacc]
    rfl

/-- A count has digits alone, and so leaves a query unambiguous. -/
theorem IsUnambiguous.put_count {o : Options} (h : o.IsUnambiguous) (k : CountKey) (n : Nat) :
    (o.put (.directive (.count k)) (.count n)).IsUnambiguous := by
  intro e he
  rcases Keyed.mem_put he with rfl | he
  · have hnone : ∀ c ∈ ['&', '+', '%'], c.isDigit = false := by
      intro c hc
      fin_cases hc <;> rfl
    refine ⟨isBare_directive _, fun c hc hdigit => ?_⟩
    have hisDigit : c.isDigit = true := Nat.isDigit_of_mem_toDigits (by decide) (by decide) hdigit
    rw [hnone c hc] at hisDigit
    cases hisDigit
  · exact h e he

/-- Every count of 63 bits that is set is read back from the object. From the query string the
integer of double precision nearest to it is read, and no count if it is one of the last 512. So it
is read back if and only if it is fewer than `2^53` times a power of two. -/
theorem count?_carried {o : Options} (h : o.Reachable) (k : CountKey) {n : Nat} (hn : n < 2 ^ 63) :
    ∃ o', o.trySetCount k n = .ok o' ∧ (ofJson o'.toJson).count? k = some n ∧
      (o.IsUnambiguous →
        (ofQueryString o'.queryString).count? k =
          (if n < 2 ^ 63 - 512 then some (nearestDouble n) else none) ∧
        ((ofQueryString o'.queryString).count? k = some n ↔ ∃ m e, m < 2 ^ 53 ∧ n = m * 2 ^ e)) := by
  have hwell : (o.put (.directive (.count k)) (.count n)).IsWellFormed :=
    h.isWellFormed.put (.count k hn)
  refine ⟨_, o.trySetCount_natCast k n, count?_ofJson_toJson hwell (o.count?_put k n), ?_⟩
  intro hplain
  have hquery := count?_ofQueryString_queryString hwell (hplain.put_count k n) (o.count?_put k n)
  refine ⟨hquery.trans (if_congr (nearestDouble_lt_iff hn) rfl rfl), ?_⟩
  rw [hquery, ← nearestDouble_eq_self_iff]
  split
  · rw [Option.some.injEq]
  · rename_i hlt
    refine iff_of_false (by simp) fun hself => hlt ?_
    rwa [hself]

/-- The greatest count beside a text: the object carries it, and the query string does not. -/
theorem count?_carried_greatest :
    let o := empty.setText .select "a=b"
    o.Reachable ∧ o.IsUnambiguous ∧ ∃ o', o.trySetCount .top (2 ^ 63 - 1 : Nat) = .ok o' ∧
      (ofJson o'.toJson).top? = some (2 ^ 63 - 1) ∧ (ofQueryString o'.queryString).top? = none := by
  intro o
  have hreachable : o.Reachable := Reachable.empty.setText .select "a=b"
  have hplain : o.IsUnambiguous := by
    intro e he
    rw [List.mem_singleton.mp he]
    refine ⟨isBare_directive _, fun c hc => ?_⟩
    fin_cases hc <;> decide
  have hn : 2 ^ 63 - 1 < 2 ^ 63 := by omega
  obtain ⟨o', hset, hobject, hquery⟩ := count?_carried hreachable .top hn
  exact ⟨hreachable, hplain, o', hset, hobject, (hquery hplain).1.trans (if_neg (by omega))⟩

/-- The least count that a query string does not carry: it is read as one less. -/
theorem top?_ofQueryString_rounded :
    ∃ o, empty.trySetCount .top (2 ^ 53 + 1) = .ok o ∧
      (ofJson o.toJson).top? = some (2 ^ 53 + 1) ∧
      (ofQueryString o.queryString).top? = some (2 ^ 53) ∧
      (ofQueryString o.queryString).top? ≠ some (2 ^ 53 + 1) :=
  ⟨empty.setCount .top (2 ^ 53 + 1), rfl, by decide +kernel, by decide +kernel, by decide +kernel⟩

end RecordQuery.Options
