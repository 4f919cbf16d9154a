import RecordQuery.Proofs.Filter.RoundTrip
import RecordQuery.Proofs.Number.Integer
import RecordQuery.Proofs.Options.WellFormed
import RecordQuery.Proofs.Text.Decoding

/-!
# Options read back from their query string

* `Options.IsPortable`: the options that a query string carries: bare names, counts up to `2^53` and
  a canonical filter.
* `Options.formPairs_queryChars_eq_flatMap`: the names and values of a query are those of its entries,
  whatever the names are. `Options.formPairs_queryChars`: so with bare names they are those of the
  options.
* `Options.setQueryPair_of_mem`: each of them sets its option again, custom options to texts.
* `Options.ofQueryString_encodedQueryString`: so the query sets the same options in the same order.
-/

namespace RecordQuery.Options

open Number (nearestDouble nearestDouble_eq_self)

/-! ## What a query string carries -/

/-- The setting as a query string gives it back: the value of a custom option is a text. -/
def Setting.asText : Setting → Setting
  | .custom v => .custom (.text (String.ofList v.plain))
  | s => s

/-- The name stands for itself in a query, where names are not encoded. -/
def IsBare (name : String) : Prop := ∀ c ∈ ['&', '=', '+', '%'], c ∉ name.toList

-- Over the four characters, not over all.
instance : DecidablePred IsBare := fun _ => List.decidableBAll _ _

/-- The options that a query string carries. -/
structure IsPortable (o : Options) : Prop where
  names : ∀ name, .custom name ∈ o.keys → IsBare name
  counts : ∀ k n, o.count? k = some n → n ≤ 2 ^ 53
  filters : ∀ f, o.filter? = some f → f.IsCanonical ∧ f.nesting ≤ Filter.defaultLimit

theorem isBare_directive (d : Directive) : IsBare d.name := by
  have hall : ∀ d ∈ Directive.all, IsBare d.name := by decide
  exact hall d d.mem_all

theorem IsPortable.isBare {o : Options} (h : o.IsPortable) {k : Key} (hk : k ∈ o.keys) :
    IsBare k.name := by
  cases k with
  | directive d => exact isBare_directive d
  | custom name => exact h.names name hk

/-! ## Names and values -/

section Pieces

variable {name : String} (h : IsBare name) (value : List Char)
include h

theorem IsBare.formPair_eq :
    Text.formPair (name.toList ++ '=' :: value) = (name.toList, value) :=
  Text.formPair_append (h _ (by decide)) value

theorem IsBare.formDecode_eq : Text.formDecode name.toList = name.toList := by
  refine Text.formDecode_of_ne fun c hc => ⟨?_, ?_⟩
  all_goals
    rintro rfl
    exact h _ (by decide) hc

/-- A piece of a query is not parted at `&` unless its value is. -/
theorem IsBare.ampersand_not_mem (hvalue : '&' ∉ value) :
    '&' ∉ name.toList ++ '=' :: value := by
  intro hmem
  rcases List.mem_append.mp hmem with hmem | hmem
  · exact h _ (by decide) hmem
  · rcases List.mem_cons.mp hmem with heq | hmem
    · revert heq
      decide
    · exact hvalue hmem

end Pieces

/-- One entry of a query, its value in some encoding. -/
def entryChars (encode : List Char → List Char) (e : Key × Setting) : List Char :=
  e.1.name.toList ++ '=' :: encode e.2.chars

/-- The names and values of a query are those of its entries, one entry after another. -/
theorem formPairs_queryChars_eq_flatMap (o : Options) (encode : List Char → List Char) :
    Text.formPairs (dropMark (o.queryChars encode)) =
      o.entries.flatMap fun e => Text.formPairs (entryChars encode e) := by
  unfold queryChars
  split
  · rename_i hempty
    rw [List.isEmpty_iff.mp hempty]
    rfl
  · rw [dropMark, Text.formPairs_intercalate_eq_flatMap, List.flatMap_map]
    rfl

/-- The query has the names of the options and their settings as text, if names stand for themselves
and the encoding of values is undone. -/
theorem formPairs_queryChars {o : Options} {encode : List Char → List Char}
    (h : ∀ k ∈ o.keys, IsBare k.name)
    (hencode : ∀ e ∈ o.entries,
      '&' ∉ encode e.2.chars ∧ Text.formDecode (encode e.2.chars) = e.2.chars) :
    Text.formPairs (dropMark (o.queryChars encode)) =
      o.entries.map fun (k, s) => (k.name.toList, s.chars) := by
  have hentry : ∀ e ∈ o.entries,
      Text.formPairs (entryChars encode e) = [(e.1.name.toList, e.2.chars)] := by
    intro e he
    obtain ⟨hampersand, hdecode⟩ := hencode e he
    have hname : IsBare e.1.name := h e.1 (List.mem_map_of_mem he)
    rw [entryChars, Text.formPairs_singleton (hname.ampersand_not_mem _ hampersand) (by simp),
      hname.formPair_eq, hname.formDecode_eq, hdecode]
  rw [formPairs_queryChars_eq_flatMap, List.flatMap_congr hentry]
  exact List.flatMap_pure_eq_map _ _

/-! ## Setting one option -/

theorem setQueryPair_directive (o : Options) (d : Directive) (value : List Char) :
    o.setQueryPair (d.name.toList, value) =
      o.orUnchanged (o.trySetJson d (queryValue d value)) := by
  simp only [setQueryPair, String.ofList_toList, Key.ofName?_directive]

/-- A count is read as a number of double precision, and passed over if that is `2^63`. -/
theorem setQueryPair_count (o : Options) (k : CountKey) {n : Nat} (hn : n < 2 ^ 63) :
    o.setQueryPair ((Directive.count k).name.toList, Nat.toDigits 10 n) =
      if nearestDouble n < 2 ^ 63 then o.put (.directive (.count k)) (.count (nearestDouble n))
      else o := by
  obtain ⟨x, hread, hx⟩ := Value.readNumber?_toDigits (n := n) (by omega)
  have hvalue : queryValue (.count k) (Nat.toDigits 10 n) = .number (.float x) := by
    simp only [queryValue, hread]
  rw [setQueryPair_directive, hvalue]
  generalize nearestDouble n = m at *
  by_cases hm : m < 2 ^ 63
  · have hinteger : integerOf? (.number (.float x)) = some (m : Int) := by
      rw [integerOf?, hx, Option.filter_some, if_pos (by simp; omega)]
    simp only [trySetJson, hinteger, trySetCount_natCast, orUnchanged, hm, if_true]
  · have hinteger : integerOf? (.number (.float x)) = none := by
      rw [integerOf?, hx, Option.filter_some, if_neg (by simp; omega)]
    simp only [trySetJson, hinteger, orUnchanged, hm, if_false]

theorem setQueryPair_text (o : Options) (k : TextKey) (s : String) :
    o.setQueryPair ((Directive.text k).name.toList, s.toList) =
      o.put (.directive (.text k)) (.text s) := by
  rw [setQueryPair_directive]
  simp [queryValue, trySetJson, textOf?, orUnchanged, setText]

theorem setQueryPair_inlineCount (o : Options) (value : List Char) :
    o.setQueryPair (Directive.inlineCount.name.toList, value) =
      o.put (.directive .inlineCount) (.text allPages) := by
  rw [setQueryPair_directive]
  simp [queryValue, trySetJson, isUnwanted, orUnchanged, setInlineCount]

theorem setQueryPair_filter (o : Options) {f : Filter} (h : f.IsCanonical)
    (hnesting : f.nesting ≤ Filter.defaultLimit) :
    o.setQueryPair (Directive.filter.name.toList, f.chars false) =
      o.put (.directive .filter) (.filter f) := by
  have hread : Filter.read (String.ofList (f.chars false)) = .ok f := by
    rw [← Filter.text, Filter.read_text h.isWritable h.hasNoEmptyGroup hnesting, h.collapsed_eq]
  rw [setQueryPair_directive]
  simp [queryValue, trySetJson, trySetFilterText, hread, orUnchanged, setFilter]

theorem setQueryPair_custom (o : Options) {name : String} (h : isReserved name = false)
    (value : List Char) :
    o.setQueryPair (name.toList, value) =
      o.put (.custom name) (.custom (.text (String.ofList value))) := by
  simp only [setQueryPair, String.ofList_toList, Key.ofName?_custom h]
  simp [setCustom, trySetCustom, h, orUnchanged]

/-- What the query says of an option sets this option to the same again, whatever is set already. -/
theorem setQueryPair_of_mem {o : Options} (h : o.IsWellFormed) (hportable : o.IsPortable) {k : Key}
    {s : Setting} (hmem : (k, s) ∈ o.entries) (acc : Options) :
    acc.setQueryPair (k.name.toList, s.chars) = acc.put k s.asText := by
  have hget : o.get? k = some s := Keyed.get?_of_mem h.nodup hmem
  cases h.admits _ hmem with
  | @count k n hn =>
    have hle : n ≤ 2 ^ 53 := hportable.counts k n (by rw [count?, hget])
    have hset := setQueryPair_count acc k (n := n) (by omega)
    rwa [nearestDouble_eq_self hle, if_pos (by omega)] at hset
  | text k s => exact setQueryPair_text acc k s
  | inlineCount => exact setQueryPair_inlineCount acc _
  | filter f =>
    obtain ⟨hcanonical, hnesting⟩ := hportable.filters f (by rw [filter?, hget])
    exact setQueryPair_filter acc hcanonical hnesting
  | custom hname v => exact setQueryPair_custom acc hname _

/-! ## Setting all options -/

/-- Pairs that set one option each put their settings one after another. -/
theorem foldl_setQueryPair {entries : List (Key × Setting)}
    (h : ∀ e ∈ entries, ∀ acc : Options,
      acc.setQueryPair (e.1.name.toList, e.2.chars) = acc.put e.1 e.2.asText) (acc : Options) :
    (entries.map fun (k, s) => (k.name.toList, s.chars)).foldl setQueryPair acc =
      ⟨Keyed.putAll acc.entries (entries.map fun (k, s) => (k, s.asText))⟩ := by
  induction entries generalizing acc with
  | nil => rfl
  | cons e rest ih =>
    rw [List.map_cons, List.foldl_cons, h e (by simp), ih fun e he => h e (by simp [he])]
    rfl

/-- The encoded query string of options sets the same options in the same order. They are set to
the same, but the values of custom options come back as texts. -/
theorem ofQueryString_encodedQueryString {o : Options} (h : o.Reachable)
    (hportable : o.IsPortable) :
    ofQueryString o.encodedQueryString = ⟨o.entries.map fun (k, s) => (k, s.asText)⟩ := by
  have hwell := h.isWellFormed
  have hkeys : (Keyed.keys (o.entries.map fun (k, s) => (k, s.asText))).Nodup := by
    have hsame : Keyed.keys (o.entries.map fun (k, s) => (k, s.asText)) = o.keys := by
      simp [Options.keys, Keyed.keys]
    rw [hsame]
    exact hwell.nodup
  rw [ofQueryString, encodedQueryString, String.toList_ofList,
    formPairs_queryChars (fun k hk => hportable.isBare hk) fun e _ =>
      ⟨Text.ampersand_not_mem_formEncode _, Text.formDecode_formEncode _⟩,
    foldl_setQueryPair fun e he => setQueryPair_of_mem hwell hportable he]
  exact congrArg Options.mk (Keyed.putAll_of_nodup hkeys)

/-- Values full of separators, an empty text, a number under a custom name and the greatest count
that is carried. -/
theorem ofQueryString_encodedQueryString_separators :
    let f : Filter := .condition "a.b" (.comparison .eq) (.text "x&y=+%41 'é'")
    let o := ((((empty.setCustom "?n m" (.number (.ofInt 5))).setFilter f).setText .select
      "").setCount .skip (2 ^ 53)).setCustom "c" (.text "&=+%")
    o.Reachable ∧ o.IsPortable ∧
      ofQueryString o.encodedQueryString =
        ⟨[(.custom "?n m", .custom (.text "5")), (.directive .filter, .filter f),
          (.directive (.text .select), .text ""), (.directive (.count .skip), .count (2 ^ 53)),
          (.custom "c", .custom (.text "&=+%"))]⟩ := by
  intro f o
  have hreachable : o.Reachable := by
    have hcount : Int64.toInt (2 ^ 53) = 2 ^ 53 := by decide
    refine Reachable.setCustom ?_ _ _
    rw [← hcount]
    exact (((Reachable.empty.setCustom _ _).setFilter f).setText _ _).setCount _ _
  have hf : f.IsCanonical := .leaf ⟨by decide, trivial⟩ trivial
  have hportable : o.IsPortable :=
    { names := by
        intro name hname
        have hkeys : o.keys = [.custom "?n m", .directive .filter, .directive (.text .select),
          .directive (.count .skip), .custom "c"] := by rfl
        simp only [hkeys, List.mem_cons, Key.custom.injEq, reduceCtorEq, List.not_mem_nil, false_or,
          or_false] at hname
        rcases hname with rfl | rfl <;> decide
      counts := by
        intro k n hn
        cases k with
        | top => cases hn
        | skip =>
          have hskip : o.count? .skip = some (2 ^ 53) := by rfl
          rw [hskip] at hn
          cases hn
          exact Nat.le_refl _
      filters := by
        intro g hg
        have hfilter : o.filter? = some f := by rfl
        rw [hfilter] at hg
        cases hg
        exact ⟨hf, Nat.zero_le _⟩ }
  refine ⟨hreachable, hportable, ?_⟩
  rw [ofQueryString_encodedQueryString hreachable hportable]
  rfl

end RecordQuery.Options
