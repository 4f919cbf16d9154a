import RecordQuery.Proofs.Options.QueryString
import RecordQuery.Proofs.Text.Decoding

/-!
# Query strings with plain values

A query string has values as they are, and the encoded one in form encoding. Both have names as they
are, and these may be parted or changed when the query is read.

* `Options.Setting.IsPlain`, `Options.HasPlainValues`: settings that have no character that parts a
  query or stands for another.
* `Options.formPairs_entryChars`: the entry of a plain setting is read as if its value were encoded,
  whatever its name is.
* `Options.ofQueryString_plain_eq_encoded`: where values are plain, both query strings set the same
  options.
-/

namespace RecordQuery.Options

/-- The setting has no character that parts a query or stands for another. -/
def Setting.IsPlain (s : Setting) : Prop := ∀ c ∈ ['&', '+', '%'], c ∉ s.chars

-- Over the three characters, not over all.
instance : DecidablePred Setting.IsPlain := fun _ => List.decidableBAll _ _

/-- All settings are plain. The names may have any characters. -/
def HasPlainValues (o : Options) : Prop := ∀ e ∈ o.entries, e.2.IsPlain

instance : DecidablePred HasPlainValues := fun _ => List.decidableBAll _ _

/-- A plain setting is read as in form encoding, whatever stands in the name. -/
theorem formPairs_entryChars {e : Key × Setting} (h : e.2.IsPlain) :
    Text.formPairs (entryChars id e) = Text.formPairs (entryChars Text.formEncode e) := by
  have hbytes : Text.formBytes e.2.chars = Text.formBytes (Text.formEncode e.2.chars) := by
    rw [Text.formBytes_formEncode, Text.formBytes_eq_utf8]
    refine fun c hc => ⟨?_, ?_⟩
    all_goals
      rintro rfl
      exact h _ (by decide) hc
  exact Text.formPairs_value_congr _ hbytes (h _ (by decide)) (Text.ampersand_not_mem_formEncode _)

/-- Where no value has an `&`, a plus sign or a percent sign, the query string with plain values and
the one with encoded values set the same options. Names may have any characters. -/
theorem ofQueryString_plain_eq_encoded {o : Options} (h : o.HasPlainValues) :
    ofQueryString o.queryString = ofQueryString o.encodedQueryString := by
  have hpairs : Text.formPairs (dropMark (o.queryChars id)) =
      Text.formPairs (dropMark (o.queryChars Text.formEncode)) := by
    rw [formPairs_queryChars_eq_flatMap, formPairs_queryChars_eq_flatMap]
    exact List.flatMap_congr fun e he => formPairs_entryChars (h e he)
  rw [ofQueryString, ofQueryString, queryString, encodedQueryString, String.toList_ofList,
    String.toList_ofList, hpairs]

/-- A name that is parted into two options, one that ends early and goes on in the value, blanks and
letters that are encoded, a filter and a count. -/
theorem ofQueryString_plain_eq_encoded_names :
    let f : Filter := .condition "n" (.comparison .eq) (.text "it's")
    let o := (((empty.setCustom "a&$top" (.text "7")).setCustom "x=%41 %" (.text "?1=é 'b")).setFilter
      f).setCount .skip 3
    o.Reachable ∧ o.HasPlainValues ∧
      ofQueryString o.queryString = ofQueryString o.encodedQueryString ∧
      (ofQueryString o.queryString).keys = [.custom "a", .directive (.count .top), .custom "x",
        .directive .filter, .directive (.count .skip)] := by
  intro f o
  have hreachable : o.Reachable :=
    (((Reachable.empty.setCustom _ _).setCustom _ _).setFilter f).setCount .skip 3
  have hplain : o.HasPlainValues := by decide +kernel
  exact ⟨hreachable, hplain, ofQueryString_plain_eq_encoded hplain, by decide +kernel⟩

end RecordQuery.Options
