import RecordQuery.Options.Object
import RecordQuery.Text.Form

/-!
# Options as query strings

* `Options.queryString`: `?name=value&name=value` in order, and nothing if there are no options.
* `Options.encodedQueryString`: the same with the values in form encoding.
* `Options.ofQueryString`: the options that a query string sets.
-/

namespace RecordQuery.Options

/-- The query of all options, their values in some encoding. -/
def queryChars (encode : List Char → List Char) (o : Options) : List Char :=
  if o.entries.isEmpty then []
  else
    '?' :: List.intercalate ['&']
      (o.entries.map fun (k, s) => k.name.toList ++ '=' :: encode s.chars)

/-- The query string of all options, values as they are. -/
def queryString (o : Options) : String := String.ofList (o.queryChars id)

/-- The query string of all options, values in form encoding. -/
def encodedQueryString (o : Options) : String := String.ofList (o.queryChars Text.formEncode)

/-- The value in a query string as JSON: for a count the number it writes, and else the text. -/
def queryValue (d : Directive) (value : List Char) : Json :=
  match d, Value.readNumber? value with
  | .count _, some x => .number (.float x)
  | _, _ => .string (String.ofList value)

/-- Sets what one name and value of a query set. Names that are reserved and no directive, and
values that are refused, set nothing. -/
def setQueryPair (o : Options) (pair : List Char × List Char) : Options :=
  match Key.ofName? (String.ofList pair.1) with
  | some (.custom name) => o.setCustom name (.text (String.ofList pair.2))
  | some (.directive d) => o.orUnchanged (o.trySetJson d (queryValue d pair.2))
  | none => o

/-- A query without the question mark in front. -/
def dropMark : List Char → List Char
  | '?' :: rest => rest
  | query => query

/-- The options that a query string sets. -/
def ofQueryString (query : String) : Options :=
  (Text.formPairs (dropMark query.toList)).foldl setQueryPair empty

end RecordQuery.Options
