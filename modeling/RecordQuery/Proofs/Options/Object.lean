import RecordQuery.Proofs.Filter.RoundTrip
import RecordQuery.Proofs.Json.ReadBack
import RecordQuery.Proofs.Options.Operation
import RecordQuery.Proofs.Options.Refusal

/-!
# Options read back from their object

* `Options.directives`: the options without the custom ones, which objects do not set.
* `Options.toJson_eq`: the object of options has one field for each option.
* `Options.trySetField_of_mem`: the field of a directive sets it again, and that of a custom option
  sets nothing.
* `Options.read?_toJson`: the object is read back from its text.
* `Options.ofJson?_toJson`: so the object and its text give the directives, in their order.
-/

namespace RecordQuery.Options

-- Powers are those of core, whatever else is imported.
attribute [local instance (high)] instPowNat

/-! ## Directives -/

/-- The option has a meaning of its own. -/
def Key.isDirective : Key → Bool
  | .directive _ => true
  | .custom _ => false

/-- The options without the custom ones. -/
def directives (o : Options) : Options := ⟨o.entries.filter fun e => e.1.isDirective⟩

theorem IsWellFormed.nodup_directives {o : Options} (h : o.IsWellFormed) :
    (Keyed.keys o.directives.entries).Nodup :=
  h.nodup.sublist (List.filter_sublist.map Prod.fst)

/-! ## The object of options -/

/-- The fields of the object of options. -/
def fields (o : Options) : List (String × Json) := o.entries.map fun (k, s) => (k.name, s.toJson)

theorem IsWellFormed.nodup_fields {o : Options} (h : o.IsWellFormed) :
    (Keyed.keys o.fields).Nodup := by
  have hnames : Keyed.keys o.fields = o.keys.map Key.name := by
    simp [Keyed.keys, Options.keys, fields]
  rw [hnames]
  refine h.nodup.map_on fun k hk k' hk' heq => ?_
  have hsome : some k = some k' := by
    rw [← h.ofName?_of_mem hk, ← h.ofName?_of_mem hk', heq]
  exact Option.some.inj hsome

/-- The object of options has one field for each option. -/
theorem IsWellFormed.toJson_eq {o : Options} (h : o.IsWellFormed) :
    o.toJson = .object o.fields :=
  congrArg Json.object (Keyed.putAll_of_nodup h.nodup_fields)

/-! ## Setting one field -/

theorem setterOf?_directive (d : Directive) : setterOf? d.name = some d := by
  have hall : ∀ d ∈ Directive.all, setterOf? d.name = some d := by decide
  exact hall d d.mem_all

theorem setterOf?_custom {name : String} (h : isReserved name = false) : setterOf? name = none := by
  have hne : ∀ other, isReserved other = true → name ≠ other := by
    rintro other hother rfl
    rw [hother] at h
    cases h
  rw [setterOf?, if_neg (hne _ (by decide)), if_neg (hne _ (by decide)),
    Directive.ofName?_eq_none h]

theorem integerOf?_integer {n : Nat} (hn : n < 2 ^ (63 : Nat)) :
    integerOf? (.number (.integer n)) = some (n : Int) := by
  have hlt : (n : Int) < 2 ^ (63 : Nat) := by omega
  simp only [integerOf?, hlt, if_true]

theorem trySetField_directive (o : Options) (d : Directive) (v : Json) :
    o.trySetField (d.name, v) = o.trySetJson d v := by
  simp only [trySetField, setterOf?_directive]

theorem trySetJson_count (o : Options) (k : CountKey) {v : Json} {n : Int}
    (h : integerOf? v = some n) : o.trySetJson (.count k) v = o.trySetCount k n := by
  cases v with
  | null => cases h
  | bool | number | string | array | object => simp only [trySetJson, h]

theorem setField_count (o : Options) (k : CountKey) {v : Json} {n : Nat}
    (h : integerOf? v = some (n : Int)) :
    o.setField ((Directive.count k).name, v) = o.put (.directive (.count k)) (.count n) := by
  rw [setField, trySetField_directive, trySetJson_count _ _ h, trySetCount_natCast, orUnchanged]

/-- The field of a directive sets it to the same again, and the field of a custom option sets
nothing, whatever is set already. -/
theorem trySetField_of_mem {o : Options} (h : o.IsWellFormed)
    (hfilter : ∀ f, o.filter? = some f → f.IsCanonical ∧ f.nesting ≤ Filter.defaultLimit) {k : Key}
    {s : Setting} (hmem : (k, s) ∈ o.entries) (acc : Options) :
    acc.trySetField (k.name, s.toJson) = .ok (if k.isDirective then acc.put k s else acc) := by
  cases h.admits _ hmem with
  | @count k n hn =>
    exact (acc.trySetField_directive (.count k) _).trans <|
      (acc.trySetJson_count k (integerOf?_integer hn)).trans (acc.trySetCount_natCast k n)
  | text k s => exact (acc.trySetField_directive (.text k) _).trans rfl
  | inlineCount => exact (acc.trySetField_directive .inlineCount _).trans rfl
  | filter f =>
    have hget : o.filter? = some f := by rw [filter?, Options.get?, Keyed.get?_of_mem h.nodup hmem]
    obtain ⟨hcanonical, hnesting⟩ := hfilter f hget
    have hread : Filter.read f.text = .ok f := by
      rw [Filter.read_text hcanonical.isWritable hcanonical.hasNoEmptyGroup hnesting,
        hcanonical.collapsed_eq]
    refine (acc.trySetField_directive .filter _).trans ?_
    simp only [trySetJson, Setting.toJson, trySetFilterText, hread]
    rfl
  | custom hname v => simp [trySetField, Key.name, setterOf?_custom hname, Key.isDirective]

/-! ## Setting all fields -/

/-- Fields that set their directive each put the directives one after another. -/
theorem foldlM_trySetField_eq_putAll {entries : List (Key × Setting)}
    (h : ∀ e ∈ entries, ∀ acc : Options, acc.trySetField (e.1.name, e.2.toJson) =
      .ok (if e.1.isDirective then acc.put e.1 e.2 else acc)) (acc : Options) :
    (entries.map fun (k, s) => (k.name, s.toJson)).foldlM trySetField acc =
      .ok ⟨Keyed.putAll acc.entries (entries.filter fun e => e.1.isDirective)⟩ := by
  induction entries generalizing acc with
  | nil => rfl
  | cons e rest ih =>
    have hrest := ih fun e he => h e (List.mem_cons_of_mem _ he)
    rw [List.map_cons, List.foldlM_cons, h e List.mem_cons_self, List.filter_cons]
    cases e.1.isDirective with
    | true => exact hrest (acc.put e.1 e.2)
    | false => exact hrest acc

/-! ## The text of the object -/

/-- What an option is set to has an object without parts in JSON, which is read back if the numbers
are that are no integers. -/
theorem Key.Admits.isAtom {k : Key} {s : Setting} (h : k.Admits s)
    (hnumber : ∀ x, s = .custom (.number x) → x.isFinite = true →
      Json.Number.read? (Json.floatText x) = some (.float x)) : s.toJson.IsAtom := by
  cases h with
  | @count k n hn => exact Json.isAtom_integer (by omega)
  | text | inlineCount | filter => exact .string _
  | custom hname v =>
    cases v with
    | text | date => exact .string _
    | number x => exact Json.isAtom_ofBinary64 (hnumber x rfl)
    | bool b => exact Json.isAtom_bool b

/-- The object of options is read back from its text, if the numbers of custom options are. -/
theorem IsWellFormed.read?_toJson {o : Options} (h : o.IsWellFormed)
    (hnumber : ∀ name x, o.custom? name = some (.number x) → x.isFinite = true →
      Json.Number.read? (Json.floatText x) = some (.float x)) :
    Json.read? o.toJson.text.toList = some o.toJson := by
  rw [Json.text, String.toList_ofList, h.toJson_eq]
  refine Json.read?_object (fun f hf => ?_) h.nodup_fields
  obtain ⟨⟨k, s⟩, he, rfl⟩ := List.mem_map.mp hf
  have hadmits : k.Admits s := h.admits _ he
  refine hadmits.isAtom fun x hx hfinite => ?_
  subst hx
  cases hadmits with
  | @custom name =>
    refine hnumber name x ?_ hfinite
    rw [custom?, Options.get?, Keyed.get?_of_mem h.nodup he]

/-! ## Reading back -/

/-- The object of options, read strictly or leniently, gives the directives among them: each set to
the same, in the same order. The text of the object does too, where the numbers of custom options
are read back from their text. -/
theorem ofJson?_toJson {o : Options} (h : o.Reachable)
    (hfilter : ∀ f, o.filter? = some f → f.IsCanonical ∧ f.nesting ≤ Filter.defaultLimit) :
    ofJson? o.toJson = .ok o.directives ∧ ofJson o.toJson = o.directives ∧
      ((∀ name x, o.custom? name = some (.number x) → x.isFinite = true →
          Json.Number.read? (Json.floatText x) = some (.float x)) →
        (Json.read? o.toJson.text.toList).map ofJson? = some (.ok o.directives)) := by
  have hwell := h.isWellFormed
  have hstrict : ofJson? o.toJson = .ok o.directives := by
    rw [hwell.toJson_eq]
    refine (foldlM_trySetField_eq_putAll
      (fun e he acc => trySetField_of_mem hwell hfilter he acc) empty).trans ?_
    exact congrArg (fun entries => Except.ok (Options.mk entries))
      (Keyed.putAll_of_nodup hwell.nodup_directives)
  refine ⟨hstrict, ofJson_of_ofJson? hstrict, fun hnumber => ?_⟩
  rw [hwell.read?_toJson hnumber, Option.map_some, hstrict]

/-- A directive of every kind, the greatest count, and custom options whose names and values look
like directives, like escapes and like numbers. -/
theorem ofJson?_toJson_every_kind :
    let f : Filter := .condition "a.b" (.comparison .eq) (.text "x\"y\\'é'")
    let o := ((((((empty.setCustom "top" (.number (.ofInt 5))).setFilter f).setTexts .orderBy
      ["b desc", "a"]).setInlineCount true).setCustom "\"\n" (.text "$filter")).setCount .skip
      (2 ^ 63 - 1))
    o.Reachable ∧ o.filter? = some f ∧ f.IsCanonical ∧
      o.custom? "top" = some (.number (.ofInt 5)) ∧
      o.directives.entries = [(.directive .filter, .filter f),
        (.directive (.text .orderBy), .text "b desc,a"), (.directive .inlineCount, .text "allpages"),
        (.directive (.count .skip), .count (2 ^ 63 - 1))] ∧
      ofJson? o.toJson = .ok o.directives ∧ ofJson o.toJson = o.directives ∧
      (Json.read? o.toJson.text.toList).map ofJson? = some (.ok o.directives) := by
  intro f o
  have hreachable : o.Reachable := by
    have hcustom := (((Reachable.empty.setCustom "top" (.number (.ofInt 5))).setFilter f).setTexts
      .orderBy ["b desc", "a"]).setInlineCount true
    have hset := (hcustom.setCustom "\"\n" (.text "$filter")).setCount .skip Int64.maxValue
    rwa [Int64.toInt_maxValue] at hset
  have hf : f.IsCanonical := .leaf ⟨by decide, trivial⟩ trivial
  have hfilter : ∀ g, o.filter? = some g → g.IsCanonical ∧ g.nesting ≤ Filter.defaultLimit := by
    rintro g ⟨⟩
    exact ⟨hf, Nat.zero_le _⟩
  have hnumber : ∀ name x, o.custom? name = some (.number x) → x.isFinite = true →
      Json.Number.read? (Json.floatText x) = some (.float x) := by
    intro name x hx _
    have hmem : (Key.custom name, Setting.custom (.number x)) ∈ o.entries := by
      unfold custom? at hx
      split at hx
      · cases hx
        exact Keyed.mem_of_get? ‹_›
      · cases hx
    have hx : x = .ofInt 5 := by
      have hentries : o.entries = [(.custom "top", .custom (.number (.ofInt 5))),
          (.directive .filter, .filter f), (.directive (.text .orderBy), .text "b desc,a"),
          (.directive .inlineCount, .text "allpages"), (.custom "\"\n", .custom (.text "$filter")),
          (.directive (.count .skip), .count (2 ^ 63 - 1))] := rfl
      have htop : name = "top" ∧ x = .ofInt 5 := by simpa [hentries] using hmem
      exact htop.2
    rw [hx]
    decide +kernel
  obtain ⟨hstrict, hlenient, htext⟩ := ofJson?_toJson hreachable hfilter
  exact ⟨hreachable, rfl, hf, rfl, rfl, hstrict, hlenient, htext hnumber⟩

end RecordQuery.Options
