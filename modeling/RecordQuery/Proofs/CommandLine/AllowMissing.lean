import RecordQuery.Proofs.CommandLine.Stream
import RecordQuery.Proofs.Filter.MissingPath

/-!
# Runs that allow missing paths

* `writtenLines`: the lines that a run wrote.
* `utf8_mem_of_mem_select`: what is kept are lines of the stream, which hold no newline;
  `writtenLines_selected`: so a run wrote the lines that were kept.
* `select_imp`: a test that accepts more keeps more, and reads as far (by induction on the lines).
* `Command.run_allowMissing`: a run that allows missing paths writes all lines of one that does not.
* `Filter.lenient_adds`: the same for single records, lists, pages and runs.
-/

namespace RecordQuery.CommandLine

/-! ## Lines that were written -/

/-- The lines of a text, each of which ends with a newline. -/
def writtenLines (text : String) : List (List Char) := (text.toList.splitOn '\n').dropLast

theorem writtenLines_join {kept : List String} (h : ∀ line ∈ kept, '\n' ∉ line.toList) :
    writtenLines (String.join (kept.map (· ++ "\n"))) = kept.map String.toList := by
  induction kept with
  | nil => rfl
  | cons line kept ih =>
    obtain ⟨hline, hkept⟩ := List.forall_mem_cons.mp h
    have hjoin : (String.join ((line :: kept).map (· ++ "\n"))).toList =
        line.toList ++ '\n' :: (String.join (kept.map (· ++ "\n"))).toList := by
      simp [String.toList_join]
    rw [writtenLines, hjoin, List.splitOn_append_cons_self, List.splitOn_eq_singleton hline,
      List.singleton_append, List.dropLast_cons_of_ne_nil (List.splitOn_ne_nil _ _), List.map_cons,
      ← ih hkept, writtenLines]

/-! ## Lines that are kept -/

theorem HasLines.newline_not_mem {content : List UInt8} {ls : List (List UInt8)}
    (h : HasLines content ls) : ∀ line ∈ ls, 0x0A ∉ line := by
  induction h with
  | nil => simp
  | last h hne => exact List.forall_mem_singleton.mpr h
  | newline h _ _ ih => exact List.forall_mem_cons.mpr ⟨h, ih⟩
  | returned h _ ih => exact List.forall_mem_cons.mpr ⟨h, ih⟩

theorem utf8_mem_of_mem_select {accepts : Json → Bool} {number : Nat} {ls : List (List UInt8)}
    {kept : String} (h : kept ∈ (select accepts number ls).1) : Text.utf8 kept.toList ∈ ls := by
  fun_induction select accepts number ls with
  | case1 => cases h
  | case2 => cases h
  | case3 number line rest text hdecode hblank ih => exact List.mem_cons_of_mem _ (ih h)
  | case4 => cases h
  | case5 number line rest text hdecode hblank record hread kept' failure hrest ih =>
    rw [hrest] at ih
    split at h
    · rcases List.mem_cons.mp h with rfl | h
      · rw [String.toList_ofList, Text.decodeStrict?_eq_some_iff.mp hdecode]
        exact List.mem_cons_self
      · exact List.mem_cons_of_mem _ (ih h)
    · exact List.mem_cons_of_mem _ (ih h)

/-- What a run wrote is the lines that were kept. -/
theorem writtenLines_selected (explain : List Char → Option String) (accepts : Json → Bool)
    (content : List UInt8) :
    writtenLines (selected explain (select accepts 1 (lines content))).stdout =
      (select accepts 1 (lines content)).1.map String.toList := by
  rw [selected_stdout]
  refine writtenLines_join fun kept hkept hnewline => ?_
  have hline := (hasLines_lines content).newline_not_mem _ (utf8_mem_of_mem_select hkept)
  exact hline (List.mem_flatMap.mpr ⟨'\n', hnewline, by decide⟩)

/-- A test that accepts more keeps more, and fails on the same line. -/
theorem select_imp {accepts accepts' : Json → Bool}
    (h : ∀ record, accepts record = true → accepts' record = true) (number : Nat)
    (ls : List (List UInt8)) :
    (select accepts number ls).1.Sublist (select accepts' number ls).1 ∧
      (select accepts number ls).2 = (select accepts' number ls).2 := by
  fun_induction select accepts number ls with
  | case1 => exact ⟨.slnil, rfl⟩
  | case2 number line rest hdecode => simp [select, hdecode]
  | case3 number line rest text hdecode hblank ih => simpa [select, hdecode, hblank] using ih
  | case4 number line rest text hdecode hblank hread => simp [select, hdecode, hblank, hread]
  | case5 number line rest text hdecode hblank record hread kept failure hrest ih =>
    rw [hrest] at ih
    obtain ⟨hkept, hfailure⟩ := ih
    simp only [select, hdecode, hread, if_neg hblank]
    refine ⟨?_, hfailure⟩
    by_cases haccepts : accepts record = true
    · rw [if_pos haccepts, if_pos (h record haccepts)]
      exact hkept.cons_cons _
    · rw [if_neg haccepts]
      split
      · exact hkept.cons _
      · exact hkept

theorem selected_end (explain : List Char → Option String)
    {result result' : List String × Option Failure} (h : result.2 = result'.2) :
    (selected explain result).code = (selected explain result').code ∧
      (selected explain result).stderr = (selected explain result').stderr := by
  obtain ⟨kept, failure⟩ := result
  obtain ⟨kept', failure'⟩ := result'
  obtain rfl : failure = failure' := h
  rcases failure with _ | _ | ⟨number, line⟩ <;> exact ⟨rfl, rfl⟩

end RecordQuery.CommandLine

namespace RecordQuery

open CommandLine (writtenLines)

/-! ## Runs -/

theorem Command.run_allowMissing (lookup : String → Option String) (source : CommandLine.Source)
    (filter : String) (file : Option String) (explain : List Char → Option String) :
    let run (allowMissing : Bool) : Outcome :=
      Command.run lookup source (.test filter file allowMissing) explain
    (writtenLines (run false).stdout).Sublist (writtenLines (run true).stdout) ∧
      (run false).code = (run true).code ∧ (run false).stderr = (run true).stderr := by
  intro run
  simp only [run, Command.run, Command.runWith, Command.runTest]
  cases Settings.load lookup with
  | error e => exact ⟨.refl _, rfl, rfl⟩
  | ok settings =>
    simp only
    cases Filter.read filter settings.maxDepth with
    | error e => exact ⟨.refl _, rfl, rfl⟩
    | ok f =>
      cases source with
      | unavailable path reason => exact ⟨.refl _, rfl, rfl⟩
      | bytes content =>
        have hlenient : ∀ record, f.test record (settings.strict && !false) = true →
            f.test record (settings.strict && !true) = true := by
          intro record htest
          cases hstrict : settings.strict with
          | false => rwa [hstrict] at htest
          | true => exact Filter.test_lenient (by rwa [hstrict] at htest)
        obtain ⟨hkept, hfailure⟩ := CommandLine.select_imp hlenient 1 (CommandLine.lines content)
        simp only [CommandLine.writtenLines_selected]
        exact ⟨hkept.map _, CommandLine.selected_end explain hfailure⟩

/-- Lenient evaluation of paths that a record lacks only adds. A filter accepts what it accepts under
strict evaluation, and the same where the record has all of its paths; of a list it keeps as many
records or more, in their order; a page counts as many or more; and a run that allows missing paths
writes all lines of one that does not, in their order. -/
theorem Filter.lenient_adds (f : Filter) :
    (∀ record, f.test record true = true → f.test record false = true) ∧
      (∀ record, f.All (·.Resolves record) → f.test record true = f.test record false) ∧
      (∀ records : List Json,
        (records.filter (f.test · true)).Sublist (records.filter (f.test · false))) ∧
      (∀ (α : Type) (sorting : Sorting α) (o : Options) (record : α → Json) (items : List α)
        (page page' : Page α), o.page? sorting record items true = some page →
          o.page? sorting record items false = some page' →
          ∀ n, page.total = some n → ∃ m, page'.total = some m ∧ n ≤ m) ∧
      ∀ lookup source filter file explain,
        let run (allowMissing : Bool) : Outcome :=
          Command.run lookup source (.test filter file allowMissing) explain
        (writtenLines (run false).stdout).Sublist (writtenLines (run true).stdout) ∧
          (run false).code = (run true).code ∧ (run false).stderr = (run true).stderr :=
  ⟨fun _ => test_lenient, fun _ h => test_of_resolves h true false, f.sublist_lenient,
    fun _ _ _ _ _ _ _ hpage hpage' _ => Options.total_lenient hpage hpage',
    Command.run_allowMissing⟩

/-- A group of which one path is missing, in a record and in the second of three lines. -/
theorem Filter.lenient_adds_two_paths :
    let f : Filter := .group (some .and) [.condition "a" (.comparison .eq) (.number (.ofInt 1)),
      .condition "b.c" (.comparison .ne) (.bool true)]
    let whole := Json.object [("a", .number (.integer 1)), ("b", .object [("c", .null)])]
    let o := (Options.empty.setFilter f).setInlineCount true
    let stream := "\x7b\"a\":1,\"b\":\x7b\"c\":null\x7d\x7d\n\x7b\"a\":1\x7d\n\x7b\"a\":2\x7d\n"
    let run (allowMissing : Bool) : Outcome := Command.run (fun _ => none)
      (.bytes (Text.utf8 stream.toList)) (.test "a eq 1 and b.c ne true" none allowMissing)
    (f.All (·.Resolves whole) ∧ f.test whole true = f.test whole false) ∧
      (f.test whole true = true ∧ f.test whole false = true) ∧
      (∃ m, (o.page id [whole] false).total = some m ∧ 1 ≤ m) ∧
      (writtenLines (run false).stdout).length = 1 ∧ (writtenLines (run true).stdout).length = 2 ∧
      (writtenLines (run false).stdout).Sublist (writtenLines (run true).stdout) := by
  intro f whole o stream run
  have hresolves : f.All (·.Resolves whole) := by
    have ha : (whole.resolve? "a").isSome = true := by decide +kernel
    have hb : (whole.resolve? "b.c").isSome = true := by decide +kernel
    simp [f, condition, Condition.Resolves, ha, hb]
  have haccepts : f.test whole true = true := by decide +kernel
  have htotal : (o.page id [whole] true).total = some 1 := by decide +kernel
  obtain ⟨htest, hsame, -, hpage, hrun⟩ := Filter.lenient_adds f
  exact ⟨⟨hresolves, hsame whole hresolves⟩, ⟨haccepts, htest whole haccepts⟩,
    hpage Json .merge o id [whole] _ _ (o.page?_merge ..) (o.page?_merge ..) 1 htotal,
    by decide +kernel, by decide +kernel,
    (hrun (fun _ => none) _ _ none fun _ => none).1⟩

end RecordQuery
