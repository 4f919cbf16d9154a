import RecordQuery.CommandLine.Command
import RecordQuery.Proofs.Text.Utf8

/-!
# Streams of records

A run that keeps the records of a stream writes the lines of the accepted ones as they are, up to
the first line that cannot be read.

* `HasLines`: how bytes are cut into lines, and `hasLines_iff`: `lines` cuts them so.
* `HasLines.exists_start`: the first lines of a stream are the lines of its start.
* `IsReadable`, `Passes`: the lines that can be read, and those whose record is accepted.
* `exists_select_append`: readable lines go through whatever follows them, and those that pass are
  kept (by induction on the lines).
* `exists_select_unreadable`: the first line that cannot be read ends the selection.
* `run_test_streams`: what a run writes and how it ends.
-/

namespace RecordQuery.CommandLine

/-! ## Lines -/

/-- The lines of a stream. A newline ends a line, and so does the end of the stream if something
stands before it; the newline and one carriage return before it do not belong to the line. -/
inductive HasLines : List UInt8 → List (List UInt8) → Prop where
  | nil : HasLines [] []
  | last {line : List UInt8} (h : 0x0A ∉ line) (hne : line ≠ []) : HasLines line [line]
  | newline {line rest : List UInt8} {ls : List (List UInt8)} (h : 0x0A ∉ line)
      (hreturn : line.getLast? ≠ some 0x0D) (hrest : HasLines rest ls) :
      HasLines (line ++ 0x0A :: rest) (line :: ls)
  | returned {line rest : List UInt8} {ls : List (List UInt8)} (h : 0x0A ∉ line)
      (hrest : HasLines rest ls) : HasLines (line ++ 0x0D :: 0x0A :: rest) (line :: ls)

/-- The bytes up to a newline are a line, without a carriage return at their end. -/
theorem lines_append {line : List UInt8} (h : 0x0A ∉ line) (rest : List UInt8) :
    lines (line ++ 0x0A :: rest) =
      (if line.getLast? = some 0x0D then line.dropLast else line) :: lines rest := by
  have hne := List.splitOn_ne_nil 0x0A rest
  simp only [lines, List.splitOn_append_cons_self, List.splitOn_eq_singleton h, List.singleton_append,
    List.dropLast_cons_of_ne_nil hne, List.getLast?_cons_of_ne_nil hne, List.map_cons]
  split <;> rfl

theorem lines_last {line : List UInt8} (h : 0x0A ∉ line) :
    lines line = if line = [] then [] else [line] := by
  simp only [lines, List.splitOn_eq_singleton h]
  cases line <;> rfl

theorem hasLines_lines (content : List UInt8) : HasLines content (lines content) := by
  by_cases h : 0x0A ∈ content
  · obtain ⟨line, rest, rfl, hline⟩ := List.eq_append_cons_of_mem h
    have hrest := hasLines_lines rest
    rw [lines_append hline]
    split
    · rename_i hreturn
      obtain ⟨init, rfl⟩ := List.getLast?_eq_some_iff.mp hreturn
      rw [List.dropLast_concat, List.append_assoc]
      exact .returned (fun hmem => hline (List.mem_append_left _ hmem)) hrest
    · exact .newline hline ‹_› hrest
  · rw [lines_last h]
    split
    · subst content
      exact .nil
    · exact .last h ‹_›
termination_by content.length
decreasing_by
  subst content
  rw [List.length_append, List.length_cons]
  omega

theorem hasLines_iff {content : List UInt8} {ls : List (List UInt8)} :
    HasLines content ls ↔ lines content = ls := by
  constructor
  · intro h
    induction h with
    | nil => rfl
    | last h hne => rw [lines_last h, if_neg hne]
    | newline h hreturn hrest ih => rw [lines_append h, if_neg hreturn, ih]
    | @returned line rest ls h hrest ih =>
      have hline : 0x0A ∉ line ++ [0x0D] := by simpa using h
      rw [List.append_cons, lines_append hline, ih]
      simp
  · rintro rfl
    exact hasLines_lines content

theorem HasLines.exists_start {content : List UInt8} {before after : List (List UInt8)}
    (h : HasLines content (before ++ after)) (hafter : after ≠ []) :
    ∃ start, start <+: content ∧ HasLines start before := by
  induction before generalizing content with
  | nil => exact ⟨[], List.nil_prefix, .nil⟩
  | cons line before ih =>
    generalize hls : line :: before ++ after = ls at h
    cases h with
    | nil => cases hls
    | last h hne =>
      -- A line without a newline is the last one, but `after` has another.
      obtain ⟨-, hnil⟩ := List.cons.inj hls
      exact absurd (List.append_eq_nil_iff.mp hnil).2 hafter
    | newline h hreturn hrest =>
      obtain ⟨rfl, rfl⟩ := List.cons.inj hls
      obtain ⟨start, ⟨rest, rfl⟩, hstart⟩ := ih hrest
      exact ⟨line ++ 0x0A :: start, ⟨rest, by simp⟩, .newline h hreturn hstart⟩
    | returned h hrest =>
      obtain ⟨rfl, rfl⟩ := List.cons.inj hls
      obtain ⟨start, ⟨rest, rfl⟩, hstart⟩ := ih hrest
      exact ⟨line ++ 0x0D :: 0x0A :: start, ⟨rest, by simp⟩, .returned h hstart⟩

/-! ## One line -/

/-- The line is UTF-8, and blank or JSON. -/
def IsReadable (line : List UInt8) : Prop :=
  ∃ text, Text.utf8 text = line ∧
    (text.all Text.isBlank = true ∨ ∃ record, Json.read? text = some record)

/-- The line is no blank one, and a test accepts the record on it. -/
def Passes (accepts : Json → Bool) (line : List UInt8) : Prop :=
  ∃ text record, Text.utf8 text = line ∧ text.all Text.isBlank = false ∧
    Json.read? text = some record ∧ accepts record = true

theorem passes_utf8 {accepts : Json → Bool} {text : List Char} :
    Passes accepts (Text.utf8 text) ↔
      text.all Text.isBlank = false ∧ ∃ record, Json.read? text = some record ∧ accepts record := by
  constructor
  · rintro ⟨text', record, heq, hblank, hread, haccepts⟩
    obtain rfl := Text.utf8_injective heq
    exact ⟨hblank, record, hread, haccepts⟩
  · rintro ⟨hblank, record, hread, haccepts⟩
    exact ⟨text, record, rfl, hblank, hread, haccepts⟩

instance : DecidablePred IsReadable := fun line =>
  decidable_of_iff
    ((Text.decodeStrict? line).any fun text =>
      text.all Text.isBlank || (Json.read? text).isSome) <| by
    simp only [Option.any_eq_true, Bool.or_eq_true, Option.isSome_iff_exists,
      Text.decodeStrict?_eq_some_iff, IsReadable]

instance (accepts : Json → Bool) : DecidablePred (Passes accepts) := fun line =>
  decidable_of_iff
    ((Text.decodeStrict? line).any fun text =>
      !text.all Text.isBlank && (Json.read? text).any accepts) <| by
    simp only [Option.any_eq_true, Bool.and_eq_true, Bool.not_eq_true',
      Text.decodeStrict?_eq_some_iff, Passes]
    constructor
    · rintro ⟨text, heq, hblank, record, hread, haccepts⟩
      exact ⟨text, record, heq, hblank, hread, haccepts⟩
    · rintro ⟨text, record, heq, hblank, hread, haccepts⟩
      exact ⟨text, heq, hblank, record, hread, haccepts⟩

/-- The bytes that are written of the lines that passed. -/
def written (kept : List String) : List UInt8 :=
  Text.utf8 (String.join (kept.map (· ++ "\n"))).toList

theorem written_nil : written [] = [] := rfl

theorem written_append (xs ys : List String) : written (xs ++ ys) = written xs ++ written ys := by
  simp [written, Text.utf8, String.toList_join]

theorem written_ofList (text : List Char) :
    written [String.ofList text] = Text.utf8 text ++ [0x0A] := by
  have hnewline : String.utf8EncodeChar '\n' = [0x0A] := by decide
  simp [written, Text.utf8, hnewline]

/-- A line that can be read is kept as it is if it passes, and the selection goes on after it. -/
theorem exists_select_readable (accepts : Json → Bool) {line : List UInt8} (h : IsReadable line) :
    ∃ kept, written kept = (if Passes accepts line then line ++ [0x0A] else []) ∧
      ∀ number rest, select accepts number (line :: rest) =
        (kept ++ (select accepts (number + 1) rest).1, (select accepts (number + 1) rest).2) := by
  -- The three ways through `select` that go on to the next line.
  obtain ⟨text, rfl, hread⟩ := h
  have hdecode := Text.decodeStrict?_eq_some_iff.mpr (Eq.refl (Text.utf8 text))
  cases hblank : text.all Text.isBlank with
  | true =>
    refine ⟨[], ?_, fun number rest => ?_⟩
    · simp [passes_utf8, hblank, written_nil]
    · simp [select, hdecode, hblank]
  | false =>
    obtain ⟨record, hread⟩ := hread.resolve_left (by simp [hblank])
    cases haccepts : accepts record with
    | true =>
      refine ⟨[String.ofList text], ?_, fun number rest => ?_⟩
      · simp [passes_utf8, hblank, hread, haccepts, written_ofList]
      · simp [select, hdecode, hblank, hread, haccepts]
    | false =>
      refine ⟨[], ?_, fun number rest => ?_⟩
      · simp [passes_utf8, hblank, hread, haccepts, written_nil]
      · simp [select, hdecode, hblank, hread, haccepts]

/-- A line that cannot be read ends the selection, under its number if it is UTF-8. -/
theorem exists_select_unreadable (accepts : Json → Bool) {line : List UInt8} (h : ¬ IsReadable line)
    (number : Nat) (rest : List (List UInt8)) :
    ∃ failure, select accepts number (line :: rest) = ([], some failure) ∧
      ∀ text, Text.utf8 text = line → failure = .notJson number text := by
  cases hdecode : Text.decodeStrict? line with
  | none =>
    refine ⟨.notText, by simp [select, hdecode], fun text htext => ?_⟩
    rw [Text.decodeStrict?_eq_some_iff.mpr htext] at hdecode
    cases hdecode
  | some text =>
    have htext := Text.decodeStrict?_eq_some_iff.mp hdecode
    have hblank : text.all Text.isBlank = false := by
      rw [← Bool.not_eq_true]
      exact fun hblank => h ⟨text, htext, .inl hblank⟩
    have hread : Json.read? text = none := by
      rw [Option.eq_none_iff_forall_ne_some]
      exact fun record hread => h ⟨text, htext, .inr ⟨record, hread⟩⟩
    refine ⟨.notJson number text, by simp [select, hdecode, hblank, hread], fun text' htext' => ?_⟩
    rw [Text.utf8_injective (htext'.trans htext.symm)]

/-! ## All lines -/

/-- Lines that can be read go through whatever follows them, and those that pass are kept. -/
theorem exists_select_append (accepts : Json → Bool) {before : List (List UInt8)}
    (h : ∀ line ∈ before, IsReadable line) :
    ∃ kept, written kept = (before.filter (Passes accepts ·)).flatMap (· ++ [0x0A]) ∧
      ∀ number after, select accepts number (before ++ after) =
        (kept ++ (select accepts (number + before.length) after).1,
          (select accepts (number + before.length) after).2) := by
  induction before with
  | nil => exact ⟨[], rfl, fun number after => rfl⟩
  | cons line before ih =>
    obtain ⟨hline, hbefore⟩ := List.forall_mem_cons.mp h
    obtain ⟨first, hfirst, hselect⟩ := exists_select_readable accepts hline
    obtain ⟨kept, hkept, happend⟩ := ih hbefore
    refine ⟨first ++ kept, ?_, fun number after => ?_⟩
    · rw [written_append, hfirst, hkept, List.filter_cons]
      by_cases hpasses : Passes accepts line <;> simp [hpasses]
    · rw [List.cons_append, hselect, happend, List.length_cons, Nat.add_assoc, Nat.add_comm 1,
        List.append_assoc]

section Selected

variable (explain : List Char → Option String)

@[simp]
theorem selected_stdout (result : List String × Option Failure) :
    (selected explain result).stdout = String.join (result.1.map (· ++ "\n")) := by
  obtain ⟨kept, failure⟩ := result
  rcases failure with _ | _ | ⟨number, line⟩ <;> rfl

/-- A selection from lines that can be read ends well, with the lines that pass written as they are
and in their order. -/
theorem selected_of_readable (accepts : Json → Bool) {ls : List (List UInt8)}
    (h : ∀ line ∈ ls, IsReadable line) :
    (selected explain (select accepts 1 ls)).code = 0 ∧
      (selected explain (select accepts 1 ls)).stderr = "" ∧
      Text.utf8 (selected explain (select accepts 1 ls)).stdout.toList =
        (ls.filter (Passes accepts ·)).flatMap (· ++ [0x0A]) := by
  obtain ⟨kept, hkept, happend⟩ := exists_select_append accepts h
  have hselect : select accepts 1 ls = (kept, none) := by simpa [select] using happend 1 []
  rw [hselect]
  exact ⟨rfl, rfl, hkept⟩

/-- A selection fails at the first line that cannot be read, with the lines before it written as if
there were no others. -/
theorem selected_of_unreadable (accepts : Json → Bool) {before : List (List UInt8)}
    {line : List UInt8} (hbefore : ∀ line' ∈ before, IsReadable line') (hline : ¬ IsReadable line)
    (after : List (List UInt8)) :
    (selected explain (select accepts 1 (before ++ line :: after))).code = 1 ∧
      (selected explain (select accepts 1 (before ++ line :: after))).stdout =
        (selected explain (select accepts 1 before)).stdout ∧
      ∀ text, Text.utf8 text = line →
        (selected explain (select accepts 1 (before ++ line :: after))).stderr =
          "Error: line " ++ toString (before.length + 1) ++ " is not valid JSON\n" ++
            causesText (explain text).toList := by
  obtain ⟨kept, -, happend⟩ := exists_select_append accepts hbefore
  obtain ⟨failure, hfailure, hnumber⟩ :=
    exists_select_unreadable accepts hline (1 + before.length) after
  have hstart : select accepts 1 before = (kept, none) := by simpa [select] using happend 1 []
  have hselect : select accepts 1 (before ++ line :: after) = (kept, some failure) := by
    rw [happend, hfailure, List.append_nil]
  rw [hselect, hstart]
  refine ⟨?_, ?_, fun text htext => ?_⟩
  · cases failure <;> rfl
  · simp
  · rw [hnumber text htext, Nat.add_comm]
    simp [selected, failed, ← String.toList_inj]

end Selected

/-- A run that keeps the records of a stream. If all its lines can be read, then the run writes the
lines that pass, as they are and in their order, and ends well. Otherwise it ends at the first line
that cannot be read. It has then written what a run on the lines before would write, and its report
begins with the number of a line that is UTF-8; the reason why this is no JSON follows. -/
theorem run_test_streams {lookup : String → Option String} {settings : Settings} {filter : String}
    {f : Filter} (hsettings : Settings.load lookup = .ok settings)
    (hfilter : Filter.read filter settings.maxDepth = .ok f) (file : Option String)
    (allowMissing : Bool) (explain : List Char → Option String) (content : List UInt8) :
    let run (bytes : List UInt8) : Outcome :=
      Command.run lookup (.bytes bytes) (.test filter file allowMissing) explain
    let accepts (record : Json) : Bool := f.test record (settings.strict && !allowMissing)
    (∀ ls, HasLines content ls ↔ lines content = ls) ∧
      ((∀ line ∈ lines content, IsReadable line) →
        (run content).code = 0 ∧ (run content).stderr = "" ∧
          Text.utf8 (run content).stdout.toList =
            ((lines content).filter (Passes accepts ·)).flatMap (· ++ [0x0A])) ∧
      ∀ before line after, lines content = before ++ line :: after →
        (∀ line' ∈ before, IsReadable line') → ¬ IsReadable line →
        (run content).code = 1 ∧
          (∃ start, start <+: content ∧ lines start = before) ∧
          (∀ start, lines start = before → (run content).stdout = (run start).stdout) ∧
          ∀ text, Text.utf8 text = line → (run content).stderr =
            "Error: line " ++ toString (before.length + 1) ++ " is not valid JSON\n" ++
              causesText (explain text).toList := by
  intro run accepts
  have hrun (bytes : List UInt8) :
      run bytes = selected explain (select accepts 1 (lines bytes)) := by
    simp only [run, Command.run, hsettings, Command.runWith, Command.runTest, hfilter]
    rfl
  refine ⟨fun ls => hasLines_iff, fun hreadable => ?_, ?_⟩
  · rw [hrun]
    exact selected_of_readable explain accepts hreadable
  · intro before line after hlines hbefore hline
    obtain ⟨hcode, hstdout, hstderr⟩ := selected_of_unreadable explain accepts hbefore hline after
    have hcontent : HasLines content (before ++ line :: after) := hasLines_iff.mpr hlines
    obtain ⟨start, hbegins, hstart⟩ := hcontent.exists_start (List.cons_ne_nil _ _)
    rw [hrun, hlines]
    refine ⟨hcode, ⟨start, hbegins, hasLines_iff.mp hstart⟩, fun start' hstart' => ?_, hstderr⟩
    rw [hstdout, hrun, hstart']

/-- A record that passes, a blank line and a record that does not pass are read to the end, and
before a line that is no JSON. -/
theorem run_test_streams_three_lines :
    let three := "\x7b\"n\":\"a\"\x7d\r\n \n\x7b\"n\":\"b\"\x7d\n"
    let four := three ++ "?\n\x7b\"n\":\"a\"\x7d"
    let explain (_ : List Char) := some "expected value at line 1 column 1"
    let run (text : String) : Outcome :=
      Command.run (fun _ => none) (.bytes (Text.utf8 text.toList)) (.test "n eq 'a'" none false)
        explain
    ((run three).code = 0 ∧
        Text.utf8 (run three).stdout.toList = Text.utf8 "\x7b\"n\":\"a\"\x7d\n".toList) ∧
      (run four).code = 1 ∧ (run four).stdout = (run three).stdout ∧
        (run four).stderr = "Error: line 4 is not valid JSON\n\nCaused by:\n    " ++
          "expected value at line 1 column 1\n" := by
  intro three four explain run
  have hsettings : Settings.load (fun _ => none) = .ok {} := by rfl
  have hfilter : Filter.read "n eq 'a'" Filter.defaultLimit =
      .ok (.condition "n" (.comparison .eq) (.text "a")) := by rfl
  have hstreams (text : String) := run_test_streams hsettings hfilter none false explain
    (Text.utf8 text.toList)
  have hthree : (lines (Text.utf8 three.toList)).length = 3 := by decide +kernel
  have hfour : lines (Text.utf8 four.toList) = lines (Text.utf8 three.toList) ++
      Text.utf8 ['?'] :: [Text.utf8 "\x7b\"n\":\"a\"\x7d".toList] := by
    decide +kernel
  have hreadable : ∀ line ∈ lines (Text.utf8 three.toList), IsReadable line := by decide +kernel
  have hline : ¬ IsReadable (Text.utf8 ['?']) := by decide +kernel
  obtain ⟨-, hend, -⟩ := hstreams three
  obtain ⟨hcode, -, hstdout⟩ := hend hreadable
  obtain ⟨-, -, hfail⟩ := hstreams four
  obtain ⟨hcode', -, hstdout', hstderr⟩ := hfail _ _ _ hfour hreadable hline
  refine ⟨⟨hcode, hstdout.trans ?_⟩, hcode', hstdout' _ rfl, ?_⟩
  · decide +kernel
  · rw [hstderr _ rfl, hthree]
    rfl

end RecordQuery.CommandLine
