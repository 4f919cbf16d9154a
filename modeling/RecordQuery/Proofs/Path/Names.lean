import Mathlib.Computability.Language
import RecordQuery.Path
import RecordQuery.Proofs.Text.Pieces

/-!
# Paths name by name

Which texts a filter may use as a path, and what a path of any text leads to.

* `IsName`: a letter, an underscore or a dollar sign, and any number of these and of digits after it.
* `isPathFrom_iff`: reading character by character accepts the texts whose pieces between points are
  names (by induction on the text).
* `mem_pathPattern_iff`: so does the pattern of a path, a name and any number of points with a name
  after each.
* `Json.resolve?_point`: a path with a point in it is followed up to the point and then from there.
* `Json.resolve?_congr`: a path asks the record for its first name, and for nothing else.
* `paths_by_names`: what may be used and what is found, by the pieces of a path.
-/

namespace RecordQuery

/-! ## Names -/

/-- A letter from A to Z in either case, an underscore or a dollar sign. -/
def IsNameStart (c : Char) : Prop :=
  ('A' ≤ c ∧ c ≤ 'Z') ∨ ('a' ≤ c ∧ c ≤ 'z') ∨ c = '_' ∨ c = '$'

/-- A character that a name may start with, or a digit from 0 to 9. -/
def IsNamePart (c : Char) : Prop := IsNameStart c ∨ ('0' ≤ c ∧ c ≤ '9')

/-- A character that a name may start with, and then any number of those that may follow it. -/
def IsName : List Char → Prop
  | [] => False
  | c :: rest => IsNameStart c ∧ ∀ d ∈ rest, IsNamePart d

theorem isNameStart_iff {c : Char} : isNameStart c = true ↔ IsNameStart c := by
  have hletter : c.isAlpha = (decide ('A' ≤ c ∧ c ≤ 'Z') || ('a' ≤ c && c ≤ 'z')) := rfl
  simp [isNameStart, hletter, IsNameStart, or_assoc]

theorem isNamePart_iff {c : Char} : isNamePart c = true ↔ IsNamePart c := by
  have hdigit : c.isDigit = ('0' ≤ c && c ≤ '9') := rfl
  simp [isNamePart, isNameStart_iff, hdigit, IsNamePart]

theorem IsNamePart.ne_point {c : Char} (h : IsNamePart c) : c ≠ '.' := by
  rintro rfl
  exact absurd (isNamePart_iff.mpr h) (by decide)

theorem IsName.ne_nil {name : List Char} (h : IsName name) : name ≠ [] := by
  rintro rfl
  exact h

theorem IsName.point_not_mem {name : List Char} (h : IsName name) : '.' ∉ name := by
  intro hmem
  cases name with
  | nil => cases hmem
  | cons c rest =>
    rcases List.mem_cons.mp hmem with rfl | hmem
    · exact IsNamePart.ne_point (.inl h.1) rfl
    · exact (h.2 '.' hmem).ne_point rfl

/-! ## Reading a path -/

/-- What is left of a name: all of it at the start, and within it any characters that may follow. -/
def IsNameFrom (atStart : Bool) (piece : List Char) : Prop :=
  if atStart then IsName piece else ∀ c ∈ piece, IsNamePart c

/-- Reading accepts a text if its first piece completes a name and the other pieces are names. -/
theorem isPathFrom_iff {cs piece : List Char} {names : List (List Char)}
    (h : cs.splitOn '.' = piece :: names) (atStart : Bool) :
    isPathFrom atStart cs = true ↔ IsNameFrom atStart piece ∧ ∀ name ∈ names, IsName name := by
  induction cs generalizing piece names atStart with
  | nil =>
    rw [List.splitOn_nil] at h
    cases h
    cases atStart <;> simp [isPathFrom, IsNameFrom, IsName]
  | cons c rest ih =>
    obtain ⟨next, others, hrest⟩ := List.exists_cons_of_ne_nil (List.splitOn_ne_nil '.' rest)
    rw [List.splitOn_cons_eq_if_modifyHead, hrest] at h
    by_cases hc : c = '.'
    · -- A point ends a name, and cannot stand where one has to begin.
      subst hc
      cases h
      cases atStart with
      | true => simp [isPathFrom, IsNameFrom, IsName, isNameStart]
      | false => simp [isPathFrom, ih hrest, IsNameFrom]
    · simp only [beq_iff_eq, hc, if_false, List.modifyHead_cons] at h
      cases h
      cases atStart with
      | true => simp [isPathFrom, ih hrest, IsNameFrom, IsName, isNameStart_iff, and_assoc]
      | false => simp [isPathFrom, hc, ih hrest, IsNameFrom, isNamePart_iff, and_assoc]

theorem isPropertyPath_iff (path : String) :
    isPropertyPath path = true ↔ ∀ name ∈ path.toList.splitOn '.', IsName name := by
  obtain ⟨piece, names, hpieces⟩ :=
    List.exists_cons_of_ne_nil (List.splitOn_ne_nil '.' path.toList)
  rw [isPropertyPath, isPathFrom_iff hpieces, hpieces, List.forall_mem_cons]
  rfl

/-! ## The pattern of a path -/

section Pattern

open Computability

/-- The texts of one character with the property. -/
def oneOf (p : Char → Prop) : Language Char := {cs | ∃ c, p c ∧ cs = [c]}

/-- The pattern of a name: a character to start it, and then any number of characters to follow. -/
def namePattern : Language Char := oneOf IsNameStart * (oneOf IsNamePart)∗

/-- The pattern of a path: a name, and then any number of points with a name after each. -/
def pathPattern : Language Char := namePattern * (oneOf (· = '.') * namePattern)∗

theorem mem_kstar_oneOf_iff {p : Char → Prop} {cs : List Char} :
    cs ∈ (oneOf p)∗ ↔ ∀ c ∈ cs, p c := by
  rw [Language.mem_kstar]
  constructor
  · rintro ⟨pieces, rfl, hpieces⟩ c hc
    obtain ⟨piece, hpiece, hc⟩ := List.mem_flatten.mp hc
    obtain ⟨d, hd, rfl⟩ := hpieces piece hpiece
    rwa [List.mem_singleton.mp hc]
  · intro h
    refine ⟨cs.map fun c => [c], by simp [← List.flatMap_def], ?_⟩
    simp only [List.forall_mem_map]
    exact fun c hc => ⟨c, h c hc, rfl⟩

theorem mem_namePattern_iff {name : List Char} : name ∈ namePattern ↔ IsName name := by
  rw [namePattern, Language.mem_mul]
  constructor
  · rintro ⟨_, ⟨c, hc, rfl⟩, rest, hrest, rfl⟩
    exact ⟨hc, mem_kstar_oneOf_iff.mp hrest⟩
  · intro h
    cases name with
    | nil => exact h.elim
    | cons c rest => exact ⟨[c], ⟨c, h.1, rfl⟩, rest, mem_kstar_oneOf_iff.mpr h.2, rfl⟩

/-- A text of the pattern is a name, or a name and a point before another such text. -/
theorem mem_pathPattern_iff_point {cs : List Char} :
    cs ∈ pathPattern ↔
      IsName cs ∨ ∃ name rest, IsName name ∧ rest ∈ pathPattern ∧ cs = name ++ '.' :: rest := by
  have hunfold : pathPattern = namePattern + namePattern * (oneOf (· = '.') * pathPattern) := by
    rw [pathPattern, ← mul_assoc (oneOf _), ← mul_assoc namePattern (oneOf _ * namePattern),
      mul_assoc namePattern, ← mul_one_add, Language.one_add_self_mul_kstar_eq_kstar]
  conv_lhs => rw [hunfold, Language.mem_add, mem_namePattern_iff]
  refine or_congr_right ?_
  constructor
  · rintro ⟨name, hname, _, ⟨_, ⟨_, rfl, rfl⟩, rest, hrest, rfl⟩, rfl⟩
    exact ⟨name, rest, mem_namePattern_iff.mp hname, hrest, rfl⟩
  · rintro ⟨name, rest, hname, hrest, rfl⟩
    exact ⟨name, mem_namePattern_iff.mpr hname, _, ⟨['.'], ⟨'.', rfl, rfl⟩, rest, hrest, rfl⟩, rfl⟩

theorem forall_isName_iff_point {cs : List Char} :
    (∀ name ∈ cs.splitOn '.', IsName name) ↔
      IsName cs ∨ ∃ name rest, IsName name ∧ (∀ name ∈ rest.splitOn '.', IsName name) ∧
        cs = name ++ '.' :: rest := by
  constructor
  · intro h
    by_cases hpoint : '.' ∈ cs
    · obtain ⟨name, rest, rfl, hname⟩ := List.eq_append_cons_of_mem hpoint
      rw [List.splitOn_append_cons_self, List.splitOn_eq_singleton hname, List.singleton_append,
        List.forall_mem_cons] at h
      exact .inr ⟨name, rest, h.1, h.2, rfl⟩
    · rw [List.splitOn_eq_singleton hpoint, List.forall_mem_singleton] at h
      exact .inl h
  · rintro (h | ⟨name, rest, hname, hrest, rfl⟩)
    · rwa [List.splitOn_eq_singleton h.point_not_mem, List.forall_mem_singleton]
    · rw [List.splitOn_append_cons_self, List.splitOn_eq_singleton hname.point_not_mem,
        List.singleton_append, List.forall_mem_cons]
      exact ⟨hname, hrest⟩

theorem mem_pathPattern_iff {cs : List Char} :
    cs ∈ pathPattern ↔ ∀ name ∈ cs.splitOn '.', IsName name := by
  rw [mem_pathPattern_iff_point, forall_isName_iff_point]
  refine or_congr_right (exists_congr fun name => exists_congr fun rest => ?_)
  refine and_congr_right fun _ => and_congr_left fun hcs => ?_
  exact mem_pathPattern_iff
termination_by cs.length
decreasing_by simp [hcs]; omega

/-- A filter may use exactly the paths of the pattern. -/
theorem isPropertyPath_iff_mem_pathPattern (path : String) :
    isPropertyPath path = true ↔ path.toList ∈ pathPattern := by
  rw [isPropertyPath_iff, mem_pathPattern_iff]

end Pattern

/-! ## Following a path -/

/-- The name that a path asks the record for: what stands before its first point. -/
def firstName (path : String) : String := String.ofList (path.toList.takeWhile (· ≠ '.'))

namespace Json

/-- A path with a point in it is followed up to the point, and from there. -/
theorem resolve?_point {p q : String} (hp : p ≠ "") (hq : q ≠ "") (record : Json) :
    resolve? (p ++ "." ++ q) record = (resolve? p record).bind (resolve? q) := by
  have hne : p ++ "." ++ q ≠ "" := by simp
  have hpieces : (p ++ "." ++ q).toList.splitOn '.' =
      p.toList.splitOn '.' ++ q.toList.splitOn '.' := by
    rw [String.toList_append, String.toList_append, List.append_assoc]
    exact List.splitOn_append_cons_self ..
  unfold resolve?
  rw [if_neg hne, if_neg hp, hpieces, List.foldlM_append]
  simp only [if_neg hq]
  rfl

/-- A path asks the record for its first name, and for nothing else. -/
theorem resolve?_congr {path : String} {record record' : Json}
    (h : path ≠ "" → record.field? (firstName path) = record'.field? (firstName path)) :
    resolve? path record = resolve? path record' := by
  unfold resolve?
  split
  · rfl
  · rename_i hne
    obtain ⟨names, hnames⟩ := Text.exists_splitOn_eq_cons '.' path.toList
    rw [hnames, List.foldlM_cons, List.foldlM_cons]
    exact congrArg (· >>= _) (h hne)

end Json

/-- A filter may use a path exactly if all pieces between its points are names, so that none of them
is empty. A path of two paths with a point between them is followed as the first one and then, from
where it leads, as the second one, whether or not a filter may use them: it leads nowhere as soon as
one of them does. -/
theorem paths_by_names :
    (∀ path : String,
      isPropertyPath path = true ↔ ∀ name ∈ path.toList.splitOn '.', IsName name) ∧
    (∀ path : String, isPropertyPath path = true → ∀ name ∈ path.toList.splitOn '.', name ≠ []) ∧
    ∀ (record : Json) (p q : String), p ≠ "" → q ≠ "" →
      Json.resolve? (p ++ "." ++ q) record =
        (Json.resolve? p record).bind fun node => Json.resolve? q node :=
  ⟨isPropertyPath_iff, fun path h name hname => ((isPropertyPath_iff path).mp h name hname).ne_nil,
    fun record _ _ hp hq => Json.resolve?_point hp hq record⟩

/-- A path that a filter may use, and two that lead through empty names and that none may use. -/
theorem paths_by_names_empty_names :
    (∀ name ∈ "owner.name".toList.splitOn '.', name ≠ []) ∧
      isPropertyPath ("a." ++ "." ++ ".b") = false ∧
      Json.resolve? ("a." ++ "." ++ ".b")
          (.object [("a", .object [("", .object [("", .object [("b", .bool true)])])])]) =
        some (.bool true) := by
  refine ⟨paths_by_names.2.1 _ (by decide), by decide, ?_⟩
  rw [paths_by_names.2.2 _ "a." ".b" (by decide) (by decide)]
  rfl

end RecordQuery
