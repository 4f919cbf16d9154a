/-!
# Keyed lists

Lists of keys and values in the order in which the keys arrived.

* `Keyed.get?`: the value of a key.
* `Keyed.put`: gives a key a value; a key that is present keeps its place, a new one goes to the
  end.
* `Keyed.erase`: takes a key out.
* `Keyed.get?_put`, `Keyed.get?_erase_of_ne`, `Keyed.keys_put`, `Keyed.keys_erase`: the values of
  keys and the order of the keys afterwards.
* `Keyed.mem_put`, `Keyed.put_of_not_mem`, `Keyed.erase_sublist`: the entries afterwards.
* `Keyed.filter_put`, `Keyed.filter_erase`: the entries of other keys stay as they are.
* `Keyed.get?_of_mem`, `Keyed.get?_erase`, `Keyed.putAll_of_nodup`: where no key occurs twice, each
  entry is the value of its key, a key that is taken out has none, and putting all entries builds
  the list.
* `Keyed.get?_putAll`, `Keyed.keys_putAll`: the values and the order of the keys after many changes,
  no key of which occurs twice.
* `Keyed.putAll_putAll`: changes may be put together before they are made.
-/

namespace RecordQuery.Keyed

variable {κ α : Type} [DecidableEq κ]

/-- The value of a key: that of its first entry. -/
def get? (k : κ) : List (κ × α) → Option α
  | [] => none
  | (k', v) :: rest => if k' = k then some v else get? k rest

/-- The keys in the order in which they arrived. -/
def keys (entries : List (κ × α)) : List κ := entries.map Prod.fst

/-- Gives a key a value: in its place if the key is present, and else at the end. -/
def put (k : κ) (v : α) : List (κ × α) → List (κ × α)
  | [] => [(k, v)]
  | (k', v') :: rest => if k' = k then (k', v) :: rest else (k', v') :: put k v rest

/-- The list without the first entry of a key. -/
def erase (k : κ) : List (κ × α) → List (κ × α)
  | [] => []
  | (k', v) :: rest => if k' = k then rest else (k', v) :: erase k rest

/-- Gives keys their values one after another. -/
def putAll (entries changes : List (κ × α)) : List (κ × α) :=
  changes.foldl (fun acc (k, v) => put k v acc) entries

@[simp] theorem putAll_nil (entries : List (κ × α)) : putAll entries [] = entries := rfl

@[simp] theorem putAll_cons (entries : List (κ × α)) (k : κ) (v : α) (changes : List (κ × α)) :
    putAll entries ((k, v) :: changes) = putAll (put k v entries) changes := rfl

theorem get?_put (k k' : κ) (v : α) (entries : List (κ × α)) :
    get? k' (put k v entries) = if k = k' then some v else get? k' entries := by
  induction entries with
  | nil => simp [put, get?]
  | cons e rest ih =>
    obtain ⟨k₁, v₁⟩ := e
    by_cases h : k₁ = k
    · subst h
      by_cases h' : k₁ = k' <;> simp [put, get?, h']
    · by_cases h' : k₁ = k'
      · subst h'
        simp [put, get?, h, Ne.symm h]
      · simp [put, get?, h, h', ih]

/-- A key that is present keeps its place, and a new one goes to the end. -/
theorem keys_put (k : κ) (v : α) (entries : List (κ × α)) :
    keys (put k v entries) = if k ∈ keys entries then keys entries else keys entries ++ [k] := by
  induction entries with
  | nil => simp [put, keys]
  | cons e rest ih =>
    obtain ⟨k₁, v₁⟩ := e
    simp only [keys] at ih
    by_cases h : k₁ = k
    · simp [put, keys, h]
    · simp only [put, h, if_false, keys, List.map_cons, ih, List.mem_cons, Ne.symm h, false_or]
      split <;> simp [*]

theorem keys_erase (k : κ) (entries : List (κ × α)) :
    keys (erase k entries) = (keys entries).erase k := by
  induction entries with
  | nil => rfl
  | cons e rest ih =>
    obtain ⟨k₁, v₁⟩ := e
    simp only [keys] at ih
    by_cases h : k₁ = k <;> simp [erase, keys, h, ih]

theorem mem_put {k : κ} {v : α} {entries : List (κ × α)} {e : κ × α} (h : e ∈ put k v entries) :
    e = (k, v) ∨ e ∈ entries := by
  induction entries with
  | nil => simpa [put] using h
  | cons e₁ rest ih =>
    obtain ⟨k₁, v₁⟩ := e₁
    by_cases hk : k₁ = k
    · subst hk
      rw [put, if_pos rfl] at h
      rcases List.mem_cons.mp h with h | h
      · exact .inl h
      · exact .inr (List.mem_cons_of_mem _ h)
    · rw [put, if_neg hk] at h
      rcases List.mem_cons.mp h with h | h
      · exact .inr (by simp [h])
      · exact (ih h).imp_right (List.mem_cons_of_mem _)

theorem put_of_not_mem {k : κ} (v : α) {entries : List (κ × α)} (h : k ∉ keys entries) :
    put k v entries = entries ++ [(k, v)] := by
  induction entries with
  | nil => rfl
  | cons e rest ih =>
    obtain ⟨k₁, v₁⟩ := e
    simp only [keys, List.map_cons, List.mem_cons, not_or] at h
    obtain ⟨hne, hrest⟩ := h
    rw [put, if_neg (Ne.symm hne), ih hrest, List.cons_append]

theorem erase_sublist (k : κ) (entries : List (κ × α)) : (erase k entries).Sublist entries := by
  induction entries with
  | nil => exact .slnil
  | cons e rest ih =>
    obtain ⟨k₁, v₁⟩ := e
    unfold erase
    split
    · exact List.sublist_cons_self _ rest
    · exact ih.cons_cons _

/-- Entries of other keys stay as they are, and in their order, when a key is given a value. -/
theorem filter_put {k : κ} {p : κ → Bool} (hp : p k = false) (v : α) (entries : List (κ × α)) :
    (put k v entries).filter (fun e => p e.1) = entries.filter fun e => p e.1 := by
  induction entries with
  | nil => simp [put, hp]
  | cons e rest ih =>
    obtain ⟨k₁, v₁⟩ := e
    by_cases hk : k₁ = k
    · subst hk
      simp [put, hp]
    · simp [put, hk, List.filter_cons, ih]

theorem filter_erase {k : κ} {p : κ → Bool} (hp : p k = false) (entries : List (κ × α)) :
    (erase k entries).filter (fun e => p e.1) = entries.filter fun e => p e.1 := by
  induction entries with
  | nil => rfl
  | cons e rest ih =>
    obtain ⟨k₁, v₁⟩ := e
    by_cases hk : k₁ = k
    · subst hk
      simp [erase, hp]
    · simp [erase, hk, List.filter_cons, ih]

theorem mem_of_get? {k : κ} {v : α} {entries : List (κ × α)} (h : get? k entries = some v) :
    (k, v) ∈ entries := by
  induction entries with
  | nil => cases h
  | cons e rest ih =>
    obtain ⟨k₁, v₁⟩ := e
    unfold get? at h
    split at h
    · rename_i hk
      cases h
      rw [hk]
      exact List.mem_cons_self
    · exact List.mem_cons_of_mem _ (ih h)

theorem mem_keys_iff {k : κ} {entries : List (κ × α)} :
    k ∈ keys entries ↔ (get? k entries).isSome := by
  induction entries with
  | nil => simp [keys, get?]
  | cons e rest ih =>
    obtain ⟨k₁, v₁⟩ := e
    simp only [keys] at ih
    by_cases hk : k₁ = k
    · simp [keys, get?, hk]
    · simp [keys, get?, hk, Ne.symm hk, ih]

theorem get?_of_mem {entries : List (κ × α)} (h : (keys entries).Nodup) {k : κ} {v : α}
    (hmem : (k, v) ∈ entries) : get? k entries = some v := by
  induction entries with
  | nil => cases hmem
  | cons e rest ih =>
    obtain ⟨k₁, v₁⟩ := e
    obtain ⟨hk₁, hrest⟩ := List.nodup_cons.mp h
    rcases List.mem_cons.mp hmem with heq | hmem
    · cases heq
      simp [get?]
    · have hne : k₁ ≠ k := by
        rintro rfl
        exact hk₁ (List.mem_map.mpr ⟨_, hmem, rfl⟩)
      rw [get?, if_neg hne, ih hrest hmem]

theorem get?_erase_of_ne {k k' : κ} (h : k ≠ k') (entries : List (κ × α)) :
    get? k' (erase k entries) = get? k' entries := by
  induction entries with
  | nil => rfl
  | cons e rest ih =>
    obtain ⟨k₁, v₁⟩ := e
    by_cases hk : k₁ = k
    · subst hk
      simp [erase, get?, h]
    · simp [erase, get?, hk, ih]

theorem get?_erase {entries : List (κ × α)} (h : (keys entries).Nodup) (k k' : κ) :
    get? k' (erase k entries) = if k = k' then none else get? k' entries := by
  by_cases hk : k = k'
  · subst hk
    have hnone : k ∉ keys (erase k entries) := by
      rw [keys_erase]
      exact h.not_mem_erase
    simpa [mem_keys_iff] using hnone
  · rw [if_neg hk, get?_erase_of_ne hk]

/-- New keys, none of them twice, go to the end in their order. -/
theorem putAll_of_nodup {entries changes : List (κ × α)} (h : (keys (entries ++ changes)).Nodup) :
    putAll entries changes = entries ++ changes := by
  induction changes generalizing entries with
  | nil => rw [List.append_nil]; rfl
  | cons e rest ih =>
    obtain ⟨k, v⟩ := e
    have hk : k ∉ keys entries := by
      intro hk
      unfold keys at h
      rw [List.map_append] at h
      exact (List.nodup_append.mp h).2.2 k hk k (by simp) rfl
    rw [putAll_cons, put_of_not_mem v hk]
    refine (ih ?_).trans (List.append_assoc ..)
    rw [List.append_assoc]
    exact h

/-! ## Many changes -/

theorem mem_keys_put {k : κ} {entries : List (κ × α)} (h : k ∈ keys entries) (k' : κ) (v : α) :
    k ∈ keys (put k' v entries) := by
  rw [keys_put]
  split
  · exact h
  · exact List.mem_append_left _ h

theorem nodup_keys_put {entries : List (κ × α)} (h : (keys entries).Nodup) (k : κ) (v : α) :
    (keys (put k v entries)).Nodup := by
  rw [keys_put]
  split
  · exact h
  · rename_i hk
    refine List.nodup_append.mpr ⟨h, by simp, ?_⟩
    rintro k' hk' _ hmem rfl
    rw [List.mem_singleton.mp hmem] at hk'
    exact hk hk'

theorem put_put (k : κ) (v v' : α) (entries : List (κ × α)) :
    put k v' (put k v entries) = put k v' entries := by
  induction entries with
  | nil => simp [put]
  | cons e rest ih =>
    obtain ⟨k₁, v₁⟩ := e
    by_cases hk : k₁ = k <;> simp [put, hk, ih]

theorem put_of_get? {k : κ} {v : α} {entries : List (κ × α)} (h : get? k entries = some v) :
    put k v entries = entries := by
  induction entries with
  | nil => cases h
  | cons e rest ih =>
    obtain ⟨k₁, v₁⟩ := e
    unfold get? at h
    split at h
    · rename_i hk
      cases h
      rw [put, if_pos hk]
    · rename_i hk
      rw [put, if_neg hk, ih h]

/-- Two keys may be given their values in either order if the first one keeps its place. -/
theorem put_comm {k k' : κ} {entries : List (κ × α)} (h : k ∈ keys entries) (hne : k ≠ k')
    (v v' : α) : put k v (put k' v' entries) = put k' v' (put k v entries) := by
  induction entries with
  | nil => cases h
  | cons e rest ih =>
    obtain ⟨k₁, v₁⟩ := e
    by_cases hk : k₁ = k
    · subst hk
      simp [put, hne]
    · have hrest : k ∈ keys rest := (List.mem_cons.mp h).resolve_left (Ne.symm hk)
      by_cases hk' : k₁ = k'
      · simp [put, hk', Ne.symm hne]
      · simp [put, hk, hk', ih hrest]

/-- A key that is present may be given its value before the changes to other keys. -/
theorem put_putAll {k : κ} {entries changes : List (κ × α)} (h : k ∈ keys entries)
    (hchanges : k ∉ keys changes) (v : α) :
    put k v (putAll entries changes) = putAll (put k v entries) changes := by
  induction changes generalizing entries with
  | nil => rfl
  | cons e rest ih =>
    obtain ⟨k₁, v₁⟩ := e
    obtain ⟨hne, hrest⟩ := not_or.mp (mt List.mem_cons.mpr hchanges)
    rw [putAll_cons, putAll_cons, ih (mem_keys_put h k₁ v₁) hrest, put_comm h hne]

/-- One more change may be made to the changes, or after them. -/
theorem putAll_put {changes : List (κ × α)} (h : (keys changes).Nodup) (entries : List (κ × α))
    (k : κ) (v : α) : putAll entries (put k v changes) = put k v (putAll entries changes) := by
  induction changes generalizing entries with
  | nil => rfl
  | cons e rest ih =>
    obtain ⟨k₁, v₁⟩ := e
    obtain ⟨hk₁, hrest⟩ := List.nodup_cons.mp h
    by_cases hk : k₁ = k
    · subst hk
      -- The key has its place from the first change to it, and none of the rest is about it.
      have hmem : k₁ ∈ keys (put k₁ v₁ entries) := by simp [mem_keys_iff, get?_put]
      rw [put, if_pos rfl, putAll_cons, putAll_cons, put_putAll hmem hk₁, put_put]
    · rw [put, if_neg hk]
      exact ih hrest (put k₁ v₁ entries)

/-- Further changes may be made to the changes, or after them. -/
theorem putAll_putAll {changes : List (κ × α)} (h : (keys changes).Nodup)
    (entries further : List (κ × α)) :
    putAll entries (putAll changes further) = putAll (putAll entries changes) further := by
  induction further generalizing changes with
  | nil => rfl
  | cons e rest ih =>
    obtain ⟨k, v⟩ := e
    rw [putAll_cons, putAll_cons, ih (nodup_keys_put h k v), putAll_put h]

theorem putAll_of_get? {entries changes : List (κ × α)}
    (h : ∀ e ∈ changes, get? e.1 entries = some e.2) : putAll entries changes = entries := by
  induction changes with
  | nil => rfl
  | cons e rest ih =>
    obtain ⟨k, v⟩ := e
    obtain ⟨hk, hrest⟩ := List.forall_mem_cons.mp h
    rw [putAll_cons, put_of_get? hk, ih hrest]

/-- After changes a key has its value in them, and if it has none there, the one it had. -/
theorem get?_putAll {changes : List (κ × α)} (h : (keys changes).Nodup) (entries : List (κ × α))
    (k : κ) : get? k (putAll entries changes) = (get? k changes).or (get? k entries) := by
  induction changes generalizing entries with
  | nil => rfl
  | cons e rest ih =>
    obtain ⟨k₁, v₁⟩ := e
    obtain ⟨hk₁, hrest⟩ := List.nodup_cons.mp h
    rw [putAll_cons, ih hrest, get?_put, get?]
    by_cases hk : k₁ = k
    · subst hk
      have hnone : get? k₁ rest = none := by
        rw [← Option.not_isSome_iff_eq_none, ← mem_keys_iff]
        exact hk₁
      simp [hnone]
    · simp [hk]

/-- After changes the keys that were present come first, and then the new ones, in their order. -/
theorem keys_putAll {changes : List (κ × α)} (h : (keys changes).Nodup) (entries : List (κ × α)) :
    keys (putAll entries changes) =
      keys entries ++ (keys changes).filter fun k => k ∉ keys entries := by
  induction changes generalizing entries with
  | nil => exact (List.append_nil _).symm
  | cons e rest ih =>
    obtain ⟨k, v⟩ := e
    obtain ⟨hk, hrest⟩ := List.nodup_cons.mp h
    have hkeys : keys ((k, v) :: rest) = k :: keys rest := rfl
    rw [putAll_cons, ih hrest, keys_put, hkeys]
    by_cases hmem : k ∈ keys entries
    · simp [hmem]
    · have hfilter : (keys rest).filter (fun k' => k' ∉ keys entries ++ [k]) =
          (keys rest).filter fun k' => k' ∉ keys entries := by
        refine List.filter_congr fun k' hk' => ?_
        have hne : k' ≠ k := fun heq => hk (heq ▸ hk')
        simp [hne]
      rw [if_neg hmem, hfilter, List.filter_cons, if_pos (by simpa using hmem), List.append_assoc]
      rfl

end RecordQuery.Keyed
