import RecordQuery.Proofs.Options.Operation

/-!
# Options as what their history says

* `Options.Event`: what happens to one key. `Operation.events` are those of a call: none if the call
  is refused, several if it extends.
* `Options.lastSetting?`: what the last event about a key stored. `Options.LastArrives`: the place
  in the history at which a key last went from unset to set.
* `Options.Follows`: options that are set as the history says, their keys in the order in which they
  last arrived. `Follows.concat`: one more event keeps this.
* `Options.afterAll_follows_history`: calls on no options leave options behind that follow the
  history of the calls; refused calls change nothing, and a call leaves all other keys as they are.
-/

namespace RecordQuery.Options

/-! ## Events -/

/-- What happens to a key: it is set to something, or it is taken out. -/
inductive Event where
  | stored (k : Key) (s : Setting)
  | removed (k : Key)

namespace Event

/-- The key to which something happens. -/
def key : Event → Key
  | .stored k _ | .removed k => k

/-- What the key is set to afterwards. -/
def setting? : Event → Option Setting
  | .stored _ s => some s
  | .removed _ => none

/-- The options after an event. -/
def apply : Event → Options → Options
  | .stored k s, o => o.put k s
  | .removed k, o => o.remove k

end Event

namespace Operation

/-- What a call does to keys, one after another; nothing if it is refused. -/
def events : Operation → List Event
  | .trySetCount k n | .setCount k n =>
    if n.toInt < 0 then [] else [.stored (.directive (.count k)) (.count n.toInt.toNat)]
  | .setText k s => [.stored (.directive (.text k)) (.text s)]
  | .setTexts k items => [.stored (.directive (.text k)) (.text (joinTexts items))]
  | .setInlineCount true => [.stored (.directive .inlineCount) (.text allPages)]
  | .setInlineCount false => [.removed (.directive .inlineCount)]
  | .setFilter f => [.stored (.directive .filter) (.filter f)]
  | .trySetFilterText text | .setFilterText text =>
    match Filter.read text with
    | .ok f => [.stored (.directive .filter) (.filter f)]
    | .error _ => []
  | .trySetCustom name v | .setCustom name v =>
    if isReserved name then [] else [.stored (.custom name) (.custom v)]
  | .clear d => [.removed (.directive d)]
  | .remove k => [.removed k]
  | .extend other => other.entries.map fun (k, s) => .stored k s

/-- The keys to which a call does something. -/
def keys (op : Operation) : List Key := op.events.map Event.key

/-- Why a call is refused: a count below zero, a text that writes no filter, or a reserved name. -/
def refusal? : Operation → Option Error
  | .trySetCount k n | .setCount k n =>
    if n.toInt < 0 then some (.negativeCount (Directive.count k).name n.toInt) else none
  | .trySetFilterText text | .setFilterText text =>
    match Filter.read text with
    | .ok _ => none
    | .error e => some (.invalidFilter e)
  | .trySetCustom name _ | .setCustom name _ =>
    if isReserved name then some (.reservedName name) else none
  | _ => none

/-- The call reports that it is refused. -/
def reports : Operation → Bool
  | .trySetCount .. | .trySetFilterText _ | .trySetCustom .. => true
  | _ => false

theorem extend_eq_foldl (o other : Options) :
    o.extend other = other.entries.foldl (fun o (e : Key × Setting) => o.put e.1 e.2) o := by
  obtain ⟨changes⟩ := other
  induction changes generalizing o with
  | nil => rfl
  | cons e rest ih => exact ih (o.put e.1 e.2)

/-- What a call does and gives back: a refused one nothing, with the error if it reports it, and any
other one what its events do. -/
theorem run_eq (op : Operation) (o : Options) :
    op.run o = match op.refusal? with
      | some e => if op.reports then .error e else .ok o
      | none => .ok (op.events.foldl (fun o e => e.apply o) o) := by
  cases op with
  | trySetCount k n | setCount k n =>
    by_cases hn : n.toInt < 0 <;>
      simp only [run, refusal?, reports, events, Options.setCount, Options.trySetCount, hn, if_true,
        if_false, orUnchanged] <;>
      rfl
  | trySetFilterText text | setFilterText text =>
    cases hread : Filter.read text <;>
      simp only [run, refusal?, reports, events, Options.setFilterText, Options.trySetFilterText,
        hread, orUnchanged] <;>
      rfl
  | trySetCustom name v | setCustom name v =>
    by_cases hname : isReserved name <;>
      simp only [run, refusal?, reports, events, Options.setCustom, Options.trySetCustom, hname,
        if_true, orUnchanged] <;>
      rfl
  | setInlineCount wanted => cases wanted <;> rfl
  | extend other =>
    simp only [run, refusal?, events, List.foldl_map, Event.apply, extend_eq_foldl]
  | setText | setTexts | setFilter | clear | remove => rfl

theorem events_of_refusal {op : Operation} {e : Error} (h : op.refusal? = some e) :
    op.events = [] := by
  cases op with
  | trySetCount k n | setCount k n =>
    by_cases hn : n.toInt < 0 <;> simp_all [refusal?, events]
  | trySetFilterText text | setFilterText text =>
    cases hread : Filter.read text <;> simp_all [refusal?, events]
  | trySetCustom name v | setCustom name v =>
    by_cases hname : isReserved name <;> simp_all [refusal?, events]
  | setText | setTexts | setInlineCount | setFilter | clear | remove | extend => cases h

theorem after_eq (op : Operation) (o : Options) :
    op.after o = op.events.foldl (fun o e => e.apply o) o := by
  rw [after, run_eq]
  cases hrefusal : op.refusal? with
  | none => rfl
  | some e =>
    rw [events_of_refusal hrefusal]
    cases op.reports <;> rfl

theorem afterAll_eq (ops : List Operation) (o : Options) :
    afterAll ops o = (ops.flatMap events).foldl (fun o e => e.apply o) o := by
  simp only [afterAll, after_eq, List.foldl_flatMap]

end Operation

/-! ## What a history says -/

/-- What a key is set to after a history: what the last event about it stored. -/
def lastSetting? (history : List Event) (k : Key) : Option Setting :=
  (history.filter fun e => e.key = k).getLast?.bind Event.setting?

/-- At this place of the history the key goes from unset to set. -/
def Arrives (history : List Event) (k : Key) (place : Nat) : Prop :=
  (∃ s, history[place]? = some (.stored k s)) ∧ lastSetting? (history.take place) k = none

/-- At this place of the history the key goes from unset to set for the last time. -/
structure LastArrives (history : List Event) (k : Key) (place : Nat) : Prop where
  arrives : Arrives history k place
  last : ∀ p, Arrives history k p → p ≤ place

/-- The one key has been there longer than the other: it last arrived before the other did. -/
def ArrivesBefore (history : List Event) (k k' : Key) : Prop :=
  ∃ p p', LastArrives history k p ∧ LastArrives history k' p' ∧ p < p'

/-- The options are set as the history says: each key to what the last event about it stored, and
the keys in the order in which they last arrived. -/
structure Follows (o : Options) (history : List Event) : Prop where
  setting : ∀ k, o.get? k = lastSetting? history k
  arrived : ∀ k ∈ o.keys, ∃ p, LastArrives history k p
  order : o.keys.Pairwise (ArrivesBefore history)

section Concat

variable {history : List Event} {k : Key} {p : Nat} (e : Event)

theorem lastSetting?_concat :
    lastSetting? (history ++ [e]) k = if e.key = k then e.setting? else lastSetting? history k := by
  by_cases he : e.key = k <;> simp [lastSetting?, he]

theorem Arrives.lt (h : Arrives history k p) : p < history.length := by
  obtain ⟨⟨s, hs⟩, -⟩ := h
  exact (List.getElem?_eq_some_iff.mp hs).1

theorem Arrives.le_length (h : Arrives (history ++ [e]) k p) : p ≤ history.length := by
  simpa [Nat.lt_succ_iff] using h.lt

theorem arrives_concat_of_lt (h : p < history.length) :
    Arrives (history ++ [e]) k p ↔ Arrives history k p := by
  unfold Arrives
  rw [List.getElem?_append_left h, List.take_append_of_le_length (Nat.le_of_lt h)]

/-- The last event lets a key arrive if it sets the key and the key was not set. -/
theorem arrives_concat_length :
    Arrives (history ++ [e]) k history.length ↔
      (∃ s, e = .stored k s) ∧ lastSetting? history k = none := by
  simp [Arrives]

/-- A last arrival stays one if the next event does not let the key arrive again. -/
theorem LastArrives.concat (h : LastArrives history k p)
    (hno : ¬ Arrives (history ++ [e]) k history.length) : LastArrives (history ++ [e]) k p where
  arrives := (arrives_concat_of_lt e h.arrives.lt).mpr h.arrives
  last q hq := by
    have hne : q ≠ history.length := by
      rintro rfl
      exact hno hq
    have hlt : q < history.length := Nat.lt_of_le_of_ne (hq.le_length e) hne
    exact h.last q ((arrives_concat_of_lt e hlt).mp hq)

theorem Arrives.lastArrives (h : Arrives (history ++ [e]) k history.length) :
    LastArrives (history ++ [e]) k history.length where
  arrives := h
  last _ hq := hq.le_length e

end Concat

/-! ## Options follow their history -/

theorem follows_empty : empty.Follows [] where
  setting _ := rfl
  arrived _ hk := nomatch hk
  order := .nil

namespace Follows

variable {o : Options} {history : List Event}

/-- The keys that are set are those that the last event about them stored. -/
theorem mem_keys_iff (h : o.Follows history) (k : Key) :
    k ∈ o.keys ↔ (lastSetting? history k).isSome := by
  rw [← h.setting]
  exact Keyed.mem_keys_iff

/-- No key arrives before itself, so none stands twice. -/
theorem nodup (h : o.Follows history) : o.keys.Nodup := by
  refine h.order.imp fun {k k'} hbefore heq => ?_
  obtain ⟨p, p', hp, hp', hlt⟩ := hbefore
  subst heq
  exact absurd (hp.last p' hp'.arrives) (by omega)

/-- The order of some of the keys stays if the next event does not let any of them arrive. -/
theorem order_concat (h : o.Follows history) {e : Event} {keys : List Key}
    (hkeys : keys.Sublist o.keys)
    (hno : ∀ k ∈ keys, ¬ Arrives (history ++ [e]) k history.length) :
    keys.Pairwise (ArrivesBefore (history ++ [e])) := by
  refine (h.order.sublist hkeys).imp_of_mem fun {k k'} hk hk' hbefore => ?_
  obtain ⟨p, p', hp, hp', hlt⟩ := hbefore
  exact ⟨p, p', hp.concat e (hno k hk), hp'.concat e (hno k' hk'), hlt⟩

theorem arrived_concat (h : o.Follows history) {e : Event} {k : Key} (hk : k ∈ o.keys)
    (hno : ¬ Arrives (history ++ [e]) k history.length) : ∃ p, LastArrives (history ++ [e]) k p := by
  obtain ⟨p, hp⟩ := h.arrived k hk
  exact ⟨p, hp.concat e hno⟩

theorem not_arrives (h : o.Follows history) (e : Event) {k : Key} (hk : k ∈ o.keys) :
    ¬ Arrives (history ++ [e]) k history.length := by
  rw [arrives_concat_length]
  rintro ⟨-, hnone⟩
  have hsome := (h.mem_keys_iff k).mp hk
  rw [hnone] at hsome
  cases hsome

theorem arrives_stored (h : o.Follows history) {k : Key} (hk : k ∉ o.keys) (s : Setting) :
    Arrives (history ++ [.stored k s]) k history.length := by
  refine (arrives_concat_length _).mpr ⟨⟨s, rfl⟩, ?_⟩
  simpa [h.mem_keys_iff] using hk

theorem put (h : o.Follows history) (k : Key) (s : Setting) :
    (o.put k s).Follows (history ++ [.stored k s]) := by
  have hsetting : ∀ k', (o.put k s).get? k' = lastSetting? (history ++ [.stored k s]) k' := by
    intro k'
    rw [lastSetting?_concat, ← h.setting]
    exact Keyed.get?_put k k' s o.entries
  have hkeys : (o.put k s).keys = if k ∈ o.keys then o.keys else o.keys ++ [k] :=
    Keyed.keys_put k s o.entries
  have hstays : ∀ k' ∈ o.keys, ¬ Arrives (history ++ [.stored k s]) k' history.length :=
    fun k' hk' => h.not_arrives _ hk'
  by_cases hk : k ∈ o.keys
  · rw [if_pos hk] at hkeys
    refine ⟨hsetting, ?_, ?_⟩ <;> rw [hkeys]
    · exact fun k' hk' => h.arrived_concat hk' (hstays k' hk')
    · exact h.order_concat (List.Sublist.refl _) hstays
  · rw [if_neg hk] at hkeys
    have hlast := (h.arrives_stored hk s).lastArrives
    refine ⟨hsetting, fun k' hk' => ?_, ?_⟩
    · rw [hkeys] at hk'
      rcases List.mem_append.mp hk' with hk' | hk'
      · exact h.arrived_concat hk' (hstays k' hk')
      · rw [List.mem_singleton.mp hk']
        exact ⟨_, hlast⟩
    · rw [hkeys]
      refine List.pairwise_append.mpr
        ⟨h.order_concat (List.Sublist.refl _) hstays, List.pairwise_singleton _ _, ?_⟩
      intro k' hk' _ hmem
      rw [List.mem_singleton.mp hmem]
      obtain ⟨p, hp⟩ := h.arrived k' hk'
      exact ⟨p, history.length, hp.concat _ (hstays k' hk'), hlast, hp.arrives.lt⟩

theorem remove (h : o.Follows history) (k : Key) :
    (o.remove k).Follows (history ++ [.removed k]) := by
  have hsub : (o.remove k).keys.Sublist o.keys := (Keyed.erase_sublist k o.entries).map Prod.fst
  refine ⟨fun k' => ?_, fun k' hk' => ?_, ?_⟩
  · rw [lastSetting?_concat, ← h.setting]
    exact Keyed.get?_erase h.nodup k k'
  · exact h.arrived_concat (hsub.mem hk') (h.not_arrives _ (hsub.mem hk'))
  · exact h.order_concat hsub fun k' hk' => h.not_arrives _ (hsub.mem hk')

/-- One more event keeps options in step with their history. -/
theorem concat (h : o.Follows history) (e : Event) : (e.apply o).Follows (history ++ [e]) := by
  cases e with
  | stored k s => exact h.put k s
  | removed k => exact h.remove k

theorem foldl (h : o.Follows history) (events : List Event) :
    (events.foldl (fun o e => e.apply o) o).Follows (history ++ events) := by
  induction events generalizing o history with
  | nil => simpa using h
  | cons e rest ih => simpa using ih (h.concat e)

end Follows

/-- The entries of keys to which nothing happens stay as they are, and in their order. -/
theorem filter_apply {e : Event} {p : Key → Bool} (hp : p e.key = false) (o : Options) :
    (e.apply o).entries.filter (fun x => p x.1) = o.entries.filter fun x => p x.1 := by
  cases e with
  | stored k s => exact Keyed.filter_put hp s o.entries
  | removed k => exact Keyed.filter_erase hp o.entries

theorem filter_foldl {events : List Event} {p : Key → Bool} (hp : ∀ e ∈ events, p e.key = false)
    (o : Options) :
    (events.foldl (fun o e => e.apply o) o).entries.filter (fun x => p x.1) =
      o.entries.filter fun x => p x.1 := by
  induction events generalizing o with
  | nil => rfl
  | cons e rest ih =>
    rw [List.foldl_cons, ih (fun e he => hp e (List.mem_cons_of_mem _ he)),
      filter_apply (hp e List.mem_cons_self)]

/-- Calls on no options leave options behind that follow the history of the calls, and set are the
keys that the last event about them stored. A refused call leaves the options as they were, and says
why if it reports that. A call leaves the entries of the keys to which it does nothing as they are,
and in their order. -/
theorem afterAll_follows_history (ops : List Operation) :
    (Operation.afterAll ops empty).Follows (ops.flatMap Operation.events) ∧
      (∀ k, k ∈ (Operation.afterAll ops empty).keys ↔
        (lastSetting? (ops.flatMap Operation.events) k).isSome) ∧
      (∀ (op : Operation) (o : Options) (e : Error), op.refusal? = some e →
        op.after o = o ∧ op.run o = if op.reports then .error e else .ok o) ∧
      ∀ (op : Operation) (o : Options),
        (op.after o).entries.filter (fun x => x.1 ∉ op.keys) =
          o.entries.filter fun x => x.1 ∉ op.keys := by
  have hfollows : (Operation.afterAll ops empty).Follows (ops.flatMap Operation.events) := by
    rw [Operation.afterAll_eq]
    exact follows_empty.foldl _
  refine ⟨hfollows, hfollows.mem_keys_iff, fun op o e hrefusal => ⟨?_, ?_⟩, fun op o => ?_⟩
  · rw [Operation.after_eq, Operation.events_of_refusal hrefusal, List.foldl_nil]
  · rw [Operation.run_eq, hrefusal]
  · rw [Operation.after_eq]
    refine filter_foldl (p := fun k => k ∉ op.keys) (fun e he => ?_) o
    simpa [Operation.keys] using ⟨e, he, rfl⟩

/-- A directive that is cleared and set again, an extension, and a refused count. -/
theorem afterAll_follows_history_cleared :
    let ops : List Operation := [.setCount .top 5, .extend (empty.setText .select "n"),
      .clear (.count .top), .trySetCount .skip (-3), .setCount .top 1]
    let o := Operation.afterAll ops empty
    let refused : Operation := .trySetCount .skip (-3)
    refused.refusal? = some (.negativeCount "$skip" (-3)) ∧
      refused.after o = o ∧ refused.run o = .error (.negativeCount "$skip" (-3)) ∧
      o.keys = [.directive (.text .select), .directive (.count .top)] ∧
      o.Follows (ops.flatMap Operation.events) := by
  intro ops o refused
  obtain ⟨hfollows, -, hrefused, -⟩ := afterAll_follows_history ops
  have hrefusal : refused.refusal? = some (.negativeCount "$skip" (-3)) := by decide
  obtain ⟨hafter, hrun⟩ := hrefused refused o _ hrefusal
  exact ⟨hrefusal, hafter, hrun, by decide, hfollows⟩

/-- A key that is set again keeps its place, and one that is taken out and set again is last. -/
example :
    (Operation.afterAll [.setCount .top 5, .setCount .skip 2, .setCount .top 10] empty).keys =
        [.directive (.count .top), .directive (.count .skip)] ∧
      (Operation.afterAll [.setCount .top 5, .setCount .skip 2, .clear (.count .top),
          .setCount .top 1] empty).keys =
        [.directive (.count .skip), .directive (.count .top)] := by
  decide

end RecordQuery.Options
