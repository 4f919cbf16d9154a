import RecordQuery.Proofs.Options.WellFormed

/-!
# Calls that change options

* `Options.Operation`: the calls. `Operation.run` is what a call gives back, `Operation.after` the
  options that it leaves behind, and `Operation.afterAll` those that many calls leave behind.
* `Options.Reachable.afterAll`: calls on reachable options leave reachable options behind.
* `Options.GettersAgree`: each getter gives something exactly for the options that are set.
* `Options.typed_afterAll`: whatever calls were made, every key is set to what it may be, the
  getters agree, and the name of each key that is set stands for this key.
-/

namespace RecordQuery.Options

/-! ## Calls -/

/-- A call that changes options. Those of a name with `try` report that they refuse what they are
given, and the others pass over it. Counts are integers of 64 bits. -/
inductive Operation where
  | trySetCount (k : CountKey) (n : Int64)
  | setCount (k : CountKey) (n : Int64)
  | setText (k : TextKey) (s : String)
  | setTexts (k : TextKey) (items : List String)
  | setInlineCount (wanted : Bool)
  | setFilter (f : Filter)
  | trySetFilterText (text : String)
  | setFilterText (text : String)
  | trySetCustom (name : String) (v : Value)
  | setCustom (name : String) (v : Value)
  | clear (d : Directive)
  | remove (k : Key)
  | extend (other : Options)

namespace Operation

/-- What a call gives back: the changed options, or why it refuses what it is given. -/
def run : Operation → Options → Except Error Options
  | .trySetCount k n, o => o.trySetCount k n.toInt
  | .setCount k n, o => .ok (o.setCount k n.toInt)
  | .setText k s, o => .ok (o.setText k s)
  | .setTexts k items, o => .ok (o.setTexts k items)
  | .setInlineCount wanted, o => .ok (o.setInlineCount wanted)
  | .setFilter f, o => .ok (o.setFilter f)
  | .trySetFilterText text, o => o.trySetFilterText text
  | .setFilterText text, o => .ok (o.setFilterText text)
  | .trySetCustom name v, o => o.trySetCustom name v
  | .setCustom name v, o => .ok (o.setCustom name v)
  | .clear d, o => .ok (o.clear d)
  | .remove k, o => .ok (o.remove k)
  | .extend other, o => .ok (o.extend other)

/-- The options that a call leaves behind. -/
def after (op : Operation) (o : Options) : Options := o.orUnchanged (op.run o)

/-- The options that calls leave behind, made one after another. -/
def afterAll (ops : List Operation) (o : Options) : Options := ops.foldl (fun o op => op.after o) o

end Operation

/-- A call on reachable options leaves reachable options behind. -/
theorem Reachable.after {o : Options} (h : o.Reachable) {op : Operation}
    (hop : ∀ other, op = .extend other → other.Reachable) : (op.after o).Reachable := by
  cases op with
  | trySetCount k n | setCount k n => exact h.setCount k n
  | setText k s => exact h.setText k s
  | setTexts k items => exact h.setTexts k items
  | setInlineCount wanted => exact h.setInlineCount wanted
  | setFilter f => exact h.setFilter f
  | trySetFilterText text | setFilterText text => exact h.setFilterText text
  | trySetCustom name v | setCustom name v => exact h.setCustom name v
  | clear d => exact h.remove _
  | remove k => exact h.remove k
  | extend other => exact h.extend (hop other rfl)

theorem Reachable.afterAll {o : Options} (h : o.Reachable) {ops : List Operation}
    (hops : ∀ other, .extend other ∈ ops → other.Reachable) :
    (Operation.afterAll ops o).Reachable :=
  List.foldlRecOn ops _ (motive := Reachable) h fun _ ih _ hop =>
    ih.after fun other heq => hops other (heq ▸ hop)

/-! ## Getters -/

/-- Each getter gives something exactly for the options that are set. -/
structure GettersAgree (o : Options) : Prop where
  count : ∀ k, (o.count? k).isSome = o.contains (.directive (.count k))
  text : ∀ k, (o.text? (.text k)).isSome = o.contains (.directive (.text k))
  inlineCount : o.inlineCount?.isSome = o.contains (.directive .inlineCount)
  filter : o.filter?.isSome = o.contains (.directive .filter)
  custom : ∀ name, (o.custom? name).isSome = o.contains (.custom name)

namespace IsWellFormed

variable {o : Options}

theorem get?_cases (h : o.IsWellFormed) (k : Key) :
    o.get? k = none ∨ ∃ s, o.get? k = some s ∧ k.Admits s := by
  cases hget : o.get? k with
  | none => exact .inl rfl
  | some s => exact .inr ⟨s, rfl, h.admits _ (Keyed.mem_of_get? hget)⟩

theorem gettersAgree (h : o.IsWellFormed) : o.GettersAgree where
  count k := by
    obtain hnone | ⟨_, hsome, ⟨⟩⟩ := h.get?_cases (.directive (.count k))
    · simp [count?, contains, hnone]
    · simp [count?, contains, hsome]
  text k := by
    obtain hnone | ⟨_, hsome, ⟨⟩⟩ := h.get?_cases (.directive (.text k))
    · simp [text?, contains, hnone]
    · simp [text?, contains, hsome]
  inlineCount := by
    obtain hnone | ⟨_, hsome, ⟨⟩⟩ := h.get?_cases (.directive .inlineCount)
    · simp [inlineCount?, text?, contains, hnone]
    · simp [inlineCount?, text?, contains, hsome]
  filter := by
    obtain hnone | ⟨_, hsome, ⟨⟩⟩ := h.get?_cases (.directive .filter)
    · simp [filter?, contains, hnone]
    · simp [filter?, contains, hsome]
  custom name := by
    obtain hnone | ⟨_, hsome, ⟨⟩⟩ := h.get?_cases (.custom name)
    · simp [custom?, contains, hnone]
    · simp [custom?, contains, hsome]

theorem ofName?_of_mem (h : o.IsWellFormed) {k : Key} (hk : k ∈ o.keys) :
    Key.ofName? k.name = some k := by
  obtain ⟨⟨_, _⟩, he, rfl⟩ := List.mem_map.mp hk
  cases h.admits _ he with
  | count k => exact Key.ofName?_directive (.count k)
  | text k => exact Key.ofName?_directive (.text k)
  | inlineCount => exact Key.ofName?_directive .inlineCount
  | filter => exact Key.ofName?_directive .filter
  | custom hname => exact Key.ofName?_custom hname

end IsWellFormed

/-! ## After any calls -/

/-- Whatever calls are made on reachable options, no key occurs twice and each is set to what it may
be, the getters agree with what is set, and the name of each key that is set stands for it. -/
theorem typed_afterAll {o : Options} (h : o.Reachable) (ops : List Operation)
    (hops : ∀ other, .extend other ∈ ops → other.Reachable) :
    (Operation.afterAll ops o).IsWellFormed ∧ (Operation.afterAll ops o).GettersAgree ∧
      ∀ k ∈ (Operation.afterAll ops o).keys, Key.ofName? k.name = some k := by
  have hwell : (Operation.afterAll ops o).IsWellFormed := (h.afterAll hops).isWellFormed
  exact ⟨hwell, hwell.gettersAgree, fun k hk => hwell.ofName?_of_mem hk⟩

/-- Options of a query string after refused calls, a cleared directive and an extension. -/
theorem typed_afterAll_refused :
    let o := ofQueryString "?$top=5&a%3D=x&$bogus=1"
    let ops : List Operation := [.trySetCount .skip (-3), .setCustom "$x" (.bool true),
      .setFilterText "a eq", .setTexts .orderBy ["a", "b desc"], .clear (.count .top),
      .extend (empty.setText .select "n")]
    let left := Operation.afterAll ops o
    o.Reachable ∧ (∀ other, .extend other ∈ ops → other.Reachable) ∧
      left.keys = [.custom "a=", .directive (.text .orderBy), .directive (.text .select)] ∧
      left.IsWellFormed ∧ left.GettersAgree ∧ ∀ k ∈ left.keys, Key.ofName? k.name = some k := by
  intro o ops left
  have hreachable : o.Reachable := .ofQueryString _
  have hops : ∀ other, .extend other ∈ ops → other.Reachable := by
    intro other hother
    simp only [ops, List.mem_cons, List.not_mem_nil, reduceCtorEq, false_or, or_false,
      Operation.extend.injEq] at hother
    rw [hother]
    exact Reachable.empty.setText _ _
  refine ⟨hreachable, hops, ?_, typed_afterAll hreachable ops hops⟩
  decide +kernel

end RecordQuery.Options
