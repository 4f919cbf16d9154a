import RecordQuery.Proofs.Options.WellFormed
import RecordQuery.Proofs.Page.Places

/-!
# Pages one after another

* `Options.unpaged`, `Options.window`: the options that ask for all records, and for a number of
  records after a number of others.
* `Options.AgreeButCounts`: options that differ in counts at most. They arrange the same records.
* `Options.cut_unpaged`, `Options.cut_window`: what a page without counts has, and what a window on
  it has.
* `Options.pages_tile`: windows of one size, one after another, have all records once and in order.
-/

namespace RecordQuery.Options

variable {α : Type} {o o' : Options}

/-- The options without counts: they pass no record over and cut none off. -/
def unpaged (o : Options) : Options := (o.clear (.count .skip)).clear (.count .top)

/-- The options that ask for at most `size` records after the first `start` ones. -/
def window (o : Options) (size start : Nat) : Options :=
  (o.setCount .top size).setCount .skip start

/-! ## Options that differ in counts -/

/-- The options are the same but for counts. -/
def AgreeButCounts (o o' : Options) : Prop :=
  ∀ k, (∀ c, k ≠ .directive (.count c)) → o.get? k = o'.get? k

theorem agreeButCounts_window (o : Options) (size start : Nat) :
    AgreeButCounts (o.window size start) o := by
  intro k hk
  have hput : ∀ (o : Options) c (n : Nat), (o.setCount c n).get? k = o.get? k := fun o c n => by
    rw [setCount_natCast, get?, put, Keyed.get?_put, if_neg (hk c).symm, get?]
  rw [window, hput, hput]

theorem agreeButCounts_unpaged (o : Options) : AgreeButCounts o.unpaged o := by
  intro k hk
  have hclear : ∀ (o : Options) c, (o.clear (.count c)).get? k = o.get? k := fun o c =>
    Keyed.get?_erase_of_ne (hk c).symm o.entries
  rw [unpaged, hclear, hclear]

namespace AgreeButCounts

variable (h : AgreeButCounts o o') (record : α → Json) (items : List α) (strict : Bool)
include h

theorem filter?_eq : o.filter? = o'.filter? := by
  rw [filter?, filter?, h (.directive .filter) (by simp)]

theorem text?_eq (d : Directive) (hd : ∀ c, d ≠ .count c) : o.text? d = o'.text? d := by
  rw [text?, text?, h (.directive d) (by simpa using hd)]

theorem arranged?_eq (sorting : Sorting α) :
    o.arranged? sorting record items strict = o'.arranged? sorting record items strict := by
  have hpasses : o.passes record strict = o'.passes record strict := by
    funext item
    rw [passes, passes, h.filter?_eq]
  have horder : o.sortOrder = o'.sortOrder := by
    rw [sortOrder, sortOrder, orderBy?, orderBy?, h.text?_eq _ (by simp)]
  rw [arranged?, arranged?, hpasses, horder]

theorem page?_eq (sorting : Sorting α) :
    o.page? sorting record items strict =
      (o'.arranged? sorting record items strict).map o.cut :=
  congrArg (Option.map _) (h.arranged?_eq record items strict sorting)

end AgreeButCounts

/-! ## What pages have -/

theorem count?_unpaged (h : o.IsWellFormed) (c : CountKey) : o.unpaged.count? c = none := by
  have hskip := h.remove (.directive (.count .skip))
  have hget : o.unpaged.get? (.directive (.count c)) = none := by
    rw [unpaged, clear, clear, get?, remove, Keyed.get?_erase hskip.nodup]
    cases c with
    | top => rfl
    | skip => exact (Keyed.get?_erase h.nodup _ _).trans (if_pos rfl)
  rw [count?, hget]

/-- Without counts a page has all records. -/
theorem cut_unpaged (h : o.IsWellFormed) (arranged : List α) :
    o.unpaged.cut arranged = ⟨arranged, o.inlineCount?.map fun _ => arranged.length⟩ := by
  have hinline : o.unpaged.inlineCount? = o.inlineCount? :=
    o.agreeButCounts_unpaged.text?_eq _ (by simp)
  simp only [cut, top?, skip?, count?_unpaged h, hinline, Option.getD_none, List.drop_zero]

/-- A window has the records that stand in it, and counts all. -/
theorem cut_window (o : Options) (size start : Nat) (arranged : List α) :
    (o.window size start).cut arranged =
      ⟨(arranged.drop start).take size, o.inlineCount?.map fun _ => arranged.length⟩ := by
  have hskip : (o.window size start).count? .skip = some start := by
    rw [window, setCount_natCast, count?_put]
  have htop : (o.window size start).count? .top = some size := by
    rw [window, setCount_natCast, setCount_natCast, ← count?_put o .top size]
    exact count?_congr (Keyed.get?_put ..)
  have hinline : (o.window size start).inlineCount? = o.inlineCount? :=
    (o.agreeButCounts_window size start).text?_eq _ (by simp)
  simp only [cut, top?, skip?, hskip, htop, hinline, Option.getD_some]

/-- As many records as go into the windows before a place are those of these windows. -/
theorem take_eq_flatMap_window (l : List α) (size n : Nat) :
    l.take (n * size) = (List.range n).flatMap fun j => (l.drop (j * size)).take size := by
  induction n with
  | zero => simp
  | succ n ih =>
    rw [Nat.succ_mul, List.take_add, ih, List.range_succ, List.flatMap_append,
      List.flatMap_singleton]

theorem flatMap_cut_window (o : Options) (size n : Nat) (arranged : List α) :
    ((List.range n).flatMap fun j => ((o.window size (j * size)).cut arranged).records) =
      arranged.take (n * size) := by
  simp only [cut_window, take_eq_flatMap_window]

/-- Pages of one size, one after another, have the first records of the page without counts, and so
have all of them if there are enough pages: every matching record once, in the same order. Each
page reports the total of the page without counts. This is so whatever routine sorts the records;
if it breaks off on the page without counts, it does on every page. -/
theorem pages_tile (h : o.Reachable) (sorting : Sorting α) (record : α → Json) (items : List α)
    (strict : Bool) {size : Nat} (hsize : 1 ≤ size) :
    let all? := o.unpaged.page? sorting record items strict
    let page? (j : Nat) := (o.window size (j * size)).page? sorting record items strict
    (all? = none → ∀ j, page? j = none) ∧
      ∀ all, all? = some all → ∃ page : Nat → Page α, (∀ j, page? j = some (page j)) ∧
        (∀ n, ((List.range n).flatMap fun j => (page j).records) =
          all.records.take (min (n * size) all.records.length)) ∧
        (∀ n, all.records.length ≤ n →
          ((List.range n).flatMap fun j => (page j).records) = all.records) ∧
        all.records.Perm (o.matching record items strict) ∧
        ∀ j, (page j).total = all.total := by
  intro all? page?
  have hall : all? = (o.arranged? sorting record items strict).map o.unpaged.cut :=
    o.agreeButCounts_unpaged.page?_eq record items strict sorting
  have hpage (j : Nat) :
      page? j = (o.arranged? sorting record items strict).map (o.window size (j * size)).cut :=
    (o.agreeButCounts_window size _).page?_eq record items strict sorting
  cases harranged : o.arranged? sorting record items strict with
  | none =>
    rw [harranged] at hall hpage
    exact ⟨fun _ => hpage, fun all hsome => absurd (hall.symm.trans hsome) (by simp)⟩
  | some arranged =>
    rw [harranged] at hall hpage
    refine ⟨fun hnone => absurd (hall.symm.trans hnone) (by simp), fun all hsome => ?_⟩
    obtain rfl : o.unpaged.cut arranged = all := Option.some.inj (hall.symm.trans hsome)
    refine ⟨fun j => (o.window size (j * size)).cut arranged, hpage, fun n => ?_, fun n hn => ?_, ?_,
      fun j => ?_⟩
    · rw [flatMap_cut_window, cut_unpaged h.isWellFormed, List.take_eq_take_min]
    · rw [cut_unpaged h.isWellFormed] at hn ⊢
      have hlength : arranged.length ≤ n * size :=
        Nat.le_trans hn (Nat.le_mul_of_pos_right n hsize)
      rw [flatMap_cut_window, List.take_of_length_le hlength]
    · rw [cut_unpaged h.isWellFormed]
      exact perm_of_arranged? harranged
    · simp only [cut_unpaged h.isWellFormed, cut_window]

/-- Five of six records match, and the last of three pages of two is short. The counts that are set
already do not matter. -/
theorem pages_tile_short :
    let f : Filter := .condition "n" (.comparison .lt) (.number (.ofInt 9))
    let o := ((((empty.setCount .skip 3).setText .orderBy "n desc").setFilter f).setCount .top
      0).setInlineCount true
    let item (n : Int) := Json.object [("n", .number (.integer n))]
    let items := [item 5, item 9, item 1, item 7, item 3, item 8]
    let all := o.unpaged.page id items true
    let page (j : Nat) := (o.window 2 (j * 2)).page id items true
    o.Reachable ∧ all.records.length = 5 ∧
      ((List.range 2).flatMap fun j => (page j).records) = all.records.take 4 ∧
      ((List.range 3).flatMap fun j => (page j).records) = all.records ∧
      (page 2).total = some 5 := by
  intro f o item items all page
  have hreachable : o.Reachable := by
    have hskip : Int64.toInt 3 = 3 := by decide
    have htop : Int64.toInt 0 = 0 := by decide
    refine Reachable.setInlineCount ?_ _
    rw [← hskip, ← htop]
    exact (((Reachable.empty.setCount _ _).setText _ _).setFilter f).setCount _ _
  have hsize : 1 ≤ 2 := by decide
  obtain ⟨-, htile⟩ := pages_tile hreachable .merge id items true hsize
  obtain ⟨page', hpages, htiles, -, hperm, htotal⟩ := htile all (o.unpaged.page?_merge ..)
  obtain rfl : page = page' := by
    funext j
    exact Option.some.inj (((o.window 2 (j * 2)).page?_merge id items true).symm.trans (hpages j))
  have hmatching : (o.matching id items true).length = 5 := by decide +kernel
  have hlength : all.records.length = 5 := hperm.length_eq.trans hmatching
  have hall : all.total = some 5 :=
    (total_page? (o.unpaged.page?_merge id items true)).trans (by decide +kernel)
  refine ⟨hreachable, hlength, ?_, ?_, (htotal 2).trans hall⟩
  · rw [htiles 2, hlength]
    rfl
  · rw [htiles 3, hlength]
    exact List.take_of_length_le (Nat.le_of_eq hlength)

end RecordQuery.Options
