import Mathlib.Data.List.Induction
import Mathlib.Order.Basic
import RowStore.Proofs.Recency
import RowStore.Proofs.Maps
/-!
# The page given up, told from every use there has been

The table of uses keeps only the last ticks of a page. Here each call on it is also entered in a full record, which
keeps every use of a page since it was last tracked, and the page to give up is defined from that record: one used fewer
than `depth` times goes before any used that often, among the former the one used first, among the latter the one whose
`depth`-th use from the last is longest ago. What the table gives up is the page the record says, whatever the order of
its bindings: the ticks that are kept are enough, and no two pages share one.
-/

namespace RowStore

/-- Every use of each tracked page since it was last tracked, the oldest first. A page that is not tracked has none. -/
structure UseHistory where
  time : Nat
  uses : PageId → List Nat

namespace UseHistory

def start : UseHistory := ⟨0, fun _ => []⟩

def use (h : UseHistory) (page : PageId) : UseHistory where
  time := h.time + 1
  uses other := if other = page then h.uses page ++ [h.time] else h.uses other

def drop (h : UseHistory) (page : PageId) : UseHistory where
  time := h.time
  uses other := if other = page then [] else h.uses other

def Tracks (h : UseHistory) (page : PageId) : Prop := h.uses page ≠ []

/-- Whether a page used at the first ticks goes before one used at the second. -/
def Sooner (depth : Nat) (ticks others : List Nat) : Prop :=
  (ticks.length < depth ∧ depth ≤ others.length) ∨
  (ticks.length < depth ∧ others.length < depth ∧ ticks.headD 0 < others.headD 0) ∨
  (depth ≤ ticks.length ∧ depth ≤ others.length ∧
    ticks.reverse.getD (depth - 1) 0 < others.reverse.getD (depth - 1) 0)

/-- The page is to be given up: it may be, and goes before every other one that may be. -/
def Picks (h : UseHistory) (depth : Nat) (eligible : PageId → Bool) (page : PageId) : Prop :=
  h.Tracks page ∧ eligible page = true ∧
    ∀ other, h.Tracks other → eligible other = true → other ≠ page → Sooner depth (h.uses page) (h.uses other)

/-- Uses are entered as time goes on, one at a time. -/
structure Timed (h : UseHistory) : Prop where
  past : ∀ page, ∀ tick ∈ h.uses page, tick < h.time
  apart : ∀ page other tick, tick ∈ h.uses page → tick ∈ h.uses other → page = other

theorem timed_start : start.Timed where
  past _ _ used := absurd used List.not_mem_nil
  apart _ _ _ used := absurd used List.not_mem_nil

theorem mem_use {h : UseHistory} {page other : PageId} {tick : Nat} :
    tick ∈ (h.use page).uses other ↔ tick ∈ h.uses other ∨ other = page ∧ tick = h.time := by
  simp only [use]
  split
  · rename_i same
    simp [same]
  · rename_i differs
    simp [differs]

theorem mem_drop {h : UseHistory} {page other : PageId} {tick : Nat} :
    tick ∈ (h.drop page).uses other ↔ tick ∈ h.uses other ∧ other ≠ page := by
  simp only [drop]
  split
  · rename_i same
    simp [same]
  · rename_i differs
    simp [differs]

theorem Timed.timed_use {h : UseHistory} (timed : h.Timed) (page : PageId) : (h.use page).Timed where
  past other tick used := by
    obtain before | ⟨-, rfl⟩ := mem_use.mp used
    · exact Nat.lt_succ_of_lt (timed.past other tick before)
    · exact Nat.lt_succ_self h.time
  apart one other tick used usedToo := by
    obtain before | ⟨rfl, now⟩ := mem_use.mp used
    · obtain beforeToo | ⟨-, now⟩ := mem_use.mp usedToo
      · exact timed.apart one other tick before beforeToo
      · exact absurd now (Nat.ne_of_lt (timed.past one tick before))
    · obtain before | ⟨rfl, -⟩ := mem_use.mp usedToo
      · exact absurd now (Nat.ne_of_lt (timed.past other tick before))
      · rfl

theorem Timed.timed_drop {h : UseHistory} (timed : h.Timed) (page : PageId) : (h.drop page).Timed where
  past other tick used := timed.past other tick (mem_drop.mp used).1
  apart one other tick used usedToo := timed.apart one other tick (mem_drop.mp used).1 (mem_drop.mp usedToo).1

theorem Sooner.not_sooner_of_sooner {depth : Nat} {ticks others : List Nat} (sooner : Sooner depth ticks others) :
    ¬Sooner depth others ticks := by
  unfold Sooner at *
  omega

theorem Picks.eq_of_picks {h : UseHistory} {depth : Nat} {eligible : PageId → Bool} {page other : PageId}
    (picked : h.Picks depth eligible page) (pickedToo : h.Picks depth eligible other) : page = other := by
  by_contra differs
  have before := picked.2.2 other pickedToo.1 pickedToo.2.1 (Ne.symm differs)
  exact before.not_sooner_of_sooner (pickedToo.2.2 page picked.1 picked.2.1 differs)

end UseHistory

namespace Recency

/-! ### The ticks that are kept -/

theorem length_lastTicks (depth : Nat) (ticks : List Nat) :
    (lastTicks depth ticks).length = min ticks.length depth := by
  rw [lastTicks, List.length_drop]
  omega

theorem lastTicks_of_length_le {depth : Nat} {ticks : List Nat} (few : ticks.length ≤ depth) :
    lastTicks depth ticks = ticks := by
  rw [lastTicks, Nat.sub_eq_zero_of_le few, List.drop_zero]

theorem lastTicks_eq_nil_iff {depth : Nat} (positive : 0 < depth) (ticks : List Nat) :
    lastTicks depth ticks = [] ↔ ticks = [] := by
  rw [← List.length_eq_zero_iff, length_lastTicks, ← List.length_eq_zero_iff]
  omega

/-- A tick that has been given up plays no part when one more is entered. -/
theorem lastTicks_concat (depth : Nat) (ticks : List Nat) (tick : Nat) :
    lastTicks depth (lastTicks depth ticks ++ [tick]) = lastTicks depth (ticks ++ [tick]) := by
  obtain few | many := Nat.le_total ticks.length depth
  · rw [lastTicks_of_length_le few]
  · have kept : ticks.length - depth ≤ ticks.length := Nat.sub_le _ _
    have one : (ticks.drop (ticks.length - depth) ++ [tick]).length - depth = 1 := by
      rw [List.length_append, List.length_drop, List.length_singleton]
      omega
    have later : (ticks ++ [tick]).length - depth = ticks.length - depth + 1 := by
      rw [List.length_append, List.length_singleton]
      omega
    rw [lastTicks, lastTicks, one, lastTicks, later, ← List.drop_drop, List.drop_append_of_le_length kept]

/-- With as many ticks as are kept, the first of those is the `depth`-th from the last. -/
theorem headD_lastTicks {depth : Nat} (positive : 0 < depth) {ticks : List Nat} (many : depth ≤ ticks.length) :
    (lastTicks depth ticks).headD 0 = ticks.reverse.getD (depth - 1) 0 := by
  have inside : ticks.length - 1 - (depth - 1) = ticks.length - depth := by omega
  rw [List.headD_eq_head?_getD, lastTicks, List.head?_drop, List.getD_eq_getElem?_getD,
    List.getElem?_reverse (by omega), inside]

theorem goesBefore_iff (depth : Nat) (ticks others : List Nat) : goesBefore depth ticks others = true ↔
    (ticks.length < depth ∧ depth ≤ others.length) ∨
    ((ticks.length < depth ↔ others.length < depth) ∧ ticks.headD 0 < others.headD 0) := by
  rw [goesBefore, ← Nat.not_lt]
  by_cases few : ticks.length < depth <;> by_cases fewToo : others.length < depth <;> simp [few, fewToo]

/-- The kept ticks decide as all ticks do. -/
theorem goesBefore_lastTicks {depth : Nat} (positive : 0 < depth) (ticks others : List Nat) :
    goesBefore depth (lastTicks depth ticks) (lastTicks depth others) = true ↔ UseHistory.Sooner depth ticks others := by
  have few (ticks : List Nat) : (lastTicks depth ticks).length < depth ↔ ticks.length < depth := by
    rw [length_lastTicks]
    omega
  have many (ticks : List Nat) : depth ≤ (lastTicks depth ticks).length ↔ depth ≤ ticks.length := by
    rw [length_lastTicks]
    omega
  rw [goesBefore_iff, few, few, many, UseHistory.Sooner]
  obtain less | more := Nat.lt_or_ge ticks.length depth
  · obtain lessToo | moreToo := Nat.lt_or_ge others.length depth
    · rw [lastTicks_of_length_le (Nat.le_of_lt less), lastTicks_of_length_le (Nat.le_of_lt lessToo)]
      omega
    · omega
  · obtain lessToo | moreToo := Nat.lt_or_ge others.length depth
    · omega
    · rw [headD_lastTicks positive more, headD_lastTicks positive moreToo]
      omega

theorem goesBefore_trans {depth : Nat} {ticks others rest : List Nat} (before : goesBefore depth ticks others = true)
    (after : goesBefore depth others rest = true) : goesBefore depth ticks rest = true := by
  rw [goesBefore_iff] at *
  omega

theorem goesBefore_of_not {depth : Nat} {ticks others : List Nat} (apart : ticks.headD 0 ≠ others.headD 0)
    (not : ¬goesBefore depth ticks others = true) : goesBefore depth others ticks = true := by
  rw [goesBefore_iff] at *
  omega

/-- Of entries that begin with different ticks, the chosen one goes before all the others. -/
theorem first_least {depth : Nat} {entries : List (PageId × List Nat)} {chosen : PageId × List Nat}
    (apart : entries.Pairwise fun entry other => entry.2.headD 0 ≠ other.2.headD 0)
    (found : first depth entries = some chosen) :
    ∀ other ∈ entries, other = chosen ∨ goesBefore depth chosen.2 other.2 = true := by
  induction entries generalizing chosen with
  | nil => exact fun _ among => absurd among List.not_mem_nil
  | cons entry rest ih =>
    obtain ⟨differs, apart⟩ := List.pairwise_cons.mp apart
    rw [first] at found
    cases later : first depth rest with
    | none =>
      rw [later] at found
      cases found
      rw [(first_eq_none_iff depth rest).mp later]
      exact fun other among => .inl (List.mem_singleton.mp among)
    | some best =>
      have least := ih apart later
      simp only [later] at found
      split at found
      · rename_i before
        cases found
        rintro other (_ | ⟨_, among⟩)
        · exact .inr before
        · exact least other among
      · -- the entry goes before the best of the rest, and so before what that goes before
        rename_i not
        cases found
        have before := goesBefore_of_not (differs best (first_mem depth rest best later)).symm not
        rintro other (_ | ⟨_, among⟩)
        · exact .inl rfl
        · obtain rfl | after := least other among
          · exact .inr before
          · exact .inr (goesBefore_trans before after)

/-! ### The table and the full record -/

/-- The table keeps the last ticks of what the record has. -/
structure Keeps (depth : Nat) (r : Recency) (h : UseHistory) : Prop where
  depth_eq : r.depth = depth
  get?_iff : ∀ page ticks, r.uses.get? page = some ticks ↔ h.Tracks page ∧ ticks = lastTicks depth (h.uses page)

section
variable {depth : Nat} {r : Recency} {h : UseHistory}

theorem keeps_start (depth : Nat) : Keeps (max depth 1) (.new depth) .start where
  depth_eq := rfl
  get?_iff page ticks := by simp [Recency.new, UseHistory.start, UseHistory.Tracks]

theorem Keeps.isSome_iff (keeps : Keeps depth r h) (page : PageId) : (r.uses.get? page).isSome ↔ h.Tracks page := by
  rw [Option.isSome_iff_exists]
  simp [keeps.get?_iff]

theorem Keeps.getD_eq_lastTicks (keeps : Keeps depth r h) (page : PageId) :
    (r.uses.get? page).getD [] = lastTicks depth (h.uses page) := by
  by_cases tracked : h.Tracks page
  · rw [(keeps.get?_iff page _).mpr ⟨tracked, rfl⟩, Option.getD_some]
  · have absent : r.uses.get? page = none := by
      rw [← Option.not_isSome_iff_eq_none, keeps.isSome_iff]
      exact tracked
    rw [absent, not_not.mp tracked]
    exact (List.drop_nil).symm

theorem Keeps.keeps_touch (keeps : Keeps depth r h) (now : r.clock = h.time) (page : PageId) :
    Keeps depth (r.touch page) (h.use page) where
  depth_eq := keeps.depth_eq
  get?_iff other ticks := by
    by_cases same : other = page
    · have used : (h.use page).uses page = h.uses page ++ [h.time] := if_pos rfl
      have tracked : (h.use page).Tracks page := by simp [UseHistory.Tracks, used]
      rw [same, Recency.touch, FinMap.get?_insert_self, keeps.getD_eq_lastTicks, keeps.depth_eq, now,
        lastTicks_concat, used]
      simp [tracked, eq_comm]
    · have unused : (h.use page).uses other = h.uses other := if_neg same
      rw [Recency.touch, FinMap.get?_insert_of_ne _ _ _ _ same, keeps.get?_iff, UseHistory.Tracks, UseHistory.Tracks,
        unused]

theorem Keeps.keeps_forget (keeps : Keeps depth r h) (page : PageId) : Keeps depth (r.forget page) (h.drop page) where
  depth_eq := keeps.depth_eq
  get?_iff other ticks := by
    by_cases same : other = page
    · simp [same, Recency.forget, UseHistory.drop, UseHistory.Tracks]
    · have unused : (h.drop page).uses other = h.uses other := if_neg same
      rw [Recency.forget, FinMap.get?_erase_of_ne _ _ _ same, keeps.get?_iff, UseHistory.Tracks, UseHistory.Tracks,
        unused]

/-- An entry of the table is a tracked page with the last of its ticks. -/
theorem Keeps.mem_entries_iff (keeps : Keeps depth r h) (entry : PageId × List Nat) :
    entry ∈ r.uses.entries ↔ h.Tracks entry.1 ∧ entry.2 = lastTicks depth (h.uses entry.1) := by
  rw [← FinMap.get?_eq_some_iff r.uses entry.1 entry.2, keeps.get?_iff]

theorem Keeps.headD_mem (keeps : Keeps depth r h) (positive : 0 < depth) {entry : PageId × List Nat}
    (among : entry ∈ r.uses.entries) : entry.2.headD 0 ∈ h.uses entry.1 := by
  obtain ⟨tracked, ticks⟩ := (keeps.mem_entries_iff entry).mp among
  have some : lastTicks depth (h.uses entry.1) ≠ [] := fun none => tracked ((lastTicks_eq_nil_iff positive _).mp none)
  obtain ⟨tick, rest, eq⟩ := List.exists_cons_of_ne_nil some
  have head : tick ∈ lastTicks depth (h.uses entry.1) := eq ▸ List.mem_cons_self
  rw [ticks, eq]
  exact List.mem_of_mem_drop head

/-- The ticks by which two entries are compared are not the same. -/
theorem Keeps.heads_apart (keeps : Keeps depth r h) (positive : 0 < depth) (timed : h.Timed) :
    r.uses.entries.Pairwise fun entry other => entry.2.headD 0 ≠ other.2.headD 0 := by
  refine r.uses.distinct.imp_of_mem ?_
  intro entry other among amongToo differ same
  have used := keeps.headD_mem positive among
  have usedToo := keeps.headD_mem positive amongToo
  exact differ (timed.apart _ _ _ used (same ▸ usedToo))

/-- The page given up is the one that the record says. -/
theorem Keeps.victim?_eq_some_iff (keeps : Keeps depth r h) (positive : 0 < depth) (timed : h.Timed)
    (eligible : PageId → Bool) (page : PageId) :
    r.victim? eligible = some page ↔ h.Picks depth eligible page := by
  have picked : ∀ page, r.victim? eligible = some page → h.Picks depth eligible page := by
    intro page chosen
    obtain ⟨entry, found, rfl⟩ := Option.map_eq_some_iff.mp chosen
    rw [keeps.depth_eq] at found
    obtain ⟨among, may⟩ := List.mem_filter.mp (first_mem _ _ _ found)
    obtain ⟨tracked, ticks⟩ := (keeps.mem_entries_iff entry).mp among
    refine ⟨tracked, may, fun other trackedToo mayToo differs => ?_⟩
    have amongToo := (keeps.mem_entries_iff (other, lastTicks depth (h.uses other))).mpr ⟨trackedToo, rfl⟩
    obtain same | before := first_least ((keeps.heads_apart positive timed).filter _) found _
      (List.mem_filter.mpr ⟨amongToo, mayToo⟩)
    · exact absurd (congrArg Prod.fst same) differs
    · rw [ticks] at before
      exact (goesBefore_lastTicks positive _ _).mp before
  refine ⟨picked page, fun pick => ?_⟩
  cases chosen : r.victim? eligible with
  | none =>
    have none : r.evict eligible = none := by rw [evict, chosen, Option.map_none]
    have barred := (evict_eq_none_iff r eligible).mp none page ((keeps.isSome_iff page).mpr pick.1)
    exact absurd (barred.symm.trans pick.2.1) Bool.false_ne_true
  | some other => rw [(picked other chosen).eq_of_picks pick]

theorem Keeps.keeps_of_perm (keeps : Keeps depth r h) {r' : Recency} (same : r'.depth = r.depth)
    (perm : r'.uses.entries.Perm r.uses.entries) : Keeps depth r' h where
  depth_eq := same.trans keeps.depth_eq
  get?_iff page ticks := by
    rw [← keeps.get?_iff, FinMap.get?_eq_some_iff, FinMap.get?_eq_some_iff, perm.mem_iff]

end

end Recency

/-! ### Any calls -/

inductive UseCall where
  | touch (page : PageId)
  | forget (page : PageId)
  | evict (eligible : PageId → Bool)

/-- A table of uses beside the full record of them. -/
structure RecordedUses where
  table : Recency
  history : UseHistory

namespace RecordedUses

def start (depth : Nat) : RecordedUses := ⟨.new depth, .start⟩

/-- What a call does to both. The record only notes what the table gave up. -/
def call (u : RecordedUses) : UseCall → RecordedUses
  | .touch page => ⟨u.table.touch page, u.history.use page⟩
  | .forget page => ⟨u.table.forget page, u.history.drop page⟩
  | .evict eligible =>
    match u.table.evict eligible with
    | none => u
    | some (page, table) => ⟨table, u.history.drop page⟩

def after (depth : Nat) (calls : List UseCall) : RecordedUses := calls.foldl call (start depth)

structure Faithful (depth : Nat) (u : RecordedUses) : Prop where
  keeps : u.table.Keeps depth u.history
  now : u.table.clock = u.history.time
  timed : u.history.Timed

theorem faithful_start (depth : Nat) : (start depth).Faithful (max depth 1) :=
  ⟨Recency.keeps_start depth, rfl, UseHistory.timed_start⟩

theorem Faithful.faithful_call {depth : Nat} {u : RecordedUses} (faithful : u.Faithful depth) (c : UseCall) :
    (u.call c).Faithful depth := by
  cases c with
  | touch page =>
    exact ⟨faithful.keeps.keeps_touch faithful.now page, congrArg (· + 1) faithful.now, faithful.timed.timed_use page⟩
  | forget page => exact ⟨faithful.keeps.keeps_forget page, faithful.now, faithful.timed.timed_drop page⟩
  | evict eligible =>
    rw [RecordedUses.call]
    cases chosen : u.table.evict eligible with
    | none => exact faithful
    | some given =>
      obtain ⟨page, table⟩ := given
      rw [Recency.eq_forget_of_evict chosen]
      exact ⟨faithful.keeps.keeps_forget page, faithful.now, faithful.timed.timed_drop page⟩

theorem faithful_after (depth : Nat) (calls : List UseCall) : (after depth calls).Faithful (max depth 1) := by
  rw [after]
  induction calls using List.reverseRecOn with
  | nil => exact faithful_start depth
  | append_singleton calls c ih =>
    rw [List.foldl_append]
    exact ih.faithful_call c

/-- After any calls, the page that is given up is the one that all uses since each page was last tracked single out, in
whatever order the table holds its bindings. Nothing is given up exactly when no tracked page may be, and of the other
pages the table keeps what it had. -/
theorem evict_follows_all_uses (depth : Nat) (calls : List UseCall) (eligible : PageId → Bool) :
    let u := after depth calls
    let k := max depth 1
    (u.table.evict eligible = none ↔ ∀ page, u.history.Tracks page → eligible page = false) ∧
    ((∃ page, u.history.Tracks page ∧ eligible page = true) → ∃! page, u.history.Picks k eligible page) ∧
    (∀ page, (∃ table, u.table.evict eligible = some (page, table)) ↔ u.history.Picks k eligible page) ∧
    (∀ page table, u.table.evict eligible = some (page, table) →
      table.uses.get? page = none ∧ (∀ other, other ≠ page → table.uses.get? other = u.table.uses.get? other) ∧
        table.clock = u.table.clock ∧ table.depth = u.table.depth) ∧
    ∀ reordered : Recency, reordered.depth = u.table.depth → reordered.uses.entries.Perm u.table.uses.entries →
      reordered.victim? eligible = u.table.victim? eligible := by
  intro u k
  have positive : 0 < k := Nat.lt_of_lt_of_le Nat.zero_lt_one (Nat.le_max_right depth 1)
  have faithful : u.Faithful k := faithful_after depth calls
  have picks := faithful.keeps.victim?_eq_some_iff positive faithful.timed eligible
  have nothing : u.table.evict eligible = none ↔ ∀ page, u.history.Tracks page → eligible page = false := by
    rw [Recency.evict_eq_none_iff]
    exact forall_congr' fun page => by rw [faithful.keeps.isSome_iff]
  have given (page : PageId) :
      (∃ table, u.table.evict eligible = some (page, table)) ↔ u.history.Picks k eligible page := by
    rw [← picks page]
    simp [Recency.evict]
  refine ⟨nothing, ?_, given, ?_, ?_⟩
  · rintro ⟨page, tracked, may⟩
    cases chosen : u.table.evict eligible with
    | none => exact absurd ((nothing.mp chosen page tracked).symm.trans may) Bool.false_ne_true
    | some pair =>
      have pick := (given pair.1).mp ⟨pair.2, chosen⟩
      exact ⟨pair.1, pick, fun other pickToo => pickToo.eq_of_picks pick⟩
  · intro page table chosen
    rw [Recency.eq_forget_of_evict chosen]
    exact ⟨FinMap.get?_erase_self _ _, fun other differs => FinMap.get?_erase_of_ne _ _ _ differs, rfl, rfl⟩
  · intro reordered same perm
    have picksToo := (faithful.keeps.keeps_of_perm same perm).victim?_eq_some_iff positive faithful.timed eligible
    apply Option.ext
    intro page
    rw [picks, picksToo]

end RecordedUses

end RowStore
