import Haulage.Proofs.Copy.Watermark

/-!
# Rows in batches

A source can be loaded a batch at a time: each batch takes the first ones of the rows that are newer
than all rows loaded before. A row that ties with the last row of a batch is not newer than that, so
it is never loaded unless it is in the batch. Of rows in the order of their values all are loaded
exactly when the value changes wherever one batch ends and another one begins.

- `newRows_take`: what is left behind a place where the value changes.
- `length_loadedBy_add_leftBy_le`: a row that was passed over never comes back.
- `loadedBy_eq_take`, `leftBy_eq_drop`: without ties the batches follow each other in the source.
- `exists_leftBy_eq_nil`: at some time nothing is left.
- `length_loadedBy_eq_iff`: when everything has been loaded by then.
-/

set_option autoImplicit false

namespace Haulage

/-! ## What is newer than the rows loaded -/

theorem newRows_nil (column : Nat) (source : List String) : newRows column [] source = source := by
  simp [newRows]

/-- What is newer than more rows is found among what is newer than some of them. -/
theorem newRows_append_loaded (column : Nat) (first second source : List String) :
    newRows column (first ++ second) source =
      newRows column second (newRows column first source) := by
  rw [newRows, newRows, newRows, List.filter_filter]
  congr 1
  funext line
  rw [List.all_append, Bool.and_comm]

/-- Behind some rows of a source, only later ones are newer than these. -/
theorem newRows_append_self {column : Nat} {first second : List String}
    (h : Comparable (first.map (updateValue column))) :
    newRows column first (first ++ second) = newRows column first second := by
  have hfirst : newRows column first first = [] := by
    have hloaded : newRows column ([] ++ newRows column [] first) first = [] := newRows_of_loaded h
    rwa [newRows_nil, List.nil_append] at hloaded
  rw [newRows_append, hfirst, List.nil_append]

/-! ## Rows in order -/

section Order

variable {column : Nat} {rows : List String}

/-- Rows in the order of their update values, in which a value may come several times. -/
def InOrder (column : Nat) (rows : List String) : Prop :=
  rows.Pairwise fun earlier later =>
    compareValues (updateValue column earlier) (updateValue column later) ≠ .gt

instance (column : Nat) (rows : List String) : Decidable (InOrder column rows) :=
  inferInstanceAs (Decidable (List.Pairwise _ rows))

/-- The value changes behind so many rows, if there are more rows than that. -/
def ChangesAt (column : Nat) (rows : List String) (place : Nat) : Prop :=
  ∀ front last next back, rows = front ++ last :: next :: back → front.length + 1 = place →
    compareValues (updateValue column next) (updateValue column last) = .gt

/-- Where the value changes, the rows in front and the rows behind are told apart by their
values. -/
theorem gt_of_changes {front back : List String} {last next : String}
    (h : Comparable ((front ++ last :: next :: back).map (updateValue column)))
    (horder : InOrder column (front ++ last :: next :: back))
    (hchange : compareValues (updateValue column next) (updateValue column last) = .gt) :
    ∀ later ∈ next :: back, ∀ earlier ∈ front ++ [last],
      compareValues (updateValue column later) (updateValue column earlier) = .gt := by
  intro later hlater earlier hearlier
  obtain ⟨α, _, rank, hrank⟩ := h.exists_rank
  have hvalue : ∀ row ∈ front ++ last :: next :: back, updateValue column row ∈
      (front ++ last :: next :: back).map (updateValue column) :=
    fun row hrow => List.mem_map_of_mem hrow
  have hlast := hvalue last (by simp)
  have hnext := hvalue next (by simp)
  have hlater' := hvalue later
    (List.mem_append_right _ (List.mem_cons_of_mem _ hlater))
  have hearlier' := hvalue earlier (by
    rw [← List.singleton_append, ← List.append_assoc]
    exact List.mem_append_left _ hearlier)
  rw [InOrder, List.pairwise_append, List.pairwise_cons, List.pairwise_cons] at horder
  obtain ⟨-, ⟨-, hbehind, -⟩, hfront⟩ := horder
  rw [hrank _ hnext _ hlast] at hchange
  -- the rows in front do not come after the last of them, nor those behind before the first of them
  have hbelow : rank (updateValue column earlier) ≤ rank (updateValue column last) := by
    rcases List.mem_append.mp hearlier with hmem | hmem
    · have hle := hfront earlier hmem last List.mem_cons_self
      rwa [ne_eq, hrank _ hearlier' _ hlast, not_lt] at hle
    · rw [List.mem_singleton.mp hmem]
  have habove : rank (updateValue column next) ≤ rank (updateValue column later) := by
    rcases List.mem_cons.mp hlater with rfl | hmem
    · exact le_rfl
    · have hle := hbehind later hmem
      rwa [ne_eq, hrank _ hnext _ hlater', not_lt] at hle
  rw [hrank _ hlater' _ hearlier']
  exact lt_of_le_of_lt hbelow (lt_of_lt_of_le hchange habove)

/-- Behind a place where the value changes all rows are newer than those in front of it. -/
theorem newRows_take (h : Comparable (rows.map (updateValue column))) (horder : InOrder column rows)
    {place : Nat} (hchange : ChangesAt column rows place) :
    newRows column (rows.take place) rows = rows.drop place := by
  have hfirst : Comparable ((rows.take place).map (updateValue column)) :=
    h.mono (List.map_subset _ (List.take_subset place rows))
  have hnew : newRows column (rows.take place) (rows.take place ++ rows.drop place) =
      newRows column (rows.take place) (rows.drop place) := newRows_append_self hfirst
  rw [List.take_append_drop] at hnew
  rw [hnew]
  refine List.filter_eq_self.mpr fun later hlater => ?_
  rw [List.all_eq_true]
  intro earlier hearlier
  rw [beq_iff_eq]
  -- there are rows on both sides
  rcases List.eq_nil_or_concat (rows.take place) with hnil | ⟨front, last, hfront⟩
  · rw [hnil] at hearlier
    cases hearlier
  · rw [List.concat_eq_append] at hfront
    obtain ⟨next, back, hback⟩ := List.exists_cons_of_ne_nil (List.ne_nil_of_mem hlater)
    have hsplit : rows = front ++ last :: next :: back := by
      rw [← List.take_append_drop place rows, hfront, hback, List.append_assoc,
        List.singleton_append]
    have hplace : front.length + 1 = place := by
      have hmin := congrArg List.length hfront
      have hmore := congrArg List.length hback
      simp only [List.length_take, List.length_drop, List.length_append, List.length_cons,
        List.length_nil] at hmin hmore
      omega
    rw [hsplit] at h horder
    rw [hback] at hlater
    rw [hfront] at hearlier
    exact gt_of_changes h horder (hchange front last next back hsplit hplace) later hlater earlier
      hearlier

end Order

/-! ## One batch after the other -/

/-- The rows loaded by so many batches, each of which takes the first ones of the rows that are
newer than all rows loaded before. -/
def loadedBy (column size : Nat) (rows : List String) : Nat → List String
  | 0 => []
  | k + 1 => loadedBy column size rows k ++
      (newRows column (loadedBy column size rows k) rows).take size

/-- The rows that are left for later batches. -/
def leftBy (column size : Nat) (rows : List String) (k : Nat) : List String :=
  newRows column (loadedBy column size rows k) rows

section Batches

variable {column size : Nat} {rows : List String} {k : Nat}

theorem loadedBy_succ (column size : Nat) (rows : List String) (k : Nat) :
    loadedBy column size rows (k + 1) =
      loadedBy column size rows k ++ (leftBy column size rows k).take size :=
  rfl

theorem leftBy_zero (column size : Nat) (rows : List String) : leftBy column size rows 0 = rows :=
  newRows_nil column rows

theorem leftBy_subset (column size : Nat) (rows : List String) (k : Nat) :
    leftBy column size rows k ⊆ rows :=
  List.filter_sublist.subset

theorem loadedBy_subset (column size : Nat) (rows : List String) (k : Nat) :
    loadedBy column size rows k ⊆ rows := by
  induction k with
  | zero => exact List.nil_subset _
  | succ k ih =>
      rw [loadedBy_succ]
      exact List.append_subset.mpr
        ⟨ih, fun row hrow => leftBy_subset column size rows k (List.mem_of_mem_take hrow)⟩

/-- What a batch leaves comes after it among what was left before, and ties are passed over. -/
theorem leftBy_succ (h : Comparable (rows.map (updateValue column))) (size k : Nat) :
    leftBy column size rows (k + 1) =
      newRows column ((leftBy column size rows k).take size)
        ((leftBy column size rows k).drop size) := by
  have hbatch : Comparable (((leftBy column size rows k).take size).map (updateValue column)) :=
    h.mono (List.map_subset _ fun row hrow =>
      leftBy_subset column size rows k (List.mem_of_mem_take hrow))
  have hnew : newRows column ((leftBy column size rows k).take size)
      ((leftBy column size rows k).take size ++ (leftBy column size rows k).drop size) =
        newRows column ((leftBy column size rows k).take size)
          ((leftBy column size rows k).drop size) := newRows_append_self hbatch
  rw [List.take_append_drop] at hnew
  rw [← hnew, leftBy, loadedBy_succ, newRows_append_loaded, leftBy]

theorem leftBy_succ_sublist (h : Comparable (rows.map (updateValue column))) (size k : Nat) :
    (leftBy column size rows (k + 1)).Sublist ((leftBy column size rows k).drop size) := by
  rw [leftBy_succ h]
  exact List.filter_sublist

/-- When nothing is left, nothing is left later. -/
theorem leftBy_succ_eq_nil (h : Comparable (rows.map (updateValue column)))
    (hend : leftBy column size rows k = []) : leftBy column size rows (k + 1) = [] := by
  have hsub := leftBy_succ_sublist h size k
  rw [hend, List.drop_nil] at hsub
  exact List.sublist_nil.mp hsub

/-- A batch adds to the rows loaded no more than it takes from those left. -/
theorem length_loadedBy_add_leftBy_succ_le (h : Comparable (rows.map (updateValue column)))
    (size k : Nat) :
    (loadedBy column size rows (k + 1)).length + (leftBy column size rows (k + 1)).length ≤
      (loadedBy column size rows k).length + (leftBy column size rows k).length := by
  have hle := (leftBy_succ_sublist h size k).length_le
  rw [loadedBy_succ, List.length_append, List.length_take]
  rw [List.length_drop] at hle
  omega

/-- A row that was passed over never comes back. -/
theorem length_loadedBy_add_leftBy_le (h : Comparable (rows.map (updateValue column))) (size : Nat)
    {j k : Nat} (hjk : j ≤ k) :
    (loadedBy column size rows k).length + (leftBy column size rows k).length ≤
      (loadedBy column size rows j).length + (leftBy column size rows j).length := by
  induction k, hjk using Nat.le_induction with
  | base => exact Nat.le_refl _
  | succ k hjk ih => exact (length_loadedBy_add_leftBy_succ_le h size k).trans ih

/-- No row has been passed over: each is loaded or left. -/
def Accounted (column size : Nat) (rows : List String) (k : Nat) : Prop :=
  (loadedBy column size rows k).length + (leftBy column size rows k).length = rows.length

theorem accounted_of_leftBy_eq_nil (hend : leftBy column size rows k = [])
    (hlength : (loadedBy column size rows k).length = rows.length) :
    Accounted column size rows k := by
  rw [Accounted, hend, hlength, List.length_nil, Nat.add_zero]

theorem Accounted.of_le (h : Comparable (rows.map (updateValue column)))
    (hall : Accounted column size rows k) {j : Nat} (hjk : j ≤ k) :
    Accounted column size rows j := by
  have hstart := length_loadedBy_add_leftBy_le h size (Nat.zero_le j)
  have hle := length_loadedBy_add_leftBy_le h size hjk
  rw [leftBy_zero, loadedBy, List.length_nil, Nat.zero_add] at hstart
  rw [Accounted] at hall ⊢
  omega

/-- As long as no row is passed over, the batches are the first rows of the source. -/
theorem Accounted.eq_take_and_eq_drop (h : Comparable (rows.map (updateValue column)))
    (hall : Accounted column size rows k) :
    loadedBy column size rows k = rows.take (k * size) ∧
      leftBy column size rows k = rows.drop (k * size) := by
  induction k with
  | zero =>
      rw [leftBy_zero, loadedBy, Nat.zero_mul, List.take_zero, List.drop_zero]
      exact ⟨rfl, rfl⟩
  | succ k ih =>
      have hbefore := hall.of_le h (Nat.le_succ k)
      obtain ⟨hloaded, hleft⟩ := ih hbefore
      -- a tie that is passed over would be missing in the sum
      have hdrop : leftBy column size rows (k + 1) = (leftBy column size rows k).drop size := by
        refine (leftBy_succ_sublist h size k).eq_of_length ?_
        rw [Accounted] at hall hbefore
        rw [loadedBy_succ, List.length_append, List.length_take] at hall
        rw [List.length_drop]
        omega
      rw [hdrop, loadedBy_succ, hloaded, hleft, Nat.succ_mul, List.take_add, List.drop_drop]
      exact ⟨rfl, rfl⟩

/-- Where no row is passed over, the value changes. -/
theorem Accounted.changesAt (h : Comparable (rows.map (updateValue column)))
    (hall : Accounted column size rows k) : ChangesAt column rows (k * size) := by
  rintro front last next back rfl hplace
  obtain ⟨hloaded, hleft⟩ := hall.eq_take_and_eq_drop h
  have hsplit : front ++ last :: next :: back = (front ++ [last]) ++ next :: back := by simp
  have hlength : (front ++ [last]).length = k * size := by simpa using hplace
  have htake : loadedBy column size (front ++ last :: next :: back) k = front ++ [last] := by
    rw [hloaded, hsplit, List.take_left' hlength]
  have hnext : next ∈ leftBy column size (front ++ last :: next :: back) k := by
    rw [hleft, hsplit, List.drop_left' hlength]
    exact List.mem_cons_self
  refine (mem_newRows_iff.mp hnext).2 last ?_
  rw [htake]
  simp

/-- Where each batch ends, the value changes. -/
def ChangesBetween (column size : Nat) (rows : List String) : Prop :=
  ∀ k, ChangesAt column rows (k * size)

/-- Where the value changes between the batches, they follow each other in the source. -/
theorem loadedBy_eq_take (h : Comparable (rows.map (updateValue column)))
    (horder : InOrder column rows) (hchange : ChangesBetween column size rows) (k : Nat) :
    loadedBy column size rows k = rows.take (k * size) := by
  induction k with
  | zero => rw [loadedBy, Nat.zero_mul, List.take_zero]
  | succ k ih =>
      rw [loadedBy, ih, newRows_take h horder (hchange k), Nat.succ_mul, List.take_add]

theorem leftBy_eq_drop (h : Comparable (rows.map (updateValue column)))
    (horder : InOrder column rows) (hchange : ChangesBetween column size rows) (k : Nat) :
    leftBy column size rows k = rows.drop (k * size) := by
  rw [leftBy, loadedBy_eq_take h horder hchange, newRows_take h horder (hchange k)]

/-- Batches of at least one row come to an end. -/
theorem exists_leftBy_eq_nil (h : Comparable (rows.map (updateValue column))) (hsize : 0 < size) :
    ∃ k, leftBy column size rows k = [] := by
  -- each batch takes a row as long as there are any
  have hle : ∀ k, (leftBy column size rows k).length ≤ rows.length - k := by
    intro k
    induction k with
    | zero =>
        rw [leftBy_zero]
        exact Nat.le_refl _
    | succ k ih =>
        have hless := (leftBy_succ_sublist h size k).length_le
        rw [List.length_drop] at hless
        omega
  refine ⟨rows.length, List.eq_nil_of_length_eq_zero ?_⟩
  have hend := hle rows.length
  omega

/-- When nothing is left, as many rows have been loaded as there are exactly if the value changes
between the batches. -/
theorem length_loadedBy_eq_iff (h : Comparable (rows.map (updateValue column)))
    (horder : InOrder column rows) (hend : leftBy column size rows k = []) :
    (loadedBy column size rows k).length = rows.length ↔ ChangesBetween column size rows := by
  constructor
  · intro hlength j
    have hall := accounted_of_leftBy_eq_nil hend hlength
    rcases Nat.lt_or_ge k j with hlt | hle
    · -- all batches have ended before that place
      rintro front last next back rfl hplace
      have hdrop := (hall.eq_take_and_eq_drop h).2
      rw [hend, eq_comm, List.drop_eq_nil_iff] at hdrop
      have hmore : k * size ≤ j * size := Nat.mul_le_mul_right size (Nat.le_of_lt hlt)
      simp only [List.length_append, List.length_cons] at hdrop
      omega
    · exact (hall.of_le h hle).changesAt h
  · intro hchange
    have hdrop := leftBy_eq_drop h horder hchange k
    rw [hend, eq_comm, List.drop_eq_nil_iff] at hdrop
    rw [loadedBy_eq_take h horder hchange, List.take_of_length_le hdrop]

/-- Then the rows loaded are all rows, in their order. -/
theorem loadedBy_eq_self (h : Comparable (rows.map (updateValue column)))
    (hend : leftBy column size rows k = [])
    (hlength : (loadedBy column size rows k).length = rows.length) :
    loadedBy column size rows k = rows := by
  have htake := ((accounted_of_leftBy_eq_nil hend hlength).eq_take_and_eq_drop h).1
  rw [htake] at hlength ⊢
  exact (List.take_sublist _ _).eq_of_length hlength

end Batches

end Haulage
