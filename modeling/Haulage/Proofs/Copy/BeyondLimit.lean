import Haulage.Proofs.Copy.Stopping

/-!
# What comes behind the last row

A copy whose limit is met ends at the next line, which it reads before it looks at the limit. What
that line says makes no difference, nor does anything behind it, but a line there that is no text
fails a copy that has already taken all its rows. The lines written are the same in either case.

- `lines_append_of_text`, `lines_append_of_fault`: a copy whose limit is met behind some lines, by
  the line that follows them.
- `file_beyond_limit`: what other bytes behind the last row make of a copy.
- `limit_met_and_failed`: a copy that fails behind the only row it was asked for.
-/

set_option autoImplicit false

namespace Haulage.Copy

variable {options : RunOptions} {plan : CopyPlan} {path : Path} {selector : Option ColumnSelector}
  {limit : Option UInt64} {cancelAfter : Option Nat} {filter : RowFilter} {copied : Nat}
  {written : List String} {front : List String}

/-- Lines of which the last one meets the limit: the header when no row is asked for, or else the
last of the rows that are. -/
inductive MeetsLimit (options : RunOptions) (plan : CopyPlan) : List String → Prop
  | atHeader {header : String} (hlimit : options.limit = some 0) : MeetsLimit options plan [header]
  | atRow {header last : String} {earlier : List String} {filter : RowFilter} {n : UInt64}
      (hfilter : filterFor options plan header = .ok filter) (hadmits : filter.Admits earlier last)
      (hlimit : options.limit = some n)
      (hcount : (filter.passing (earlier ++ [last])).length = n.toNat) :
      MeetsLimit options plan (header :: (earlier ++ [last]))

/-- A copy that meets its limit comes to the end of these lines, and then the limit allows
no row more. -/
theorem MeetsLimit.within_and_reached {header : String} {rows : List String}
    (h : MeetsLimit options plan (header :: rows))
    (hfilter : filterFor options plan header = .ok filter) :
    Within options.limit filter 0 rows ∧
      reached options.limit (filter.passing rows).length = true := by
  cases h with
  | atHeader hlimit =>
      rw [hlimit]
      exact ⟨within_nil, rfl⟩
  | @atRow _ last earlier filter' n hfilter' hadmits hlimit hcount =>
      rw [hfilter, Except.ok.injEq] at hfilter'
      subst hfilter'
      rw [hlimit, hcount]
      refine ⟨?_, decide_eq_true (Nat.le_refl _)⟩
      intro earlier' last' hsplit
      obtain ⟨rfl, -⟩ := List.append_inj' hsplit rfl
      -- the last row is one of those that count
      rw [RowFilter.passing_append, RowFilter.passing_singleton_of_admits hadmits,
        List.length_append, List.length_singleton] at hcount
      apply decide_eq_false
      omega

/-! ## A copy that fails on the lines in front -/

/-- A copy that fails on some lines fails in the same way when others come behind them. -/
theorem lines_append_of_fails {f : Failure}
    (h : (lines options plan ⟨path, front.map .ok, cancelAfter⟩).failure = some f)
    (rest : List (Except LineFault String)) :
    lines options plan ⟨path, front.map .ok ++ rest, cancelAfter⟩ =
      lines options plan ⟨path, front.map .ok, cancelAfter⟩ := by
  rcases failure_lines_iff.mp h with
      ⟨header, more, hlines, hcancel, hrejects⟩ | ⟨front', hreads, hstops⟩
  · have hlines' : front.map .ok = .ok header :: more := hlines
    rw [hlines', List.cons_append, lines_of_rejects hrejects hcancel,
      lines_of_rejects hrejects hcancel]
  · -- all lines are texts, so it was a cancellation
    have hcancel : HaltsAt ⟨path, front.map .ok ++ rest, cancelAfter⟩ front'.length f := by
      cases hstops.halts with
      | onCancel hcancel => exact .onCancel hcancel
      | onFault hcancel hline =>
          rw [List.getElem?_map] at hline
          cases hget : front[front'.length]? <;> simp [hget] at hline
    have hstops' : StopsBehind ⟨path, front.map .ok ++ rest, cancelAfter⟩ front' f :=
      ⟨hstops.readable.trans (List.prefix_append _ _), hstops.lasts, hcancel⟩
    rw [lines_of_stopsBehind hreads hstops, lines_of_stopsBehind hreads hstops']

/-! ## A copy that takes all its rows -/

/-- A copy of rows that does not fail has not been found cancelled, up to the read behind them. -/
theorem lasts_of_rowsFrom {rows : List String} (hwithin : Within limit filter copied rows)
    (h : (rowsFrom selector limit path cancelAfter filter copied written (rows.map .ok)).failure =
      none) :
    Lasts cancelAfter (rows.length + 1) := by
  -- each row takes one read of those that the cancellation leaves
  induction rows generalizing cancelAfter filter copied written with
  | nil =>
      rw [lasts_succ_iff]
      refine ⟨?_, fun n _ => Nat.zero_le n⟩
      rintro rfl
      cases h
  | cons line more ih =>
      obtain ⟨hreached, hwithin⟩ := within_cons_iff.mp hwithin
      rw [List.length_cons, lasts_succ_iff]
      have hcancel : cancelAfter ≠ some 0 := by
        rintro rfl
        cases h
      refine ⟨hcancel, ?_⟩
      rw [List.map_cons, rowsFrom, if_neg hcancel] at h
      simp only [hreached, Bool.false_eq_true, if_false] at h
      rcases hpass : filter.pass line with ⟨_ | _, filter'⟩
      · rw [hpass] at h hwithin
        exact ih hwithin h
      · rw [hpass] at h hwithin
        exact ih hwithin h

/-- A copy that takes all its rows from some lines comes to the read behind them with
its limit met. -/
theorem exists_state_of_meetsLimit (hmeets : MeetsLimit options plan front)
    (h : (lines options plan ⟨path, front.map .ok, cancelAfter⟩).failure = none) :
    ∃ selector filter copied written, reached options.limit copied = true ∧
      cancelAfter.map (· - front.length) ≠ some 0 ∧
      lines options plan ⟨path, front.map .ok, cancelAfter⟩ = ⟨written.reverse, copied, none⟩ ∧
        ∀ rest,
        lines options plan ⟨path, front.map .ok ++ rest, cancelAfter⟩ =
          rowsFrom selector options.limit path (cancelAfter.map (· - front.length)) filter copied
            written
            rest := by
  obtain ⟨header, rows, rfl⟩ : ∃ header rows, front = header :: rows := by
    cases hmeets with
    | atHeader hlimit => exact ⟨_, [], rfl⟩
    | atRow hfilter hadmits hlimit hcount => exact ⟨_, _, rfl⟩
  have hcancel : cancelAfter ≠ some 0 := by
    rintro rfl
    cases h
  rcases rejects_or_ok options plan header with
      ⟨f, hrejects⟩ | ⟨selector, filter, hselector, hfilter⟩
  · rw [List.map_cons, lines_of_rejects hrejects hcancel] at h
    cases h
  · obtain ⟨hwithin, hreached⟩ := hmeets.within_and_reached hfilter
    rw [List.map_cons, lines_of_accepted hselector hfilter hcancel] at h
    have hlasts : Lasts cancelAfter (rows.length + 1 + 1) :=
      lasts_succ_iff.mpr ⟨hcancel, lasts_of_rowsFrom hwithin h⟩
    have hlasts' : Lasts cancelAfter (rows.length + 1) :=
      fun n hn => (Nat.le_succ _).trans (hlasts n hn)
    -- a cancellation found now would have failed the copy
    have hnow : cancelAfter.map (· - (rows.length + 1)) ≠ some 0 := by
      intro hnow
      obtain ⟨n, hn, hzero⟩ := Option.map_eq_some_iff.mp hnow
      have hle := hlasts n hn
      omega
    rw [← Nat.zero_add (filter.passing rows).length] at hreached
    refine ⟨_, _, _, _, hreached, hnow, ?_, lines_append hselector hfilter hwithin hlasts'⟩
    rw [← List.append_nil (List.map _ _), lines_append hselector hfilter hwithin hlasts', rowsFrom,
      if_neg hnow]

/-- Behind its last row a copy ends at any line that is a text, and at the end of the source. -/
theorem lines_append_of_text (hmeets : MeetsLimit options plan front)
    (h : (lines options plan ⟨path, front.map .ok, cancelAfter⟩).failure = none)
    {rest : List (Except LineFault String)} (hrest : ∀ fault more, rest ≠ .error fault :: more) :
    lines options plan ⟨path, front.map .ok ++ rest, cancelAfter⟩ =
      lines options plan ⟨path, front.map .ok, cancelAfter⟩ := by
  obtain ⟨selector, filter, copied, written, hreached, hcancel, hfront, hlines⟩ :=
    exists_state_of_meetsLimit hmeets h
  rw [hlines rest, hfront]
  cases rest with
  | nil => rw [rowsFrom, if_neg hcancel]
  | cons line more =>
      cases line with
      | error fault => exact absurd rfl (hrest fault more)
      | ok line => rw [rowsFrom, if_neg hcancel, if_pos hreached]

/-- A line behind the last row that cannot be read fails the copy. -/
theorem lines_append_of_fault (hmeets : MeetsLimit options plan front)
    (h : (lines options plan ⟨path, front.map .ok, cancelAfter⟩).failure = none) (fault : LineFault)
    (more : List (Except LineFault String)) :
    lines options plan ⟨path, front.map .ok ++ .error fault :: more, cancelAfter⟩ =
      { lines options plan ⟨path, front.map .ok, cancelAfter⟩ with
        failure := some (unreadable path fault) } := by
  obtain ⟨selector, filter, copied, written, -, hcancel, hfront, hlines⟩ :=
    exists_state_of_meetsLimit hmeets h
  rw [hlines, hfront, rowsFrom, if_neg hcancel]

/-! ## Files with other bytes behind the last row -/

/-- What other bytes behind the last row of a file make of a copy. -/
structure SameButForFault (path : Path) (rest : Bytes) (c c' : Copied) : Prop where
  /-- The same lines are written and counted. -/
  written : c'.written = c.written ∧ c'.rows = c.rows
  /-- The copy is the same unless it fails only because the first line of these bytes is no text. -/
  eq_iff : c' = c ↔ c.failure = none → ∀ fault more, Lines.ofBytes rest ≠ .error fault :: more
  /-- In that case it fails with the fault of that line. -/
  failure : ∀ fault more, c.failure = none → Lines.ofBytes rest = .error fault :: more →
    c'.failure = some (unreadable path fault)

/-- Behind a text that ends with the last row of a copy, other bytes change nothing for it except
when their first line is no text. -/
theorem file_beyond_limit {fs fs' : FileSystem} {text : String} {rest : Bytes}
    (hopen : fs.openToRead path = .ok (.content (Utf8.encode text)))
    (hopen' : fs'.openToRead path = .ok (.content (Utf8.encode text ++ rest)))
    (hend : text.toList.getLast? = some '\n') (hmeets : MeetsLimit options plan (Text.lines text))
    (cancelAfter : Option Nat) :
    ∃ c c', file fs path options plan cancelAfter = .ok c ∧
      file fs' path options plan cancelAfter = .ok c' ∧ SameButForFault path rest c c' := by
  refine ⟨_, _, file_eq_ok_iff.mpr ⟨_, hopen, rfl⟩, file_eq_ok_iff.mpr ⟨_, hopen', rfl⟩, ?_⟩
  rw [Lines.ofOpened, Lines.ofOpened, Lines.ofBytes_encode_append hend, Lines.ofBytes_encode]
  cases hfailure : (lines options plan ⟨path, (Text.lines text).map .ok, cancelAfter⟩).failure with
  | some f =>
      rw [lines_append_of_fails hfailure]
      refine ⟨⟨rfl, rfl⟩, ⟨fun _ hnone => ?_, fun _ => rfl⟩, fun _ _ hnone => ?_⟩
      · rw [hfailure] at hnone
        cases hnone
      · rw [hfailure] at hnone
        cases hnone
  | none =>
      by_cases htext : ∀ fault more, Lines.ofBytes rest ≠ .error fault :: more
      · rw [lines_append_of_text hmeets hfailure htext]
        exact ⟨⟨rfl, rfl⟩, ⟨fun _ _ => htext, fun _ => rfl⟩,
          fun fault more _ hrest => absurd hrest (htext fault more)⟩
      · simp only [not_forall, not_not] at htext
        obtain ⟨fault, more, hrest⟩ := htext
        rw [hrest, lines_append_of_fault hmeets hfailure]
        refine ⟨⟨rfl, rfl⟩, ⟨fun heq => ?_, fun htext => absurd hrest (htext hfailure fault more)⟩,
          ?_⟩
        · -- one of the two has failed and the other has not
          have hfailed := congrArg Copied.failure heq
          rw [hfailure] at hfailed
          cases hfailed
        · intro fault' more' _ hrest'
          rw [hrest] at hrest'
          cases hrest'
          rfl

/-- A copy of one row. -/
def oneRow : RunOptions :=
  { RunOptions.between "in.csv" "out.csv" .fullRefresh with limit := some 1 }

/-- A file with one row, and other bytes behind it. -/
def rowAnd (rest : Bytes) : FileSystem :=
  .ofFiles [("in.csv", Utf8.encode "id\n1\n" ++ rest)]

theorem openToRead_rowAnd (rest : Bytes) :
    (rowAnd rest).openToRead ⟨"in.csv"⟩ = .ok (.content (Utf8.encode "id\n1\n" ++ rest)) :=
  FileSystem.openToRead_of_find_file (FileSystem.find_of_isPlain (by decide +kernel) rfl)

theorem lines_row : Text.lines "id\n1\n" = ["id", "1"] := by
  decide +kernel

/-- The only row of the file is the one that is asked for. -/
theorem meetsLimit_row : MeetsLimit oneRow .fresh (Text.lines "id\n1\n") := by
  have hfilter : filterFor oneRow .fresh "id" = .ok ⟨[], none, ∅⟩ := rfl
  have hadmits : (RowFilter.mk [] none ∅).Admits [] "1" := rfl
  rw [lines_row]
  exact .atRow hfilter hadmits rfl rfl

/-- The only row is copied from the file that ends behind it. -/
theorem file_rowAnd_nil :
    file (rowAnd []) ⟨"in.csv"⟩ oneRow .fresh none = .ok ⟨["id", "1"], 1, none⟩ := by
  have hopen := openToRead_rowAnd []
  rw [List.append_nil] at hopen
  refine file_eq_ok_iff.mpr ⟨_, hopen, ?_⟩
  rw [Lines.ofOpened, Lines.ofBytes_encode, lines_row]
  rfl

/-- A second row and a line that is no text make no difference behind the row that is asked for. -/
theorem file_beyond_limit_secondRow :
    file (rowAnd (Utf8.encode "2\n" ++ [0xFF])) ⟨"in.csv"⟩ oneRow .fresh none =
      .ok ⟨["id", "1"], 1, none⟩ := by
  have hopen := openToRead_rowAnd []
  rw [List.append_nil] at hopen
  have hend : "id\n1\n".toList.getLast? = some '\n' := by decide +kernel
  obtain ⟨c, c', hc, hc', hsame⟩ :=
    file_beyond_limit hopen (openToRead_rowAnd (Utf8.encode "2\n" ++ [0xFF])) hend meetsLimit_row
      none
  rw [file_rowAnd_nil, Except.ok.injEq] at hc
  subst hc
  rw [hc', hsame.eq_iff.mpr]
  -- the first line of the other bytes is a text
  intro _ fault more hrest
  rw [show "2\n" = Lines.unlines ["2"] from rfl,
    Lines.ofBytes_encode_unlines_append (by decide +kernel)] at hrest
  cases hrest

/-- A copy that fails behind the only row it was asked for, and that the file could
have ended with. -/
theorem limit_met_and_failed :
    MeetsLimit oneRow .fresh (Text.lines "id\n1\n") ∧
      ∃ c c', file (rowAnd []) ⟨"in.csv"⟩ oneRow .fresh none = .ok c ∧
        file (rowAnd [0xFF]) ⟨"in.csv"⟩ oneRow .fresh none = .ok c' ∧
        c.failure = none ∧ c'.failure ≠ none := by
  obtain ⟨fault, hfault⟩ := Lines.exists_ofBytes_badByte
  have hend : "id\n1\n".toList.getLast? = some '\n' := by decide +kernel
  refine ⟨meetsLimit_row, _, _, file_rowAnd_nil,
    file_eq_ok_iff.mpr ⟨_, openToRead_rowAnd [0xFF], rfl⟩, rfl, ?_⟩
  rw [Lines.ofOpened, Lines.ofBytes_encode_append hend, hfault, lines_row]
  exact Option.some_ne_none _

end Haulage.Copy
