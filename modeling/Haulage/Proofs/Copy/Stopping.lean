import Haulage.Proofs.Copy.Contents
import Haulage.Proofs.Copy.Keys

/-!
# Copies that are stopped

A copy that cannot go on at some read has dealt with the lines before it and with nothing else: what
it has written is what a copy writes of a source that ends behind these lines. So it leaves whole
lines, and every copy that gets farther on a source with the same lines in front writes them first.

- `rowsFrom_append`: a copy goes on behind rows that neither its limit nor a
  cancellation keeps it from.
- `StopsBehind`: what stops a copy behind some lines.
- `failure_lines_iff`: a copy fails when it rejects its header or is stopped, and in no other case.
- `lines_of_stopsBehind`: a copy that is stopped is the copy of the lines before, but for the
  failure.
- `file_stops`: what follows for the bytes of a file.
-/

set_option autoImplicit false

namespace Haulage.Copy

variable {options : RunOptions} {plan : CopyPlan} {path : Path} {selector : Option ColumnSelector}
  {limit : Option UInt64} {cancelAfter : Option Nat} {filter : RowFilter} {copied : Nat}
  {written : List String} {source : List (Except LineFault String)} {f : Failure}

/-! ## How far a copy reads -/

/-- A copy is not found cancelled before it has read so many lines. -/
def Lasts (cancelAfter : Option Nat) (reads : Nat) : Prop :=
  ∀ n ∈ cancelAfter, reads ≤ n

theorem lasts_none (reads : Nat) : Lasts none reads := by
  intro n hn
  cases hn

theorem lasts_succ_iff {reads : Nat} :
    Lasts cancelAfter (reads + 1) ↔
      cancelAfter ≠ some 0 ∧ Lasts (cancelAfter.map (· - 1)) reads := by
  cases cancelAfter with
  | none => simp [Lasts]
  | some n =>
      simp only [Lasts, Option.mem_some_iff, forall_eq', Option.map_some, ne_eq, Option.some.injEq]
      omega

theorem map_sub_succ (cancelAfter : Option Nat) (reads : Nat) :
    (cancelAfter.map (· - 1)).map (· - reads) = cancelAfter.map (· - (reads + 1)) := by
  rw [Option.map_map]
  congr 1
  funext n
  exact (Nat.sub_sub n 1 reads).trans (congrArg (n - ·) (Nat.add_comm 1 reads))

/-- A limit that is reached stays reached. -/
theorem reached_of_le {few many : Nat} (hle : few ≤ many) (h : reached limit many = false) :
    reached limit few = false := by
  cases limit with
  | none => rfl
  | some n =>
      have hmany : ¬n.toNat ≤ many := of_decide_eq_false h
      apply decide_eq_false
      omega

/-- The limit allows a further row until the last of some rows has come. -/
def Within (limit : Option UInt64) (filter : RowFilter) (copied : Nat)
    (rows : List String) : Prop :=
  ∀ earlier last, rows = earlier ++ [last] →
    reached limit (copied + (filter.passing earlier).length) = false

theorem within_nil : Within limit filter copied [] := by
  intro earlier last h
  exact absurd h.symm (by simp)

theorem length_passing_cons (filter : RowFilter) (line : String) (more : List String) :
    (filter.passing (line :: more)).length =
      (filter.pass line).1.toNat + ((filter.pass line).2.passing more).length := by
  rw [RowFilter.passing]
  rcases filter.pass line with ⟨_ | _, filter'⟩
  · simp
  · simp [Nat.add_comm]

theorem within_cons_iff {line : String} {more : List String} :
    Within limit filter copied (line :: more) ↔ reached limit copied = false ∧
      Within limit (filter.pass line).2 (copied + (filter.pass line).1.toNat) more := by
  constructor
  · intro h
    refine ⟨?_, ?_⟩
    · -- what is not reached at the last row has not been reached before
      rcases List.eq_nil_or_concat more with rfl | ⟨earlier, last, rfl⟩
      · exact h [] line rfl
      · rw [List.concat_eq_append] at h
        exact reached_of_le (Nat.le_add_right _ _) (h (line :: earlier) last rfl)
    · rintro earlier last rfl
      have hlast := h (line :: earlier) last rfl
      rwa [length_passing_cons, ← Nat.add_assoc] at hlast
  · rintro ⟨hfirst, hmore⟩ earlier last hsplit
    cases earlier with
    | nil => exact hfirst
    | cons first earlier =>
        rw [List.cons_append, List.cons.injEq] at hsplit
        obtain ⟨rfl, hsplit⟩ := hsplit
        rw [length_passing_cons, ← Nat.add_assoc]
        exact hmore earlier last hsplit

/-- A copy goes on behind rows that neither the limit nor a cancellation keeps it from. -/
theorem rowsFrom_append {rows : List String} (hwithin : Within limit filter copied rows)
    (hlasts : Lasts cancelAfter rows.length) (more : List (Except LineFault String)) :
    rowsFrom selector limit path cancelAfter filter copied written (rows.map .ok ++ more) =
      rowsFrom selector limit path (cancelAfter.map (· - rows.length)) (filter.after rows)
        (copied + (filter.passing rows).length)
        (((filter.passing rows).map (project selector)).reverse ++ written) more := by
  induction rows generalizing cancelAfter filter copied written with
  | nil => simp [RowFilter.after, RowFilter.passing]
  | cons line rest ih =>
      rw [within_cons_iff] at hwithin
      rw [List.length_cons, lasts_succ_iff] at hlasts
      obtain ⟨hreached, hwithin⟩ := hwithin
      obtain ⟨hcancel, hlasts⟩ := hlasts
      rw [List.map_cons, List.cons_append, rowsFrom, if_neg hcancel]
      simp only [hreached, Bool.false_eq_true, if_false]
      rw [RowFilter.passing, RowFilter.after, List.foldl_cons, ← RowFilter.after, List.length_cons,
        ← map_sub_succ cancelAfter rest.length]
      rcases hpass : filter.pass line with ⟨_ | _, filter'⟩
      · rw [hpass] at hwithin
        exact ih hwithin hlasts
      · rw [hpass] at hwithin
        -- the row is one more that was copied and one more that was written
        have hcopied : copied + (filter'.passing rest).length.succ =
            copied + 1 + (filter'.passing rest).length := by omega
        refine (ih hwithin hlasts).trans ?_
        rw [List.map_cons, List.reverse_cons, List.append_assoc, List.length_cons, hcopied]
        rfl

/-- What was written before stays in front. -/
theorem reverse_prefix_written_rowsFrom :
    written.reverse <+:
      (rowsFrom selector limit path cancelAfter filter copied written source).written := by
  fun_induction rowsFrom selector limit path cancelAfter filter copied written source with
  | case1 => exact List.prefix_refl _
  | case2 => exact List.prefix_refl _
  | case3 => exact List.prefix_refl _
  | case4 => exact List.prefix_refl _
  | case5 filter copied written cancelAfter more hcancel line hlimit filter' hpass ih =>
      rw [List.reverse_cons] at ih
      exact (List.prefix_append _ _).trans ih
  | case6 filter copied written cancelAfter more hcancel line hlimit filter' hpass ih => exact ih

/-! ## What stops a copy -/

/-- What stops a copy that has read so many lines: it is found cancelled, or else the next line
cannot be read. -/
inductive HaltsAt (source : CopySource) (reads : Nat) : Failure → Prop
  | onCancel (hcancel : source.cancelAfter = some reads) : HaltsAt source reads cancelled
  | onFault {fault : LineFault} (hcancel : source.cancelAfter ≠ some reads)
      (hline : source.lines[reads]? = some (.error fault)) :
      HaltsAt source reads (unreadable source.path fault)

/-- A copy reads some lines and is stopped behind them, unless its header or its limit
ends it before. -/
structure StopsBehind (source : CopySource) (front : List String) (f : Failure) : Prop where
  readable : front.map .ok <+: source.lines
  lasts : Lasts source.cancelAfter front.length
  halts : HaltsAt source front.length f

theorem stopsBehind_nil_iff {source : CopySource} :
    StopsBehind source [] f ↔ HaltsAt source 0 f := by
  constructor
  · intro h
    exact h.halts
  · intro h
    exact ⟨List.nil_prefix, fun n _ => Nat.zero_le n, h⟩

theorem haltsAt_succ_iff {line : Except LineFault String} {reads : Nat}
    (hcancel : cancelAfter ≠ some 0) :
    HaltsAt ⟨path, line :: source, cancelAfter⟩ (reads + 1) f ↔
      HaltsAt ⟨path, source, cancelAfter.map (· - 1)⟩ reads f := by
  have hsame : cancelAfter = some (reads + 1) ↔ cancelAfter.map (· - 1) = some reads := by
    cases cancelAfter with
    | none => simp
    | some n =>
        have hn : n ≠ 0 := fun e => hcancel (congrArg some e)
        simp only [Option.some.injEq, Option.map_some]
        omega
  constructor
  · intro h
    cases h with
    | onCancel h => exact .onCancel (hsame.mp h)
    | onFault h hline => exact .onFault (fun e => h (hsame.mpr e)) hline
  · intro h
    cases h with
    | onCancel h => exact .onCancel (hsame.mpr h)
    | onFault h hline => exact .onFault (fun e => h (hsame.mp e)) hline

theorem stopsBehind_cons_iff {line : String} {front : List String} :
    StopsBehind ⟨path, .ok line :: source, cancelAfter⟩ (line :: front) f ↔
      cancelAfter ≠ some 0 ∧ StopsBehind ⟨path, source, cancelAfter.map (· - 1)⟩ front f := by
  constructor
  · rintro ⟨hreadable, hlasts, hhalts⟩
    obtain ⟨hcancel, hlasts⟩ := lasts_succ_iff.mp hlasts
    exact ⟨hcancel, (List.prefix_cons_inj _).mp hreadable, hlasts,
      (haltsAt_succ_iff hcancel).mp hhalts⟩
  · rintro ⟨hcancel, hreadable, hlasts, hhalts⟩
    exact ⟨(List.prefix_cons_inj _).mpr hreadable, lasts_succ_iff.mpr ⟨hcancel, hlasts⟩,
      (haltsAt_succ_iff hcancel).mpr hhalts⟩

/-- A copy of rows that fails has been stopped behind some of them. -/
theorem exists_stopsBehind_of_rowsFrom
    (h : (rowsFrom selector limit path cancelAfter filter copied written source).failure = some f) :
    ∃ rows, Within limit filter copied rows ∧ StopsBehind ⟨path, source, cancelAfter⟩ rows f := by
  fun_induction rowsFrom selector limit path cancelAfter filter copied written source with
  | case1 filter copied written cancelAfter =>
      refine ⟨[], within_nil, stopsBehind_nil_iff.mpr ?_⟩
      split at h
      · rename_i hcancel
        cases h
        exact .onCancel hcancel
      · cases h
  | case2 filter copied written line more =>
      cases h
      exact ⟨[], within_nil, stopsBehind_nil_iff.mpr (.onCancel rfl)⟩
  | case3 filter copied written cancelAfter more hcancel fault =>
      cases h
      exact ⟨[], within_nil, stopsBehind_nil_iff.mpr (.onFault hcancel rfl)⟩
  | case4 => cases h
  | case5 filter copied written cancelAfter more hcancel line hlimit filter' hpass ih =>
      obtain ⟨rows, hwithin, hstops⟩ := ih h
      refine ⟨line :: rows, within_cons_iff.mpr ⟨by simpa using hlimit, ?_⟩,
        stopsBehind_cons_iff.mpr ⟨hcancel, hstops⟩⟩
      rw [hpass]
      exact hwithin
  | case6 filter copied written cancelAfter more hcancel line hlimit filter' hpass ih =>
      obtain ⟨rows, hwithin, hstops⟩ := ih h
      refine ⟨line :: rows, within_cons_iff.mpr ⟨by simpa using hlimit, ?_⟩,
        stopsBehind_cons_iff.mpr ⟨hcancel, hstops⟩⟩
      rw [hpass]
      exact hwithin

/-- What stops a copy behind some lines stops it at once when only the lines behind
them are left. -/
theorem StopsBehind.exists_rest {source : CopySource} {front : List String}
    (h : StopsBehind source front f) : ∃ rest, source.lines = front.map .ok ++ rest ∧
      HaltsAt ⟨source.path, rest, source.cancelAfter.map (· - front.length)⟩ 0 f := by
  obtain ⟨⟨rest, hrest⟩, hlasts, hhalts⟩ := h
  refine ⟨rest, hrest.symm, ?_⟩
  cases hhalts with
  | onCancel hcancel =>
      apply HaltsAt.onCancel
      simp [hcancel]
  | onFault hcancel hline =>
      refine .onFault ?_ ?_
      · intro hnone
        obtain ⟨n, hn, hzero⟩ := Option.map_eq_some_iff.mp hnone
        have hle := hlasts n hn
        have heq : n = front.length := by omega
        exact hcancel (hn.trans (congrArg some heq))
      · rw [← hrest, List.getElem?_append_right (by simp)] at hline
        simpa using hline

/-- A copy that is stopped at once adds nothing to what was written. -/
theorem rowsFrom_of_haltsAt (h : HaltsAt ⟨path, source, cancelAfter⟩ 0 f) :
    rowsFrom selector limit path cancelAfter filter copied written source =
      ⟨written.reverse, copied, some f⟩ := by
  cases h with
  | onCancel hcancel =>
      have hcancel' : cancelAfter = some 0 := hcancel
      cases source with
      | nil => rw [rowsFrom, if_pos hcancel']
      | cons line more => cases line <;> rw [rowsFrom, if_pos hcancel']
  | onFault hcancel hline =>
      have hcancel' : cancelAfter ≠ some 0 := hcancel
      cases source with
      | nil => cases hline
      | cons line more =>
          cases hline
          rw [rowsFrom, if_neg hcancel']

/-! ## Copies behind a header -/

/-- Lines behind which a copy reads on: their header is accepted, and the limit allows the last
of their rows. -/
inductive ReadsOn (options : RunOptions) (plan : CopyPlan) : List String → Prop
  | atStart : ReadsOn options plan []
  | behind {header : String} {rows : List String} {selector : Option ColumnSelector}
      {filter : RowFilter} (hselector : selectorFor options header = .ok selector)
      (hfilter : filterFor options plan header = .ok filter)
      (hwithin : Within options.limit filter 0 rows) : ReadsOn options plan (header :: rows)

theorem lines_of_accepted {header : String} (hselector : selectorFor options header = .ok selector)
    (hfilter : filterFor options plan header = .ok filter) (hcancel : cancelAfter ≠ some 0) :
    lines options plan ⟨path, .ok header :: source, cancelAfter⟩ =
      rowsFrom selector options.limit path (cancelAfter.map (· - 1)) filter 0
        (if plan.skipHeader then [] else [project selector header]) source := by
  rw [lines, if_neg hcancel]
  simp only [hselector, hfilter]

/-- A copy goes on behind an accepted header and rows that nothing keeps it from. -/
theorem lines_append {header : String} {rows : List String}
    (hselector : selectorFor options header = .ok selector)
    (hfilter : filterFor options plan header = .ok filter)
    (hwithin : Within options.limit filter 0 rows) (hlasts : Lasts cancelAfter (rows.length + 1))
    (rest : List (Except LineFault String)) :
    lines options plan ⟨path, (header :: rows).map .ok ++ rest, cancelAfter⟩ =
      rowsFrom selector options.limit path (cancelAfter.map (· - (rows.length + 1)))
        (filter.after rows) (0 + (filter.passing rows).length)
        (((filter.passing rows).map (project selector)).reverse ++
          if plan.skipHeader then [] else [project selector header]) rest := by
  obtain ⟨hcancel, hlasts⟩ := lasts_succ_iff.mp hlasts
  rw [List.map_cons, List.cons_append, lines_of_accepted hselector hfilter hcancel,
    rowsFrom_append hwithin hlasts, map_sub_succ]

/-- Lines behind which a copy reads on leave it in some state, whatever comes behind them, and a
copy that finds nothing behind them ends in this state. -/
theorem ReadsOn.exists_state {front : List String} (h : ReadsOn options plan front)
    (hne : front ≠ []) :
    ∃ selector filter copied written,
      (∀ path, lines options plan ⟨path, front.map .ok, none⟩ = ⟨written.reverse, copied, none⟩) ∧
      ∀ path rest cancelAfter, Lasts cancelAfter front.length →
        lines options plan ⟨path, front.map .ok ++ rest, cancelAfter⟩ =
          rowsFrom selector options.limit path (cancelAfter.map (· - front.length)) filter copied
            written
            rest := by
  cases h with
  | atStart => exact absurd rfl hne
  | @behind header rows selector filter hselector hfilter hwithin =>
      refine ⟨selector, _, _, _, ?_, fun path rest cancelAfter hlasts =>
        lines_append hselector hfilter hwithin hlasts rest⟩
      intro path
      rw [← List.append_nil (List.map _ _), lines_append hselector hfilter hwithin (lasts_none _),
        rowsFrom]
      rfl

section Front

variable {source : CopySource} {front : List String}

/-- A copy of the lines in front alone is not stopped. -/
theorem failure_lines_front (hreads : ReadsOn options plan front) (path : Path) :
    (lines options plan ⟨path, front.map .ok, none⟩).failure = none := by
  by_cases hne : front = []
  · subst hne
    rfl
  · obtain ⟨selector, filter, copied, written, hfront, -⟩ := hreads.exists_state hne
    rw [hfront]

/-- A copy that is stopped behind some lines is the copy of these lines, but for the failure. -/
theorem lines_of_stopsBehind (hreads : ReadsOn options plan front)
    (hstops : StopsBehind source front f) :
    lines options plan source =
      { lines options plan ⟨source.path, front.map .ok, none⟩ with failure := some f } := by
  obtain ⟨rest, hrest, hhalts⟩ := hstops.exists_rest
  obtain ⟨path, all, cancelAfter⟩ := source
  subst hrest
  by_cases hne : front = []
  · -- nothing has been read
    subst hne
    cases hstops.halts with
    | onCancel hcancel =>
        have hcancel' : cancelAfter = some 0 := hcancel
        rw [lines, if_pos hcancel']
        rfl
    | onFault hcancel hline =>
        have hcancel' : cancelAfter ≠ some 0 := hcancel
        cases rest with
        | nil => cases hline
        | cons line more =>
            cases hline
            rw [lines, if_neg hcancel']
            rfl
  · obtain ⟨selector, filter, copied, written, hfront, hlines⟩ := hreads.exists_state hne
    rw [hlines path rest cancelAfter hstops.lasts, hfront, rowsFrom_of_haltsAt hhalts]

/-- A copy that gets behind some lines writes first what a copy of these lines writes. -/
theorem prefix_written_of_front (hreads : ReadsOn options plan front)
    {all : List (Except LineFault String)} (hfront : front.map .ok <+: all)
    (hlasts : Lasts cancelAfter front.length) :
    (lines options plan ⟨path, front.map .ok, none⟩).written <+:
      (lines options plan ⟨path, all, cancelAfter⟩).written := by
  obtain ⟨rest, rfl⟩ := hfront
  by_cases hne : front = []
  · subst hne
    exact List.nil_prefix
  · obtain ⟨selector, filter, copied, written, halone, hlines⟩ := hreads.exists_state hne
    rw [hlines path rest cancelAfter hlasts, halone]
    exact reverse_prefix_written_rowsFrom

end Front

/-- The failures of a copy: it rejects its header, or it is stopped at a read that it comes to. -/
theorem failure_lines_iff {source : CopySource} :
    (lines options plan source).failure = some f ↔
      (∃ header more, source.lines = .ok header :: more ∧ source.cancelAfter ≠ some 0 ∧
        Rejects options plan header f) ∨
      ∃ front, ReadsOn options plan front ∧ StopsBehind source front f := by
  constructor
  · intro h
    obtain ⟨path, all, cancelAfter⟩ := source
    by_cases hcancel : cancelAfter = some 0
    · rw [lines, if_pos hcancel] at h
      cases h
      exact .inr ⟨[], .atStart, stopsBehind_nil_iff.mpr (.onCancel hcancel)⟩
    · cases all with
      | nil =>
          rw [lines, if_neg hcancel] at h
          cases h
      | cons line more =>
          cases line with
          | error fault =>
              rw [lines, if_neg hcancel] at h
              cases h
              exact .inr ⟨[], .atStart, stopsBehind_nil_iff.mpr (.onFault hcancel rfl)⟩
          | ok header =>
              rcases rejects_or_ok options plan header with
                  ⟨g, hrejects⟩ | ⟨selector, filter, hs, hf⟩
              · rw [lines_of_rejects hrejects hcancel] at h
                cases h
                exact .inl ⟨header, more, rfl, hcancel, hrejects⟩
              -- behind an accepted header only a read of a row can stop the copy
              · rw [lines_of_accepted hs hf hcancel] at h
                obtain ⟨rows, hwithin, hstops⟩ := exists_stopsBehind_of_rowsFrom h
                exact .inr ⟨header :: rows, .behind hs hf hwithin,
                  stopsBehind_cons_iff.mpr ⟨hcancel, hstops⟩⟩
  · rintro (⟨header, more, hlines, hcancel, hrejects⟩ | ⟨front, hreads, hstops⟩)
    · obtain ⟨path, all, cancelAfter⟩ := source
      subst hlines
      rw [lines_of_rejects hrejects hcancel]
      rfl
    · rw [lines_of_stopsBehind hreads hstops]

/-! ## Copies of a file -/

/-- What a copy of a file leaves that is stopped behind so many lines. -/
structure LeavesFront (options : RunOptions) (plan : CopyPlan) (path : Path) (bytes : Bytes)
    (reads : Nat) (c : Copied) : Prop where
  /-- But for the failure it is the copy of a file that ends behind these lines. -/
  cut : lines options plan ⟨path, Lines.ofBytes (Lines.front reads bytes), none⟩ =
    { c with failure := none }
  /-- The bytes written are whole lines, each with its newline. -/
  whole : Lines.raw (Utf8.encode c.text) = c.written.map fun line => Utf8.encode line ++ [0x0A]
  /-- A copy that gets behind these lines, in whatever file they stand in front, writes the
  same bytes first. -/
  first : ∀ other cancelAfter, (Lines.raw other).take reads = (Lines.raw bytes).take reads →
    Lasts cancelAfter reads → Utf8.encode c.text <+:
      Utf8.encode (lines options plan ⟨path, Lines.ofBytes other, cancelAfter⟩).text

/-- How a copy of a file fails. -/
structure StopsCleanly (options : RunOptions) (plan : CopyPlan) (path : Path) (bytes : Bytes)
    (cancelAfter : Option Nat) (c : Copied) : Prop where
  /-- A copy that is cancelled from the start writes nothing. -/
  atOnce : cancelAfter = some 0 → c = .nothing (some cancelled)
  /-- Unless it rejects its header, a copy fails exactly when it is stopped at a read that
  it comes to. -/
  failure_iff : ∀ f, c.failure = some f ↔
    (∃ header more, Lines.ofBytes bytes = .ok header :: more ∧ cancelAfter ≠ some 0 ∧
      Rejects options plan header f) ∨
    ∃ front, ReadsOn options plan front ∧
      StopsBehind ⟨path, Lines.ofBytes bytes, cancelAfter⟩ front f
  /-- A copy that is stopped leaves what it makes of the lines before. -/
  leaves : ∀ front f, ReadsOn options plan front →
    StopsBehind ⟨path, Lines.ofBytes bytes, cancelAfter⟩ front f →
    LeavesFront options plan path bytes front.length c

theorem prefix_encode_text {c c' : Copied} (h : c.written <+: c'.written) :
    Utf8.encode c.text <+: Utf8.encode c'.text := by
  obtain ⟨rest, hrest⟩ := h
  rw [Copied.text_eq_unlines, Copied.text_eq_unlines, ← hrest, Lines.encode_unlines_append]
  exact List.prefix_append _ _

theorem leavesFront_of_stopsBehind {bytes : Bytes} {front : List String}
    (hreads : ReadsOn options plan front)
    (hstops : StopsBehind ⟨path, Lines.ofBytes bytes, cancelAfter⟩ front f) :
    LeavesFront options plan path bytes front.length
      (lines options plan ⟨path, Lines.ofBytes bytes, cancelAfter⟩) := by
  have hfront : front.map .ok = (Lines.ofBytes bytes).take front.length := by
    have htake := List.prefix_iff_eq_take.mp hstops.readable
    rwa [List.length_map] at htake
  have hcopy := lines_of_stopsBehind hreads hstops
  refine ⟨?_, ?_, ?_⟩
  · have hsucceeds := failure_lines_front hreads path
    rw [hcopy, Lines.ofBytes_front, ← hfront, ← hsucceeds]
  · rw [Copied.text_eq_unlines]
    apply Lines.raw_encode_unlines
    exact newline_not_mem_of_mem_written fun line hline =>
      Lines.newline_not_mem_of_mem_ofBytes hline
  · intro other cancelAfter' hsame hlasts
    -- the other file has the same lines in front, once they are read
    have hother : front.map .ok <+: Lines.ofBytes other := by
      rw [hfront, Lines.ofBytes, ← List.map_take, ← hsame, List.map_take]
      exact List.take_prefix _ _
    rw [hcopy]
    exact prefix_encode_text (prefix_written_of_front hreads hother hlasts)

/-- A copy of a file that is stopped at a read, by a line that cannot be read or by a cancellation,
has written what a copy of the lines before it writes. -/
theorem file_stops {fs : FileSystem} {bytes : Bytes}
    (hopen : fs.openToRead path = .ok (.content bytes)) (options : RunOptions) (plan : CopyPlan)
    (cancelAfter : Option Nat) :
    ∃ c, file fs path options plan cancelAfter = .ok c ∧
      StopsCleanly options plan path bytes cancelAfter c := by
  refine ⟨_, file_eq_ok_iff.mpr ⟨_, hopen, rfl⟩, ?_, ?_, ?_⟩
  · intro hcancel
    rw [lines, if_pos hcancel]
  · intro f
    exact failure_lines_iff
  · intro front f hreads hstops
    exact leavesFront_of_stopsBehind hreads hstops

/-- A copy of up to two rows. -/
def twoRows : RunOptions :=
  { RunOptions.between "in.csv" "out.csv" .fullRefresh with limit := some 2 }

/-- The second row cannot be read, and the first one stays written. -/
theorem file_stops_badRow :
    ∃ c fault,
      file (.ofFiles [("in.csv", Utf8.encode "id\n1\n" ++ [0xFF])]) ⟨"in.csv"⟩ twoRows .fresh
        none = .ok c ∧
      c.failure = some (unreadable ⟨"in.csv"⟩ fault) ∧
        Utf8.encode c.text = Utf8.encode "id\n1\n" := by
  obtain ⟨fault, hfault⟩ := Lines.exists_ofBytes_badByte
  have hwhole : ∀ line ∈ ["id", "1"], '\n' ∉ line.toList ∧ line.toList.getLast? ≠ some '\r' := by
    decide +kernel
  have hlines : Lines.ofBytes (Utf8.encode "id\n1\n" ++ [0xFF]) =
      [.ok "id", .ok "1", .error fault] := by
    rw [show "id\n1\n" = Lines.unlines ["id", "1"] from rfl,
      Lines.ofBytes_encode_unlines_append hwhole, hfault]
    rfl
  generalize Utf8.encode "id\n1\n" ++ [0xFF] = bytes at hlines ⊢
  have hopen : (FileSystem.ofFiles [("in.csv", bytes)]).openToRead ⟨"in.csv"⟩ =
      .ok (.content bytes) :=
    FileSystem.openToRead_of_find_file (FileSystem.find_of_isPlain (by decide +kernel) rfl)
  obtain ⟨c, hc, hstops⟩ := file_stops hopen twoRows .fresh none
  have hwithin : Within twoRows.limit ⟨[], none, ∅⟩ 0 ["1"] :=
    within_cons_iff.mpr ⟨rfl, within_nil⟩
  have hreads : ReadsOn twoRows .fresh ["id", "1"] := .behind rfl rfl hwithin
  have hstop : StopsBehind ⟨⟨"in.csv"⟩, Lines.ofBytes bytes, none⟩ ["id", "1"]
      (unreadable ⟨"in.csv"⟩ fault) := by
    rw [hlines]
    exact ⟨⟨[.error fault], rfl⟩, lasts_none _, .onFault nofun rfl⟩
  refine ⟨c, fault, hc, (hstops.failure_iff _).mpr (.inr ⟨_, hreads, hstop⟩), ?_⟩
  have hcut := (hstops.leaves _ _ hreads hstop).cut
  rw [Lines.ofBytes_front, hlines] at hcut
  have hwritten : c.written = ["id", "1"] := (congrArg Copied.written hcut).symm
  rw [Copied.text, hwritten]
  rfl

end Haulage.Copy
