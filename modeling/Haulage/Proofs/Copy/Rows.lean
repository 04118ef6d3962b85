import Haulage.Copy.Rows
import Haulage.Proofs.Files.Lines
import Haulage.Proofs.Text.Split

/-!
# What a copy writes

A copy writes its header, unless it skips it, and one line for each row that it counts. Every line
is made of the characters of a source line, so none holds a newline.

- `length_written_rowsFrom`, `written_rowsFrom`: what one row adds, carried along a whole source.
- `length_written_lines`: the number of lines of a copy.
- `exists_of_mem_written`: the line of the source that a line comes from.
- `newline_not_mem_of_mem_written`, `newline_not_mem_of_file`: no line holds a newline.
-/

set_option autoImplicit false

namespace Haulage

open Haulage.Utf8

/-! ## Text and bytes -/

theorem Copied.text_eq_unlines (c : Copied) : c.text = Lines.unlines c.written :=
  rfl

/-- The number of bytes written is the size of the text. -/
theorem Copied.length_encode_text (c : Copied) : (encode c.text).length = c.bytes := by
  rw [text_eq_unlines, bytes]
  induction c.written with
  | nil => rfl
  | cons line more ih =>
      rw [Lines.encode_unlines_cons, List.length_append, List.length_append, length_encode, ih]
      rfl

namespace Copy

/-! ## Lines that hold no newline -/

theorem newline_not_mem_project {selector : Option ColumnSelector} {line : String}
    (h : '\n' ∉ line.toList) : '\n' ∉ (project selector line).toList := by
  cases selector with
  | none => exact h
  | some s => exact s.newline_not_mem_apply h

section RowsFrom

variable {selector : Option ColumnSelector} {limit : Option UInt64} {path : Path}
  {cancelAfter : Option Nat} {filter : RowFilter} {rows : Nat} {written : List String}
  {source : List (Except LineFault String)}

/-- Each row that is counted is written. -/
theorem length_written_rowsFrom :
    (rowsFrom selector limit path cancelAfter filter rows written source).written.length + rows =
      (rowsFrom selector limit path cancelAfter filter rows written source).rows +
        written.length := by
  fun_induction rowsFrom selector limit path cancelAfter filter rows written source with
  | case1 => simp [Nat.add_comm]
  | case2 => simp [Nat.add_comm]
  | case3 => simp [Nat.add_comm]
  | case4 => simp [Nat.add_comm]
  | case5 filter rows written cancelAfter more hcancel line hlimit filter' hpass ih =>
      -- a row that passes adds one to both sides
      rw [List.length_cons] at ih
      omega
  | case6 filter rows written cancelAfter more hcancel line hlimit filter' hpass ih => exact ih

/-- What holds of the lines written before and of each projected line of the source holds of
all lines written. -/
theorem written_rowsFrom {P : String → Prop} (hwritten : ∀ line ∈ written, P line)
    (hsource : ∀ line, .ok line ∈ source → P (project selector line)) :
    ∀ line ∈ (rowsFrom selector limit path cancelAfter filter rows written source).written,
      P line := by
  fun_induction rowsFrom selector limit path cancelAfter filter rows written source with
  | case1 => simpa using hwritten
  | case2 => simpa using hwritten
  | case3 => simpa using hwritten
  | case4 => simpa using hwritten
  | case5 filter rows written cancelAfter more hcancel line hlimit filter' hpass ih =>
      refine ih ?_ fun l hl => hsource l (List.mem_cons_of_mem _ hl)
      intro l hl
      rcases List.mem_cons.mp hl with rfl | hl
      · exact hsource line List.mem_cons_self
      · exact hwritten l hl
  | case6 filter rows written cancelAfter more hcancel line hlimit filter' hpass ih =>
      exact ih hwritten fun l hl => hsource l (List.mem_cons_of_mem _ hl)

end RowsFrom

section Lines

variable {options : RunOptions} {plan : CopyPlan} {source : CopySource}

/-- A copy that does not fail: of an empty source nothing is written, of any other one the header
and then the rows. -/
theorem lines_of_succeeds (h : (lines options plan source).failure = none) :
    source.lines = [] ∧ lines options plan source = .nothing none ∨
      ∃ header more selector filter,
        source.lines = .ok header :: more ∧ selectorFor options header = .ok selector ∧
        filterFor options plan header = .ok filter ∧
        lines options plan source =
          rowsFrom selector options.limit source.path (source.cancelAfter.map (· - 1)) filter 0
            (if plan.skipHeader then [] else [project selector header]) more := by
  rw [lines] at h ⊢
  split at h
  · cases h
  · rename_i hcancel
    rw [if_neg hcancel]
    split at h
    · rename_i hnil
      exact .inl ⟨hnil, rfl⟩
    · cases h
    · rename_i header more hcons
      split at h
      · cases h
      · rename_i selector hselector
        split at h
        · cases h
        · rename_i filter hfilter
          exact .inr ⟨header, more, selector, filter, hcons, hselector, hfilter, rfl⟩

/-- The number of header lines that a copy writes, given whether its source is empty. -/
def headerLines (plan : CopyPlan) (sourceEmpty : Bool) : Nat :=
  if plan.skipHeader || sourceEmpty then 0 else 1

/-- A copy writes its header lines and its rows. -/
theorem length_written_lines (h : (lines options plan source).failure = none) :
    (lines options plan source).written.length =
      (lines options plan source).rows + headerLines plan source.lines.isEmpty := by
  rcases lines_of_succeeds h with ⟨hnil, heq⟩ | ⟨header, more, selector, filter, hcons, -, -, heq⟩
  · rw [heq, hnil]
    simp [Copied.nothing, headerLines]
  · rw [heq, hcons]
    have hheader : (if plan.skipHeader then [] else [project selector header]).length =
        headerLines plan false := by
      cases hskip : plan.skipHeader <;> simp [headerLines, hskip]
    rw [List.isEmpty_cons, ← hheader, ← length_written_rowsFrom, Nat.add_zero]

/-- Each line that is written is a line of the source as the selector leaves it, whether the copy
fails or not. -/
theorem exists_of_mem_written {line : String} (hline : line ∈ (lines options plan source).written) :
    ∃ header more selector, source.lines = .ok header :: more ∧
      selectorFor options header = .ok selector ∧
      ∃ sourceLine, .ok sourceLine ∈ source.lines ∧ line = project selector sourceLine := by
  rw [lines] at hline
  split at hline
  · cases hline
  · split at hline
    · cases hline
    · cases hline
    · rename_i header more hcons
      split at hline
      · cases hline
      · rename_i selector hselector
        split at hline
        · cases hline
        · refine ⟨header, more, selector, hcons, hselector, ?_⟩
          -- the header is written first, and then rows
          refine written_rowsFrom (P := fun line => ∃ sourceLine, .ok sourceLine ∈ source.lines ∧
            line = project selector sourceLine) ?_ ?_ line hline
          · intro written hwritten
            split at hwritten
            · cases hwritten
            · rw [hcons]
              exact ⟨header, List.mem_cons_self, List.mem_singleton.mp hwritten⟩
          · intro row hrow
            rw [hcons]
            exact ⟨row, List.mem_cons_of_mem _ hrow, rfl⟩

/-- No line that is written holds a newline when none of the source does. -/
theorem newline_not_mem_of_mem_written
    (hsource : ∀ line, .ok line ∈ source.lines → '\n' ∉ line.toList) :
    ∀ line ∈ (lines options plan source).written, '\n' ∉ line.toList := by
  intro line hline
  obtain ⟨_, _, selector, -, -, sourceLine, hsourceLine, rfl⟩ := exists_of_mem_written hline
  exact newline_not_mem_project (hsource sourceLine hsourceLine)

end Lines

/-! ## The lines of a file -/

section File

variable {fs : FileSystem} {path : Path} {options : RunOptions} {plan : CopyPlan}
  {cancelAfter : Option Nat} {c : Copied}

theorem file_eq_ok_iff :
    file fs path options plan cancelAfter = .ok c ↔
      ∃ opened, fs.openToRead path = .ok opened ∧
        lines options plan ⟨path, Lines.ofOpened opened, cancelAfter⟩ = c := by
  rw [file]
  cases hopen : fs.openToRead path with
  | error e => simp [Attempt.ofSystem, Attempt.during, failWith]
  | ok opened => simp [Attempt.ofSystem, Attempt.during]

theorem newline_not_mem_of_file (h : file fs path options plan cancelAfter = .ok c) :
    ∀ line ∈ c.written, '\n' ∉ line.toList := by
  obtain ⟨opened, -, rfl⟩ := file_eq_ok_iff.mp h
  exact newline_not_mem_of_mem_written fun line hline => Lines.newline_not_mem_of_mem_ofOpened hline

end File

end Copy

end Haulage
