import Std.Data.HashSet
import Haulage.Copy.Columns
import Haulage.Run.Task

/-!
# Copying rows

The first line of a source is its header: it decides the selector and the filter. Each later line
that the filter lets through is a row. A copy ends at the end of the source or at the line after the
last row that the limit allows. It stops early at a line that cannot be read, and when it is found
cancelled before a read; what was written before then stays written.

A filter lets a row through when its update value is newer than the watermark, if there is one, and
when no earlier row that came that far had the same key. The existing target decides about both the
header and the watermark: a mode that adds to the target skips the header if the target has one, and
an incremental run starts from the newest update value that the target holds.
-/

set_option autoImplicit false

namespace Haulage

open Haulage.Text

/-! ## Row filters -/

/-- The column of the update key and the newest value already loaded. -/
structure UpdateTest where
  column : Nat
  watermark : String
  deriving Repr

/-- The state of a filter: what it tests, and the keys it has let through. -/
structure RowFilter where
  keyColumns : List Nat
  update : Option UpdateTest
  seen : Std.HashSet String

namespace RowFilter

/-- The columns of a comma-separated list of key names, blank ones aside. -/
def readKeyColumns (header : String) (primaryKey : Option String) : Attempt (List Nat) :=
  match primaryKey with
  | none => .ok []
  | some names => Attempt.all (columnIndex header) ((fields names).filter (!isBlankText ·))

/-- The update test of a key and a watermark; without both there is none. -/
def readUpdateTest (header : String) (updateKey watermark : Option String) :
    Attempt (Option UpdateTest) :=
  match updateKey, watermark with
  | some key, some mark => (columnIndex header key).map fun i => some ⟨i, mark⟩
  | _, _ => .ok none

/-- The filter for a header. -/
def make (header : String) (primaryKey updateKey watermark : Option String) : Attempt RowFilter :=
  match readKeyColumns header primaryKey with
  | .error f => .error f
  | .ok keys =>
    match readUpdateTest header updateKey watermark with
    | .error f => .error f
    | .ok update => .ok ⟨keys, update, ∅⟩

/-- The key of a row: its key fields joined by a separator that texts do not use. -/
def keyOf (f : RowFilter) (fields : List String) : String :=
  join '\x1f' (f.keyColumns.map (fieldAt fields))

/-- Whether a row is newer than the watermark. -/
def isNewer (f : RowFilter) (fields : List String) : Bool :=
  match f.update with
  | none => true
  | some t => compareValues (fieldAt fields t.column) t.watermark == .gt

/-- Whether a line is let through, and the filter after it. -/
def pass (f : RowFilter) (line : String) : Bool × RowFilter :=
  let fields := trimmedFields line
  -- a row that is not newer leaves no trace, so a later row with its key can still pass
  if !f.isNewer fields then (false, f)
  else if f.keyColumns.isEmpty then (true, f)
  else
    let key := f.keyOf fields
    (!f.seen.contains key, { f with seen := f.seen.insert key })

end RowFilter

/-! ## Copy plans -/

/-- What a copy takes over from the target. -/
structure CopyPlan where
  /-- Whether the target already has a header line. -/
  skipHeader : Bool
  /-- The newest update value already loaded. -/
  watermark : Option String
  deriving Repr, DecidableEq

namespace CopyPlan

/-- The plan for a target that contributes nothing. -/
def fresh : CopyPlan :=
  ⟨false, none⟩

/-- The newer one of a watermark and a value; an empty value does not count. -/
def newest (mark : Option String) (value : String) : Option String :=
  if value.isEmpty then mark
  else
    match mark with
    | none => some value
    | some w => if compareValues value w = .gt then some value else some w

/-- The newest value of a column, given the newest one so far. -/
def watermarkFrom (column : Nat) (mark : Option String) :
    List (Except LineFault String) → Except LineFault (Option String)
  | [] => .ok mark
  | .error fault :: _ => .error fault
  | .ok line :: more =>
    match (fields line)[column]? with
    -- a row too short for the column has no update value
    | none => watermarkFrom column mark more
    | some field => watermarkFrom column (newest mark (trim field)) more

/-- The attempt to read lines. -/
def ofFault {α : Type} (r : Except LineFault α) : Attempt α :=
  match r with
  | .ok a => .ok a
  | .error fault => failWith (.line fault)

/-- The plan for the lines of a target. -/
def ofLines (target : Path) (options : RunOptions) :
    List (Except LineFault String) → Attempt CopyPlan
  | [] => .ok fresh
  | .error fault :: _ => failWith (.line fault)
  | .ok header :: rows =>
    match if options.isIncremental then options.updateKey else none with
    | none => .ok ⟨true, none⟩
    | some key =>
      match (columnIndex header key).during (.findUpdateKey target) with
      | .error f => .error f
      | .ok column => (ofFault (watermarkFrom column none rows)).map fun mark => ⟨true, mark⟩

/-- The plan for a target, which need not exist. -/
def forTarget (fs : FileSystem) (target : Path) (options : RunOptions) : Attempt CopyPlan :=
  if options.appends then
    match fs.openToRead target with
    | .error .noSuchFile => .ok fresh
    | .error e => (failWith (.system e)).during (.openTarget target)
    | .ok opened => ofLines target options (Lines.ofOpened opened)
  else .ok fresh

end CopyPlan

/-! ## Copies -/

/-- What a copy has written, and why it stopped early. -/
structure Copied where
  /-- The lines in order, without their newlines. -/
  written : List String
  /-- The number of data rows among them. -/
  rows : Nat
  failure : Option Failure

namespace Copied

/-- A copy that wrote nothing. -/
def nothing (failure : Option Failure) : Copied :=
  ⟨[], 0, failure⟩

/-- The number of bytes written, newlines included. -/
def bytes (c : Copied) : Nat :=
  c.written.foldr (fun line n => line.utf8ByteSize + 1 + n) 0

/-- The text written. -/
def text (c : Copied) : String :=
  String.join (c.written.map (· ++ "\n"))

end Copied

/-- The source of a copy: its path, its lines, and the number of reads after which the copy is found
cancelled. -/
structure CopySource where
  path : Path
  lines : List (Except LineFault String)
  cancelAfter : Option Nat

namespace Copy

/-- A line as the selector leaves it. -/
def project (selector : Option ColumnSelector) (line : String) : String :=
  match selector with
  | some s => s.apply line
  | none => line

/-- The failure of a cancelled copy. -/
def cancelled : Failure :=
  .of .cancelled

/-- The failure to read a line of a source. -/
def unreadable (path : Path) (fault : LineFault) : Failure :=
  (Failure.of (.line fault)).during (.readLine path)

/-- Whether so many rows are all that the limit allows. -/
def reached (limit : Option UInt64) (rows : Nat) : Bool :=
  limit.any fun n => n.toNat ≤ rows

/-- Copies the rows below the header; the lines written before come last one first. -/
def rowsFrom (selector : Option ColumnSelector) (limit : Option UInt64) (path : Path)
    (cancelAfter : Option Nat) (filter : RowFilter) (rows : Nat) (written : List String) :
    List (Except LineFault String) → Copied
  | [] => ⟨written.reverse, rows, if cancelAfter = some 0 then some cancelled else none⟩
  | line :: more =>
    if cancelAfter = some 0 then ⟨written.reverse, rows, some cancelled⟩
    else
      match line with
      | .error fault => ⟨written.reverse, rows, some (unreadable path fault)⟩
      | .ok line =>
        -- the line is read before the limit is looked at, so a bad line after the last
        -- row still counts
        if reached limit rows then ⟨written.reverse, rows, none⟩
        else
          match filter.pass line with
          | (true, filter) =>
            rowsFrom selector limit path (cancelAfter.map (· - 1)) filter (rows + 1)
              (project selector line :: written) more
          | (false, filter) =>
            rowsFrom selector limit path (cancelAfter.map (· - 1)) filter rows written more

/-- The selector that the options ask for. -/
def selectorFor (options : RunOptions) (header : String) : Attempt (Option ColumnSelector) :=
  match options.selection with
  | none => .ok none
  | some selection => (ColumnSelector.make selection header).map some

/-- The filter that the options and the plan ask for. -/
def filterFor (options : RunOptions) (plan : CopyPlan) (header : String) : Attempt RowFilter :=
  RowFilter.make header options.primaryKey options.updateKey plan.watermark

/-- Copies the lines of a source. -/
def lines (options : RunOptions) (plan : CopyPlan) (source : CopySource) : Copied :=
  if source.cancelAfter = some 0 then .nothing (some cancelled)
  else
    match source.lines with
    | [] => .nothing none
    | .error fault :: _ => .nothing (some (unreadable source.path fault))
    | .ok header :: more =>
      match selectorFor options header with
      | .error f => .nothing (some f)
      | .ok selector =>
        match filterFor options plan header with
        | .error f => .nothing (some f)
        | .ok filter =>
          -- the header is no row: it passes no filter and counts for no limit
          rowsFrom selector options.limit source.path (source.cancelAfter.map (· - 1)) filter 0
            (if plan.skipHeader then [] else [project selector header]) more

/-- Copies a file, once it can be opened. -/
def file (fs : FileSystem) (path : Path) (options : RunOptions) (plan : CopyPlan)
    (cancelAfter : Option Nat) : Attempt Copied :=
  match (Attempt.ofSystem (fs.openToRead path)).during (.openSource path) with
  | .error f => .error f
  | .ok opened => .ok (lines options plan ⟨path, Lines.ofOpened opened, cancelAfter⟩)

end Copy

end Haulage
