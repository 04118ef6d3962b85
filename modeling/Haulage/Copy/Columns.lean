import Haulage.Failure
import Haulage.Numeric.Binary64
import Haulage.Text.Basic

/-!
# Columns of a delimited line

A line is cut at its commas. Columns are named by the header; blanks around a name and the case of
its letters do not count, and the first column of a name is the one meant. A selection keeps the
columns it names, in its own order, or, when every name has a leading dash, all columns but those.

Two values that are both number literals compare as numbers; a NaN equals everything. Any other pair
compares as text.
-/

set_option autoImplicit false

namespace Haulage

open Haulage.Text Haulage.Numeric

/-- The fields of a line. -/
def fields (line : String) : List String :=
  split ',' line

/-- The fields of a line without the blanks around them. -/
def trimmedFields (line : String) : List String :=
  (fields line).map trim

/-- A field of a line; a field the line lacks is empty. -/
def fieldAt (fields : List String) (i : Nat) : String :=
  fields.getD i ""

/-- Index of the first column with a name. -/
def findColumn? (header name : String) : Option Nat :=
  (trimmedFields header).findIdx? (sameIgnoringCase · name)

/-- Index of the column that a key names, blanks around the key aside. -/
def columnIndex (header name : String) : Attempt Nat :=
  match findColumn? header (trim name) with
  | some i => .ok i
  | none => failWith (.noColumn name)

/-- The outcomes of a list of attempts, or the first failure. -/
def Attempt.all {α β : Type} (f : α → Attempt β) : List α → Attempt (List β)
  | [] => .ok []
  | a :: more =>
    match f a with
    | .error e => .error e
    | .ok b => (Attempt.all f more).map (b :: ·)

/-- The columns that a selection keeps, in order. -/
structure ColumnSelector where
  keep : List Nat
  deriving Repr

namespace ColumnSelector

/-- The names of a selection, blank ones aside. -/
def picks (selection : String) : List String :=
  (trimmedFields selection).filter (!·.isEmpty)

/-- Whether a name excludes its column. -/
def isExclusion (pick : String) : Bool :=
  pick.toList.head? == some '-'

/-- The name that an exclusion excludes. -/
def excludedName (pick : String) : String :=
  String.ofList (pick.toList.dropWhile (· == '-'))

/-- Index of the column that a pick names. -/
def pickIndex (header name : String) : Attempt Nat :=
  match findColumn? header name with
  | some i => .ok i
  | none => failWith (.noSourceColumn name)

/-- The selector of a selection for a header. -/
def make (selection header : String) : Attempt ColumnSelector :=
  let picks := picks selection
  if picks.all isExclusion then
    (Attempt.all (fun p => pickIndex header (excludedName p)) picks).map fun dropped =>
      ⟨(List.range (fields header).length).filter fun i => !dropped.contains i⟩
  else (Attempt.all (pickIndex header) picks).map ColumnSelector.mk

/-- The kept columns of a line. -/
def apply (s : ColumnSelector) (line : String) : String :=
  let fields := (fields line).toArray
  join ',' (s.keep.map fun i => fields.getD i "")

/-- Each kept column of a line is the field of that column. -/
theorem apply_eq_join (s : ColumnSelector) (line : String) :
    s.apply line = join ',' (s.keep.map (fieldAt (fields line))) := by
  have h : (fun i => (fields line).toArray.getD i "") = fieldAt (fields line) := by
    funext i
    simp [fieldAt, Array.getD_eq_getD_getElem?, List.getD_eq_getElem?_getD]
  simp only [apply, h]

end ColumnSelector

/-! ## Values -/

/-- The order of two texts by their characters. -/
def compareTexts (a b : String) : Ordering :=
  if a < b then .lt else if a = b then .eq else .gt

/-- The order of two column values. -/
def compareValues (a b : String) : Ordering :=
  match readLiteral? a, readLiteral? b with
  | some x, some y => (x.compare? y).getD .eq
  | _, _ => compareTexts a b

end Haulage
