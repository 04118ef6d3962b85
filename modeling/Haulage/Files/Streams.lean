import Haulage.Files.FileSystem
import Haulage.Text.Utf8

/-!
# Reading lines and writing through a buffer

A line ends at a newline or at the end of the file; an unterminated last line counts when it is not
empty. One carriage return before the newline belongs to the line end. Each line must be UTF-8 by
itself, and a flaw is counted from the start of its line.

What is written collects in a buffer of 8192 bytes. A chunk that does not fit sends the buffer on
first, and a chunk of at least the buffer's size is sent on by itself. What is still in the buffer
when the writer is given up is lost; a flush sends it on.
-/

set_option autoImplicit false

namespace Haulage

/-! ## Lines -/

/-- Why a line cannot be read. -/
inductive LineFault where
  | notText (flaw : Utf8.Flaw)
  | unreadable (e : OsError)
  deriving Repr, DecidableEq

/-- The wording of a fault. -/
def LineFault.message : LineFault → String
  | .notText flaw => flaw.message
  | .unreadable e => e.message

namespace Lines

/-- The bytes of each line with its newline; the current line and the lines before it come
reversed. -/
def rawFrom (done : List Bytes) (current : Bytes) : Bytes → List Bytes
  | [] => (if current.isEmpty then done else current.reverse :: done).reverse
  | b :: rest =>
    if b = 0x0A then rawFrom ((b :: current).reverse :: done) [] rest
    else rawFrom done (b :: current) rest

/-- The bytes of each line with its newline. -/
def raw (bytes : Bytes) : List Bytes :=
  rawFrom [] [] bytes

theorem flatten_rawFrom (done : List Bytes) (current bytes : Bytes) :
    (rawFrom done current bytes).flatten = done.reverse.flatten ++ current.reverse ++ bytes := by
  induction bytes generalizing done current with
  | nil => by_cases h : current.isEmpty <;> simp_all [rawFrom]
  | cons b rest ih =>
    by_cases h : b = 0x0A
    · simp [rawFrom, h, ih]
    · simp [rawFrom, h, ih]

/-- The lines with their newlines make up the content. -/
theorem flatten_raw (bytes : Bytes) : (raw bytes).flatten = bytes := by
  simp [raw, flatten_rawFrom]

/-- The characters of a line without its end. -/
def dropEnd (s : List Char) : List Char :=
  if s.getLast? = some '\n' then
    let body := s.dropLast
    if body.getLast? = some '\r' then body.dropLast else body
  else s

/-- The text of a line, given its bytes. -/
def ofRaw (bytes : Bytes) : Except LineFault String :=
  match Utf8.decodeChars bytes with
  | .ok s => .ok (String.ofList (dropEnd s))
  | .error flaw => .error (.notText flaw)

/-- The lines of a content, each of them a text or a fault. -/
def ofBytes (bytes : Bytes) : List (Except LineFault String) :=
  (raw bytes).map ofRaw

/-- The lines of an opened entry; an unreadable one fails at its first line. -/
def ofOpened : FileSystem.Opened → List (Except LineFault String)
  | .content bytes => ofBytes bytes
  | .unreadable e => [.error (.unreadable e)]

end Lines

/-! ## Buffered writing -/

/-- A writer with what it has sent on and what it still holds, each with the last chunk first. -/
structure Buffered where
  sent : List Bytes
  held : List Bytes
  used : Nat

namespace Buffered

/-- Size of the buffer in bytes. -/
def capacity : Nat :=
  8192

/-- A writer that has seen nothing. -/
def empty : Buffered :=
  ⟨[], [], 0⟩

/-- Sends on what is held. -/
def flush (w : Buffered) : Buffered :=
  ⟨w.held ++ w.sent, [], 0⟩

/-- Accepts a chunk. -/
def write (w : Buffered) (chunk : Bytes) : Buffered :=
  let w := if capacity < w.used + chunk.length then w.flush else w
  -- the buffer is empty here when the chunk is this large
  if capacity ≤ chunk.length then { w with sent := chunk :: w.sent }
  else { w with held := chunk :: w.held, used := w.used + chunk.length }

/-- The bytes sent on so far. -/
def delivered (w : Buffered) : Bytes :=
  w.sent.reverse.flatten

/-- All bytes accepted so far. -/
def accepted (w : Buffered) : Bytes :=
  w.sent.reverse.flatten ++ w.held.reverse.flatten

/-- A flush delivers all that was accepted. -/
theorem delivered_flush (w : Buffered) : w.flush.delivered = w.accepted := by
  simp [delivered, accepted, flush]

/-- A writer that knows how many bytes it holds. -/
def Counted (w : Buffered) : Prop :=
  w.used = w.held.reverse.flatten.length

theorem counted_empty : empty.Counted :=
  rfl

theorem counted_write {w : Buffered} (h : w.Counted) (chunk : Bytes) : (w.write chunk).Counted := by
  unfold write
  by_cases hfit : capacity < w.used + chunk.length
  · by_cases hbig : capacity ≤ chunk.length <;> simp [Counted, flush, hfit, hbig]
  · simp only [hfit, if_false]
    by_cases hbig : capacity ≤ chunk.length
    · rw [if_pos hbig]
      exact h
    · unfold Counted at h
      simp [Counted, hbig, h]

/-- A write adds its chunk to what was accepted. -/
theorem accepted_write {w : Buffered} (h : w.Counted) (chunk : Bytes) :
    (w.write chunk).accepted = w.accepted ++ chunk := by
  unfold Counted at h
  unfold write
  by_cases hfit : capacity < w.used + chunk.length
  · by_cases hbig : capacity ≤ chunk.length <;> simp [accepted, flush, hfit, hbig]
  · by_cases hbig : capacity ≤ chunk.length
    · -- a chunk this large fits only into a buffer that holds no byte
      have hzero : w.held.reverse.flatten = [] := List.length_eq_zero_iff.mp (by omega)
      simp [accepted, hfit, hbig, hzero]
    · simp [accepted, hfit, hbig]

theorem accepted_foldl_write {w : Buffered} (h : w.Counted) (chunks : List Bytes) :
    (chunks.foldl write w).accepted = w.accepted ++ chunks.flatten := by
  induction chunks generalizing w with
  | nil => simp
  | cons chunk more ih =>
    rw [List.foldl_cons, ih (counted_write h chunk), accepted_write h, List.flatten_cons,
      List.append_assoc]

/-- Once flushed, a writer has delivered all chunks in their order. -/
theorem delivered_flush_foldl_write (chunks : List Bytes) :
    (chunks.foldl write empty).flush.delivered = chunks.flatten := by
  rw [delivered_flush, accepted_foldl_write counted_empty]
  rfl

end Buffered

end Haulage
