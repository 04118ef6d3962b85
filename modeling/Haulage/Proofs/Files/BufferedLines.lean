import Haulage.Files.Streams
import Haulage.Proofs.Files.Lines
import Mathlib.Data.List.Induction

/-!
# Lines in a buffer

A line is put into a buffer by two writes: its text, and then its newline. A line that leaves room
for its newline stays with what is held. A longer one sends all lines before it on. A line that
fills the buffer to its last byte, or that is as large as the buffer, goes out as well, but its
newline stays behind. Nothing else makes room, so what has left the buffer are lines with their
newlines, but for the last one when it was parted from its own.

- `putLine_of_room`, `putLine_of_full`, `putLine_of_parts`: what one line does.
- `reach_putLines`: what has left the buffer after any lines.
- `delivered_of_parts`: a last line that goes out without its newline.
- `delivered_whole_iff`: when only whole lines have left the buffer.
- `not_torn_of_room`: lines that fit into the buffer together.
-/

set_option autoImplicit false

namespace Haulage.Buffered

open Haulage.Utf8

/-! ## One chunk -/

/-- A writer that knows how much it holds, which is no more than it can. -/
structure Sound (w : Buffered) : Prop where
  counted : w.Counted
  bounded : w.used ≤ capacity

variable {w : Buffered} {chunk : Bytes}

theorem write_of_room (hsmall : chunk.length < capacity)
    (hroom : w.used + chunk.length ≤ capacity) :
    w.write chunk = { w with held := chunk :: w.held, used := w.used + chunk.length } := by
  rw [write, if_neg (Nat.not_lt.mpr hroom), if_neg (Nat.not_le.mpr hsmall)]

theorem write_of_full (hsmall : chunk.length < capacity)
    (hfull : capacity < w.used + chunk.length) :
    w.write chunk = ⟨w.held ++ w.sent, [chunk], chunk.length⟩ := by
  rw [write, if_pos hfull, if_neg (Nat.not_le.mpr hsmall), flush, Nat.zero_add]

/-- A chunk as large as the buffer goes out behind all that was held. -/
theorem write_of_large (hw : w.Sound) (hlarge : capacity ≤ chunk.length) :
    (w.write chunk).delivered = w.accepted ++ chunk ∧ (w.write chunk).used = 0 := by
  rw [write, if_pos hlarge]
  by_cases hfull : capacity < w.used + chunk.length
  · rw [if_pos hfull]
    exact ⟨by simp [delivered, accepted, flush], rfl⟩
  · -- it fits only into a buffer that holds nothing
    rw [if_neg hfull]
    have hzero : w.used = 0 := by omega
    have hheld : w.held.reverse.flatten = [] :=
      List.length_eq_zero_iff.mp (hw.counted.symm.trans hzero)
    exact ⟨by simp [delivered, accepted, hheld], hzero⟩

/-! ## One line -/

/-- Puts a line into a writer: its text and then its newline. -/
def putLine (w : Buffered) (line : String) : Buffered :=
  (w.write (encode line)).write [0x0A]

/-- A line of the given size goes out without its newline: it is as large as the buffer, or it fills
the buffer to the last byte. -/
def Parts (used size : Nat) : Prop :=
  capacity ≤ size ∨ used + size = capacity

instance (used size : Nat) : Decidable (Parts used size) :=
  inferInstanceAs (Decidable (capacity ≤ size ∨ used + size = capacity))

theorem not_parts_iff {used size : Nat} :
    ¬Parts used size ↔ size < capacity ∧ used + size ≠ capacity := by
  rw [Parts, not_or, Nat.not_le]

/-- The number of bytes held after a line, given the number held before. -/
def heldAfter (used size : Nat) : Nat :=
  if used + size < capacity then used + size + 1
  else if Parts used size then 1
  else size + 1

variable {line : String}

theorem accepted_putLine (hw : w.Sound) (line : String) :
    (w.putLine line).accepted = w.accepted ++ encode line ++ [0x0A] := by
  rw [putLine, accepted_write (counted_write hw.counted _), accepted_write hw.counted]

/-- A newline goes behind what is held. -/
theorem write_newline_of_room (h : w.used < capacity) :
    (w.write [0x0A]).delivered = w.delivered ∧ (w.write [0x0A]).used = w.used + 1 := by
  have hroom : w.used + [(0x0A : UInt8)].length ≤ capacity := h
  rw [write_of_room (by decide) hroom]
  exact ⟨rfl, rfl⟩

/-- A newline for which there is no room sends on what was held. -/
theorem write_newline_of_full (h : w.used = capacity) :
    (w.write [0x0A]).delivered = w.accepted ∧ (w.write [0x0A]).used = 1 := by
  have hfull : capacity < w.used + [(0x0A : UInt8)].length := by
    rw [h]
    decide
  rw [write_of_full (by decide) hfull]
  exact ⟨by simp [delivered, accepted], rfl⟩

/-- A line that leaves room for its newline stays. -/
theorem putLine_of_room (h : w.used + (encode line).length < capacity) :
    (w.putLine line).delivered = w.delivered ∧
      (w.putLine line).used = w.used + (encode line).length + 1 := by
  have hwrite : w.write (encode line) =
      { w with held := encode line :: w.held, used := w.used + (encode line).length } :=
    write_of_room (by omega) (by omega)
  have hused : (w.write (encode line)).used = w.used + (encode line).length := by rw [hwrite]
  have hsent : (w.write (encode line)).delivered = w.delivered := by rw [hwrite]; rfl
  rw [putLine, ← hused, ← hsent]
  exact write_newline_of_room (by omega)

/-- A line that does not fit sends on all that was held. -/
theorem putLine_of_full (hfull : capacity < w.used + (encode line).length)
    (hsmall : (encode line).length < capacity) :
    (w.putLine line).delivered = w.accepted ∧
      (w.putLine line).used = (encode line).length + 1 := by
  have hwrite := write_of_full hsmall hfull
  have hused : (w.write (encode line)).used = (encode line).length := by rw [hwrite]
  have hsent : (w.write (encode line)).delivered = w.accepted := by
    rw [hwrite]
    simp [delivered, accepted]
  rw [putLine, ← hused, ← hsent]
  exact write_newline_of_room (by omega)

/-- A line that is parted from its newline goes out behind all that was held. -/
theorem putLine_of_parts (hw : w.Sound) (h : Parts w.used (encode line).length) :
    (w.putLine line).delivered = w.accepted ++ encode line ∧ (w.putLine line).used = 1 := by
  by_cases hlarge : capacity ≤ (encode line).length
  · -- the line goes out by itself, and its newline is the first byte that is held
    obtain ⟨hsent, hused⟩ := write_of_large hw hlarge
    have hroom : (w.write (encode line)).used < capacity := by
      rw [hused]
      decide
    obtain ⟨hsent', hused'⟩ := write_newline_of_room hroom
    exact ⟨hsent'.trans hsent, by rw [putLine, hused', hused]⟩
  · -- the line fits, but its newline does not
    have hsum : w.used + (encode line).length = capacity := h.resolve_left hlarge
    have hwrite : w.write (encode line) =
        { w with held := encode line :: w.held, used := w.used + (encode line).length } :=
      write_of_room (by omega) (by omega)
    have hfull : (w.write (encode line)).used = capacity := by rw [hwrite, ← hsum]
    obtain ⟨hsent, hused⟩ := write_newline_of_full hfull
    rw [accepted_write hw.counted] at hsent
    exact ⟨hsent, hused⟩

theorem used_putLine (hw : w.Sound) (line : String) :
    (w.putLine line).used = heldAfter w.used (encode line).length := by
  rw [heldAfter]
  split
  · rename_i hroom
    exact (putLine_of_room hroom).2
  · split
    · rename_i hparts
      exact (putLine_of_parts hw hparts).2
    · rename_i hroom hparts
      obtain ⟨hsmall, hne⟩ := not_parts_iff.mp hparts
      exact (putLine_of_full (by omega) hsmall).2

theorem heldAfter_le (used size : Nat) : heldAfter used size ≤ capacity := by
  rw [heldAfter]
  split
  · omega
  · split
    · decide
    · rename_i hparts
      exact (not_parts_iff.mp hparts).1

theorem sound_empty : empty.Sound :=
  ⟨counted_empty, Nat.zero_le _⟩

theorem sound_putLine (hw : w.Sound) (line : String) : (w.putLine line).Sound := by
  refine ⟨counted_write (counted_write hw.counted _) _, ?_⟩
  rw [used_putLine hw]
  exact heldAfter_le _ _

/-! ## Any lines -/

/-- A writer into which lines have been put. -/
def putLines (lines : List String) : Buffered :=
  lines.foldl putLine empty

theorem putLines_append_singleton (lines : List String) (line : String) :
    putLines (lines ++ [line]) = (putLines lines).putLine line := by
  rw [putLines, List.foldl_append]
  rfl

theorem sound_putLines (lines : List String) : (putLines lines).Sound := by
  induction lines using List.reverseRecOn with
  | nil => exact sound_empty
  | append_singleton lines line ih =>
      rw [putLines_append_singleton]
      exact sound_putLine ih line

theorem encode_unlines_append_singleton (lines : List String) (line : String) :
    encode (Lines.unlines (lines ++ [line])) =
      encode (Lines.unlines lines) ++ encode line ++ [0x0A] := by
  rw [Lines.encode_unlines_append, Lines.encode_unlines_cons, ← List.append_assoc,
    ← List.append_assoc]
  exact List.append_nil _

theorem accepted_putLines (lines : List String) :
    (putLines lines).accepted = encode (Lines.unlines lines) := by
  induction lines using List.reverseRecOn with
  | nil => rfl
  | append_singleton lines line ih =>
      rw [putLines_append_singleton, accepted_putLine (sound_putLines lines), ih,
        encode_unlines_append_singleton]

/-- How far lines have got: the bytes that have left the buffer, and the number of those held. -/
inductive Reach : List String → Bytes → Nat → Prop where
  /-- Some lines have left, and the rest is held. -/
  | whole (done rest : List String) :
      Reach (done ++ rest) (encode (Lines.unlines done)) (encode (Lines.unlines rest)).length
  /-- The last line that has left is parted from its newline, which is held with the rest. -/
  | parted (done rest : List String) (line : String) :
      Parts (putLines done).used (encode line).length →
      Reach (done ++ line :: rest) (encode (Lines.unlines done) ++ encode line)
        ((encode (Lines.unlines rest)).length + 1)

theorem Reach.of_room {lines : List String} {reached : Bytes} {used : Nat}
    (h : Reach lines reached used) (line : String) :
    Reach (lines ++ [line]) reached (used + (encode line).length + 1) := by
  -- nothing leaves, so the line joins the rest that is held
  cases h with
  | whole done rest =>
      have hreach := Reach.whole done (rest ++ [line])
      rw [encode_unlines_append_singleton, List.length_append, List.length_append,
        ← List.append_assoc] at hreach
      exact hreach
  | parted done rest last hparts =>
      have hreach := Reach.parted done (rest ++ [line]) last hparts
      rw [encode_unlines_append_singleton, List.length_append, List.length_append] at hreach
      rw [List.append_assoc, List.cons_append]
      convert hreach using 1
      simp only [List.length_singleton]
      omega

/-- What a line does about how far the lines have got. -/
theorem reach_append_singleton {lines : List String} (line : String)
    (h : Reach lines (putLines lines).delivered (putLines lines).used) :
    Reach (lines ++ [line]) (putLines (lines ++ [line])).delivered
      (putLines (lines ++ [line])).used := by
  have hw := sound_putLines lines
  rw [putLines_append_singleton]
  by_cases hroom : (putLines lines).used + (encode line).length < capacity
  · obtain ⟨hsent, hused⟩ := putLine_of_room hroom
    rw [hsent, hused]
    exact h.of_room line
  · by_cases hparts : Parts (putLines lines).used (encode line).length
    · obtain ⟨hsent, hused⟩ := putLine_of_parts hw hparts
      rw [hsent, hused, accepted_putLines]
      exact .parted lines [] line hparts
    · obtain ⟨hsmall, hne⟩ := not_parts_iff.mp hparts
      have hfull : capacity < (putLines lines).used + (encode line).length := by omega
      obtain ⟨hsent, hused⟩ := putLine_of_full hfull hsmall
      -- all lines before this one are out, and it is all that is held
      rw [hsent, hused, accepted_putLines]
      have hreach := Reach.whole lines [line]
      rw [Lines.encode_unlines_cons, List.length_append, List.length_append] at hreach
      exact hreach

theorem reach_putLines (lines : List String) :
    Reach lines (putLines lines).delivered (putLines lines).used := by
  induction lines using List.reverseRecOn with
  | nil => exact .whole [] []
  | append_singleton lines line ih => exact reach_append_singleton line ih

/-! ## Lines that leave nothing behind -/

/-- Lines for which there is room send nothing on. -/
theorem delivered_foldl_putLine_of_room {lines : List String}
    (h : w.used + (encode (Lines.unlines lines)).length ≤ capacity) :
    (lines.foldl putLine w).delivered = w.delivered := by
  -- from the front, as the room only shrinks
  induction lines generalizing w with
  | nil => rfl
  | cons line more ih =>
      rw [Lines.encode_unlines_cons, List.length_append, List.length_append,
        List.length_singleton] at h
      have hroom : w.used + (encode line).length < capacity := by omega
      obtain ⟨hsent, hused⟩ := putLine_of_room hroom
      rw [List.foldl_cons, ih (by omega), hsent]

/-- The number of bytes held after lines, by their sizes alone. -/
def heldBy (lines : List String) : Nat :=
  lines.foldl (fun used line => heldAfter used (encode line).length) 0

theorem heldBy_append_singleton (lines : List String) (line : String) :
    heldBy (lines ++ [line]) = heldAfter (heldBy lines) (encode line).length := by
  rw [heldBy, List.foldl_append]
  rfl

theorem used_putLines (lines : List String) : (putLines lines).used = heldBy lines := by
  induction lines using List.reverseRecOn with
  | nil => rfl
  | append_singleton lines line ih =>
      rw [putLines_append_singleton, used_putLine (sound_putLines lines), ih,
        heldBy_append_singleton]

/-- The last line that has left the buffer is parted from its newline: the lines behind it fit into
the buffer beside that newline. -/
def Torn (lines : List String) : Prop :=
  ∃ done line rest, lines = done ++ line :: rest ∧ line ≠ "" ∧
    Parts (heldBy done) (encode line).length ∧ (encode (Lines.unlines rest)).length < capacity

/-- A line that is parted from its newline is the last to leave while what follows fits. -/
theorem delivered_of_parts {done rest : List String} {line : String}
    (hparts : Parts (heldBy done) (encode line).length)
    (hrest : (encode (Lines.unlines rest)).length < capacity) :
    (putLines (done ++ line :: rest)).delivered = encode (Lines.unlines done) ++ encode line := by
  rw [← used_putLines] at hparts
  obtain ⟨hsent, hused⟩ := putLine_of_parts (sound_putLines done) hparts
  have hroom : ((putLines done).putLine line).used + (encode (Lines.unlines rest)).length ≤
      capacity := by omega
  rw [← accepted_putLines, ← hsent, ← delivered_foldl_putLine_of_room hroom, putLines,
    List.foldl_append]
  rfl

/-- Unless a line is torn, what has left the buffer are whole lines. -/
theorem delivered_of_not_torn {lines : List String} (h : ¬Torn lines) :
    ∃ done, done <+: lines ∧ (putLines lines).delivered = encode (Lines.unlines done) := by
  have hbounded := (sound_putLines lines).bounded
  have hreach := reach_putLines lines
  -- what is held with a newline left behind fits into the buffer, as a torn line asks
  generalize (putLines lines).delivered = reached at hreach ⊢
  generalize (putLines lines).used = used at hreach hbounded
  cases hreach with
  | whole done rest => exact ⟨done, List.prefix_append .., rfl⟩
  | parted done rest line hparts =>
      rw [used_putLines] at hparts
      by_cases hline : line = ""
      · -- of an empty line nothing goes out
        subst hline
        exact ⟨done, List.prefix_append .., List.append_nil _⟩
      · exact absurd ⟨done, line, rest, rfl, hline, hparts, hbounded⟩ h

/-- The end of a line without its newline is the end of no whole line. -/
theorem not_whole_of_parts {front : Bytes} {line : String} (hline : line ≠ "")
    (hnewline : '\n' ∉ line.toList) (lines : List String) :
    front ++ encode line ≠ encode (Lines.unlines lines) := by
  intro h
  have hne : encode line ≠ [] := fun e => hline (encode_eq_nil_iff.mp e)
  have hlines : lines ≠ [] := by
    rintro rfl
    exact hne (List.append_eq_nil_iff.mp h).2
  have hend : (encode (Lines.unlines lines)).getLast? = some 0x0A :=
    @Lines.getLast?_append_encode_unlines [] lines (.inr hlines)
  rw [← h, List.getLast?_append] at hend
  cases hlast : (encode line).getLast? with
  | none => exact hne (List.getLast?_eq_none_iff.mp hlast)
  | some b =>
      rw [hlast, Option.some_or, Option.some.injEq] at hend
      subst hend
      exact hnewline (newline_mem_encodeChars_iff.mp (List.mem_of_getLast? hlast))

/-- Only whole lines have left the buffer exactly when no line is torn. -/
theorem delivered_whole_iff {lines : List String} (hlines : ∀ line ∈ lines, '\n' ∉ line.toList) :
    (∃ done, done <+: lines ∧ (putLines lines).delivered = encode (Lines.unlines done)) ↔
      ¬Torn lines := by
  constructor
  · -- a torn line would have to be the end of a whole one
    rintro ⟨whole, -, hwhole⟩ ⟨done, line, rest, rfl, hline, hparts, hrest⟩
    rw [delivered_of_parts hparts hrest] at hwhole
    exact not_whole_of_parts hline (hlines line (by simp)) whole hwhole
  · exact delivered_of_not_torn

/-! ## Few lines -/

theorem heldBy_of_room {lines : List String}
    (h : (encode (Lines.unlines lines)).length ≤ capacity) :
    heldBy lines = (encode (Lines.unlines lines)).length := by
  induction lines using List.reverseRecOn with
  | nil => rfl
  | append_singleton lines line ih =>
      rw [encode_unlines_append_singleton, List.length_append, List.length_append,
        List.length_singleton] at h ⊢
      rw [heldBy_append_singleton, ih (by omega), heldAfter, if_pos (by omega)]

/-- Lines that fit into the buffer together are not torn. -/
theorem not_torn_of_room {lines : List String}
    (h : (encode (Lines.unlines lines)).length ≤ capacity) : ¬Torn lines := by
  rintro ⟨done, line, rest, rfl, -, hparts, -⟩
  rw [Lines.encode_unlines_append, Lines.encode_unlines_cons] at h
  simp only [List.length_append, List.length_singleton] at h
  rw [heldBy_of_room (by omega)] at hparts
  rcases hparts with hparts | hparts
  · omega
  · omega

end Haulage.Buffered
