import Haulage.Files.Streams
import Haulage.Proofs.Text.Utf8

/-!
# Lines that are written and read back

A line that was read holds no newline. Lines that are written, each with a newline after it, are
read back one by one, and what was there before them is read as before when it ends in a newline.
Only a carriage return at the end of a line is lost on the way.

- `newline_not_mem_of_mem_ofBytes`: what a line does not hold.
- `raw_append`: lines behind a newline are lines of their own.
- `ofBytes_front`: a content that is cut off behind some of its lines.
- `ofBytes_append_encode_unlines`: reading what was there and what was written after it.
- `raw_append_encode_unlines_of_open`: a last line without a newline takes in the first line
  written.
- `map_raw_append_iff`: written lines are lines of their own only behind a newline.
-/

set_option autoImplicit false

namespace Haulage.Lines

open Haulage.Utf8

/-! ## Cutting bytes at newlines -/

theorem rawFrom_eq_append (done : List Bytes) (current bytes : Bytes) :
    rawFrom done current bytes = done.reverse ++ rawFrom [] current bytes := by
  induction bytes generalizing done current with
  | nil =>
      simp only [rawFrom]
      split <;> simp
  | cons b rest ih =>
      simp only [rawFrom]
      split
      · rw [ih, ih [_], List.reverse_cons, List.append_assoc]
        rfl
      · rw [ih]

theorem rawFrom_append_newline (current body rest : Bytes) (done : List Bytes) :
    rawFrom done current (body ++ 0x0A :: rest) =
      rawFrom done current (body ++ [0x0A]) ++ raw rest := by
  induction body generalizing done current with
  | nil =>
      -- the newline ends the current line, and the rest starts afresh
      rw [List.nil_append, List.nil_append, rawFrom, if_pos rfl, rawFrom, if_pos rfl, raw,
        rawFrom_eq_append _ [] rest, rawFrom]
      simp
  | cons b body ih =>
      rw [List.cons_append, List.cons_append, rawFrom, rawFrom]
      split
      · exact ih _ _
      · exact ih _ _

/-- Bytes behind a newline make up lines of their own. -/
theorem raw_append {before : Bytes} (h : before = [] ∨ before.getLast? = some 0x0A) (rest : Bytes) :
    raw (before ++ rest) = raw before ++ raw rest := by
  rcases h with rfl | h
  · rfl
  · obtain ⟨body, rfl⟩ := List.getLast?_eq_some_iff.mp h
    rw [List.append_assoc]
    exact rawFrom_append_newline [] body rest []

theorem rawFrom_of_newline_not_mem {body : Bytes} (h : (0x0A : UInt8) ∉ body) (current : Bytes) :
    rawFrom [] current (body ++ [0x0A]) = [current.reverse ++ body ++ [0x0A]] := by
  induction body generalizing current with
  | nil => simp [rawFrom]
  | cons b body ih =>
      rw [List.mem_cons, not_or] at h
      rw [List.cons_append, rawFrom, if_neg fun e => h.1 e.symm, ih h.2]
      simp

theorem raw_append_newline {body : Bytes} (h : (0x0A : UInt8) ∉ body) :
    raw (body ++ [0x0A]) = [body ++ [0x0A]] := by
  exact rawFrom_of_newline_not_mem h []

theorem rawFrom_of_open {body : Bytes} (h : (0x0A : UInt8) ∉ body) {current : Bytes}
    (hne : current ++ body ≠ []) : rawFrom [] current body = [current.reverse ++ body] := by
  induction body generalizing current with
  | nil =>
      rw [List.append_nil] at hne
      simp [rawFrom, hne]
  | cons b body ih =>
      rw [List.mem_cons, not_or] at h
      rw [rawFrom, if_neg fun e => h.1 e.symm, ih h.2 (by simp)]
      simp

/-- Bytes that hold no newline are one line. -/
theorem raw_of_open {body : Bytes} (h : (0x0A : UInt8) ∉ body) (hne : body ≠ []) :
    raw body = [body] :=
  rawFrom_of_open h hne

/-- The last line of a content, if it has no newline, comes after lines that do. -/
theorem exists_open_line {bytes : Bytes} (hne : bytes ≠ []) (hopen : bytes.getLast? ≠ some 0x0A) :
    ∃ front last, bytes = front ++ last ∧ (front = [] ∨ front.getLast? = some 0x0A) ∧
      (0x0A : UInt8) ∉ last ∧ last ≠ [] := by
  obtain ⟨front, last, rfl, hfront, hlast⟩ : ∃ front last, bytes = front ++ last ∧
      (front = [] ∨ front.getLast? = some 0x0A) ∧ (0x0A : UInt8) ∉ last := by
    clear hne hopen
    induction bytes with
    | nil => exact ⟨[], [], rfl, .inl rfl, List.not_mem_nil⟩
    | cons b rest ih =>
        obtain ⟨front, last, rfl, rfl | hfront, hlast⟩ := ih
        · by_cases hb : b = 0x0A
          · exact ⟨[b], last, rfl, .inr (by simp [hb]), hlast⟩
          · refine ⟨[], b :: last, rfl, .inl rfl, ?_⟩
            rw [List.mem_cons, not_or]
            exact ⟨fun e => hb e.symm, hlast⟩
        · exact ⟨b :: front, last, rfl, .inr (by simp [List.getLast?_cons, hfront]), hlast⟩
  refine ⟨front, last, rfl, hfront, hlast, ?_⟩
  rintro rfl
  rw [List.append_nil] at hne hopen
  exact hfront.elim hne hopen

/-- The form of the bytes of a line: no newline inside, and one or none at the end. -/
def IsLine (bytes : Bytes) : Prop :=
  ∃ body, (0x0A : UInt8) ∉ body ∧ (bytes = body ++ [0x0A] ∨ bytes = body)

theorem isLine_of_mem_rawFrom {done : List Bytes} {current bytes : Bytes}
    (hdone : ∀ line ∈ done, IsLine line) (hcurrent : (0x0A : UInt8) ∉ current) :
    ∀ line ∈ rawFrom done current bytes, IsLine line := by
  -- the current line is still open, so it holds no line feed
  induction bytes generalizing done current with
  | nil =>
      intro line hline
      rw [rawFrom] at hline
      split at hline
      · exact hdone line (List.mem_reverse.mp hline)
      · rcases List.mem_cons.mp (List.mem_reverse.mp hline) with rfl | hline
        · exact ⟨current.reverse, by simpa using hcurrent, .inr rfl⟩
        · exact hdone line hline
  | cons b rest ih =>
      rw [rawFrom]
      split
      · rename_i hb
        refine ih ?_ List.not_mem_nil
        intro line hline
        rcases List.mem_cons.mp hline with rfl | hline
        · exact ⟨current.reverse, by simpa using hcurrent, .inl (by simp [hb])⟩
        · exact hdone line hline
      · rename_i hb
        refine ih hdone ?_
        rw [List.mem_cons, not_or]
        exact ⟨fun e => hb e.symm, hcurrent⟩

theorem isLine_of_mem_raw {bytes line : Bytes} (h : line ∈ raw bytes) : IsLine line :=
  isLine_of_mem_rawFrom (by simp) List.not_mem_nil line h

theorem raw_eq_nil_iff {bytes : Bytes} : raw bytes = [] ↔ bytes = [] := by
  constructor
  · intro h
    rw [← flatten_raw bytes, h]
    rfl
  · rintro rfl
    rfl

theorem ofBytes_eq_nil_iff {bytes : Bytes} : ofBytes bytes = [] ↔ bytes = [] := by
  rw [ofBytes, List.map_eq_nil_iff, raw_eq_nil_iff]

/-! ## The first lines -/

/-- The bytes of the first lines of a content. -/
def front (n : Nat) (bytes : Bytes) : Bytes :=
  ((raw bytes).take n).flatten

/-- Cutting off the first lines leaves them as they are. -/
theorem raw_front (n : Nat) (bytes : Bytes) : raw (front n bytes) = (raw bytes).take n := by
  induction n generalizing bytes with
  | zero => rfl
  | succ n ih =>
      by_cases hnewline : (0x0A : UInt8) ∈ bytes
      · -- the first line ends at the first newline, and what comes behind it is cut by itself
        obtain ⟨body, rest, rfl, hbody⟩ := List.eq_append_cons_of_mem hnewline
        have hsplit : body ++ 0x0A :: rest = (body ++ [0x0A]) ++ rest := by simp
        have hraw : raw (body ++ 0x0A :: rest) = (body ++ [0x0A]) :: raw rest := by
          rw [hsplit, raw_append (.inr (by simp)), raw_append_newline hbody]
          rfl
        rw [front, hraw, List.take_succ_cons, List.flatten_cons, raw_append (.inr (by simp)),
          raw_append_newline hbody, ← front, ih]
        rfl
      · by_cases hempty : bytes = []
        · subst hempty
          rfl
        · have hraw := raw_of_open hnewline hempty
          rw [front, hraw, List.take_succ_cons, List.take_nil, List.flatten_singleton, hraw]

theorem ofBytes_front (n : Nat) (bytes : Bytes) :
    ofBytes (front n bytes) = (ofBytes bytes).take n := by
  rw [ofBytes, raw_front, List.map_take, ofBytes]

/-! ## The text of a line -/

theorem dropEnd_append_newline (s : List Char) :
    dropEnd (s ++ ['\n']) = if s.getLast? = some '\r' then s.dropLast else s := by
  simp [dropEnd]

theorem dropEnd_of_newline_not_mem {s : List Char} (h : '\n' ∉ s) : dropEnd s = s := by
  rw [dropEnd, if_neg fun e => h (List.mem_of_getLast? e)]

theorem newline_not_mem_dropEnd_append {s : List Char} (h : '\n' ∉ s) :
    '\n' ∉ dropEnd (s ++ ['\n']) := by
  rw [dropEnd_append_newline]
  split
  · exact fun e => h (List.dropLast_subset s e)
  · exact h

/-- A line that was read holds no newline. -/
theorem newline_not_mem_of_mem_ofBytes {bytes : Bytes} {line : String}
    (h : .ok line ∈ ofBytes bytes) : '\n' ∉ line.toList := by
  obtain ⟨l, hl, heq⟩ := List.mem_map.mp h
  rw [ofRaw] at heq
  split at heq
  · rename_i s hdecode
    cases heq
    have hencode := encodeChars_of_decodeChars hdecode
    rw [String.toList_ofList]
    obtain ⟨body, hbody, rfl | rfl⟩ := isLine_of_mem_raw hl
    · obtain ⟨s', rfl, rfl⟩ := exists_of_encodeChars_eq_append_newline hencode
      exact newline_not_mem_dropEnd_append fun hs' => hbody (newline_mem_encodeChars_iff.mpr hs')
    · have hs : '\n' ∉ s := fun hs => hbody (hencode ▸ newline_mem_encodeChars_iff.mpr hs)
      rw [dropEnd_of_newline_not_mem hs]
      exact hs
  · cases heq

theorem newline_not_mem_of_mem_ofOpened {opened : FileSystem.Opened} {line : String}
    (h : .ok line ∈ ofOpened opened) : '\n' ∉ line.toList := by
  cases opened with
  | content bytes => exact newline_not_mem_of_mem_ofBytes h
  | unreadable e =>
      rw [ofOpened, List.mem_singleton] at h
      cases h

/-- The byte FF is no text. -/
theorem exists_ofBytes_badByte : ∃ fault, ofBytes [0xFF] = [.error fault] := by
  have hbad : (ofRaw [0xFF]).isOk = false := by decide +kernel
  rw [ofBytes, raw_of_open (by decide) (by decide), List.map_singleton]
  cases hline : ofRaw [0xFF] with
  | error fault => exact ⟨fault, rfl⟩
  | ok line =>
      rw [hline] at hbad
      cases hbad

/-! ## Writing lines and reading them back -/

/-- The text of lines, each with a newline after it. -/
def unlines (lines : List String) : String :=
  String.join (lines.map (· ++ "\n"))

/-- A line as it is read back after it was written. -/
def readBack (line : String) : String :=
  String.ofList (dropEnd (line.toList ++ ['\n']))

theorem encode_append_newline (line : String) :
    encode (line ++ "\n") = encode line ++ [0x0A] := by
  rw [encode_append]
  rfl

theorem encode_unlines_cons (line : String) (more : List String) :
    encode (unlines (line :: more)) = encode line ++ [0x0A] ++ encode (unlines more) := by
  rw [unlines, List.map_cons, String.join_cons, encode_append, encode_append_newline]
  rfl

theorem encode_unlines_append (first second : List String) :
    encode (unlines (first ++ second)) = encode (unlines first) ++ encode (unlines second) := by
  rw [unlines, List.map_append, String.join_append, encode_append]
  rfl

/-- Written lines end in a newline. -/
theorem getLast?_append_encode_unlines {before : Bytes} {lines : List String}
    (h : before.getLast? = some 0x0A ∨ lines ≠ []) :
    (before ++ encode (unlines lines)).getLast? = some 0x0A := by
  induction lines generalizing before with
  | nil =>
      rcases h with h | h
      · exact (congrArg List.getLast? (List.append_nil before)).trans h
      · exact absurd rfl h
  | cons line more ih =>
      rw [encode_unlines_cons, ← List.append_assoc, ← List.append_assoc]
      exact ih (.inl List.getLast?_concat)

theorem ofRaw_encode_append_newline (line : String) :
    ofRaw (encode line ++ [0x0A]) = .ok (readBack line) := by
  have h : encode line ++ [0x0A] = encodeChars (line.toList ++ ['\n']) := by
    rw [encodeChars_append]
    rfl
  rw [h, ofRaw, decodeChars_encodeChars]
  rfl

/-- Each written line is a line of its own. -/
theorem raw_encode_unlines {lines : List String} (hlines : ∀ line ∈ lines, '\n' ∉ line.toList) :
    raw (encode (unlines lines)) = lines.map fun line => encode line ++ [0x0A] := by
  induction lines with
  | nil => rfl
  | cons line more ih =>
      have hline : (0x0A : UInt8) ∉ encode line :=
        fun e => hlines line List.mem_cons_self (newline_mem_encodeChars_iff.mp e)
      rw [encode_unlines_cons, raw_append (.inr (by simp)), raw_append_newline hline,
        ih fun l hl => hlines l (List.mem_cons_of_mem _ hl)]
      rfl

/-- Written lines are read back behind what was there, if that ends in a newline. -/
theorem ofBytes_append_encode_unlines {before : Bytes}
    (h : before = [] ∨ before.getLast? = some 0x0A) {lines : List String}
    (hlines : ∀ line ∈ lines, '\n' ∉ line.toList) :
    ofBytes (before ++ encode (unlines lines)) =
      ofBytes before ++ lines.map fun line => .ok (readBack line) := by
  rw [ofBytes, raw_append h, List.map_append, raw_encode_unlines hlines, List.map_map]
  congr 1
  exact List.map_congr_left fun line _ => ofRaw_encode_append_newline line

/-- Lines that hold no newline and end in no carriage return are read as they were written. -/
theorem ofBytes_encode_unlines {lines : List String}
    (h : ∀ line ∈ lines, '\n' ∉ line.toList ∧ line.toList.getLast? ≠ some '\r') :
    ofBytes (encode (unlines lines)) = lines.map .ok := by
  have hread := ofBytes_append_encode_unlines (.inl rfl) fun line hline => (h line hline).1
  rw [List.nil_append] at hread
  rw [hread]
  refine List.map_congr_left fun line hline => ?_
  rw [readBack, dropEnd_append_newline, if_neg (h line hline).2, String.ofList_toList]

/-- What comes behind written lines is read by itself. -/
theorem ofBytes_encode_unlines_append {lines : List String}
    (h : ∀ line ∈ lines, '\n' ∉ line.toList ∧ line.toList.getLast? ≠ some '\r') (rest : Bytes) :
    ofBytes (encode (unlines lines) ++ rest) = lines.map .ok ++ ofBytes rest := by
  have hend : encode (unlines lines) = [] ∨ (encode (unlines lines)).getLast? = some 0x0A := by
    cases lines with
    | nil => exact .inl rfl
    | cons line more =>
        exact .inr (@getLast?_append_encode_unlines [] _ (.inr (List.cons_ne_nil line more)))
  rw [ofBytes, raw_append hend, List.map_append, ← ofBytes, ofBytes_encode_unlines h]
  rfl

/-- Each written line takes one newline. -/
theorem count_newline_encode_unlines {lines : List String}
    (hlines : ∀ line ∈ lines, '\n' ∉ line.toList) :
    (encode (unlines lines)).count 0x0A = lines.length := by
  induction lines with
  | nil => rfl
  | cons line more ih =>
      have hline : (encode line).count 0x0A = 0 := by
        rw [encode, count_newline_encodeChars, List.count_eq_zero]
        exact hlines line List.mem_cons_self
      rw [encode_unlines_cons, List.count_append, List.count_append, hline,
        ih fun l hl => hlines l (List.mem_cons_of_mem _ hl), List.length_cons,
        List.count_singleton_self]
      omega

/-! ## Written lines behind an open line -/

/-- A last line without a newline takes in the first line written after it. -/
theorem raw_append_encode_unlines_of_open {front last : Bytes}
    (hfront : front = [] ∨ front.getLast? = some 0x0A) (hlast : (0x0A : UInt8) ∉ last)
    {line : String} {more : List String} (hlines : ∀ l ∈ line :: more, '\n' ∉ l.toList) :
    raw (front ++ last ++ encode (unlines (line :: more))) =
      raw front ++ (last ++ encode line ++ [0x0A]) :: more.map fun l => encode l ++ [0x0A] := by
  have hjoined : (0x0A : UInt8) ∉ last ++ encode line := by
    rw [List.mem_append, not_or]
    exact ⟨hlast, fun e => hlines line List.mem_cons_self (newline_mem_encodeChars_iff.mp e)⟩
  have hmore := raw_encode_unlines fun l hl => hlines l (List.mem_cons_of_mem _ hl)
  rw [List.append_assoc, raw_append hfront, encode_unlines_cons, ← List.append_assoc,
    ← List.append_assoc, raw_append (.inr (by simp)), raw_append_newline hjoined, hmore]
  rfl

/-- Lines written behind an open line make one line less than there were lines. -/
theorem length_raw_append_of_open {before : Bytes} (hne : before ≠ [])
    (hopen : before.getLast? ≠ some 0x0A) {lines : List String} (hnonempty : lines ≠ [])
    (hlines : ∀ line ∈ lines, '\n' ∉ line.toList) :
    (raw (before ++ encode (unlines lines))).length + 1 = (raw before).length + lines.length := by
  obtain ⟨front, last, rfl, hfront, hlast, hlast'⟩ := exists_open_line hne hopen
  cases lines with
  | nil => exact absurd rfl hnonempty
  | cons line more =>
      rw [raw_append_encode_unlines_of_open hfront hlast hlines, raw_append hfront last,
        raw_of_open hlast hlast']
      simp only [List.length_append, List.length_cons, List.length_map, List.length_nil]
      omega

/-- Written lines come after the lines that were there exactly when these end in a newline, or when
nothing is written, whatever is made of each line. -/
theorem map_raw_append_iff {α : Type} {view : Bytes → α} {written : String → α}
    (hview : ∀ line, view (encode line ++ [0x0A]) = written line) {before : Bytes}
    (hne : before ≠ []) {lines : List String} (hlines : ∀ line ∈ lines, '\n' ∉ line.toList) :
    (raw (before ++ encode (unlines lines))).map view =
        (raw before).map view ++ lines.map written ↔
      before.getLast? = some 0x0A ∨ lines = [] := by
  constructor
  · intro h
    refine Classical.byContradiction fun hopen => ?_
    rw [not_or] at hopen
    have hlength := length_raw_append_of_open hne hopen.1 hopen.2 hlines
    have hsame := congrArg List.length h
    rw [List.length_append, List.length_map, List.length_map, List.length_map] at hsame
    omega
  · rintro (hclosed | rfl)
    · rw [raw_append (.inr hclosed), List.map_append, raw_encode_unlines hlines, List.map_map]
      exact congrArg _ (List.map_congr_left fun line _ => hview line)
    · have hnothing : before ++ encode (unlines []) = before := List.append_nil before
      rw [hnothing, List.map_nil, List.append_nil]

/-- The bytes of each line without its newline. -/
def bodies (bytes : Bytes) : List Bytes :=
  (raw bytes).map fun line => if line.getLast? = some 0x0A then line.dropLast else line

theorem bodies_append_iff {before : Bytes} (hne : before ≠ []) {lines : List String}
    (hlines : ∀ line ∈ lines, '\n' ∉ line.toList) :
    bodies (before ++ encode (unlines lines)) = bodies before ++ lines.map encode ↔
      before.getLast? = some 0x0A ∨ lines = [] :=
  map_raw_append_iff (fun line => by simp) hne hlines

/-- The same holds of the lines as they are read. -/
theorem ofBytes_append_iff {before : Bytes} (hne : before ≠ []) {lines : List String}
    (hlines : ∀ line ∈ lines, '\n' ∉ line.toList) :
    ofBytes (before ++ encode (unlines lines)) =
        (ofBytes before ++ lines.map fun line => .ok (readBack line)) ↔
      before.getLast? = some 0x0A ∨ lines = [] :=
  map_raw_append_iff ofRaw_encode_append_newline hne hlines

/-- The first line written behind an open line becomes the end of that line. -/
theorem bodies_append_of_open {before : Bytes} (hne : before ≠ [])
    (hopen : before.getLast? ≠ some 0x0A) {line : String} {more : List String}
    (hlines : ∀ l ∈ line :: more, '\n' ∉ l.toList) :
    ∃ front last, bodies before = front ++ [last] ∧
      bodies (before ++ encode (unlines (line :: more))) =
        front ++ (last ++ encode line) :: more.map encode := by
  obtain ⟨front, last, rfl, hfront, hlast, hlast'⟩ := exists_open_line hne hopen
  have hend : last.getLast? ≠ some 0x0A := fun h => hlast (List.mem_of_getLast? h)
  refine ⟨bodies front, last, ?_, ?_⟩
  · rw [bodies, raw_append hfront, raw_of_open hlast hlast', List.map_append, List.map_singleton,
      if_neg hend]
    rfl
  · rw [bodies, raw_append_encode_unlines_of_open hfront hlast hlines, List.map_append,
      List.map_cons, List.map_map, if_pos List.getLast?_concat, List.dropLast_concat]
    congr 2
    exact List.map_congr_left fun l _ => by simp

end Haulage.Lines
