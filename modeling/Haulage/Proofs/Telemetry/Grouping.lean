import Haulage.Proofs.Files.TextLines
import Haulage.Proofs.Text.Words
import Haulage.Telemetry.Report

/-!
# How failures are grouped

A trace is made of lines for frames and lines for their places in the source. The symbol of a frame
is a base name behind which closures and a hash may stand. Failures are grouped by the base names
that belong to the program and by nothing else in the trace: not by the numbers of the frames, their
indent, the places, the frames of others, the closures or the hashes.

- `cleanSymbol_chars`: what is left of a symbol is its base name.
- `isOwn_iff`: which names belong to the program.
- `ofTrace_of_isTrace`: the call path of a trace.
- `ExceptionInfo.grouped_by_call_path`: traces of one call path make one group.
-/

set_option autoImplicit false

namespace Haulage

open Haulage.Text

namespace CallPath

/-! ## Symbols -/

/-- What stands at the end of the symbol of a closure. -/
def closureSuffix : List Char :=
  closureMark.reverse

/-- The digits of a hash. -/
def IsHashDigits (digits : List Char) : Prop :=
  digits.length = hashLength ∧ ∀ c ∈ digits, isHexDigit c = true

instance (digits : List Char) : Decidable (IsHashDigits digits) :=
  decidable_of_iff (digits.length = hashLength ∧ digits.all isHexDigit = true) (by
    rw [IsHashDigits, List.all_eq_true])

/-- What stands at the end of a symbol that has a hash. -/
def hashSuffix (digits : List Char) : List Char :=
  "::h".toList ++ digits

/-- A symbol that ends in a hash. -/
def EndsInHash (symbol : List Char) : Prop :=
  ∃ digits, IsHashDigits digits ∧ hashSuffix digits <:+ symbol

theorem dropHash_reverse_append {digits : List Char} (h : IsHashDigits digits) (s : List Char) :
    dropHash (s ++ hashSuffix digits).reverse = s.reverse := by
  have hmark : "::h".toList.reverse = ['h', ':', ':'] := rfl
  have hreverse : (s ++ hashSuffix digits).reverse = digits.reverse ++
      (['h', ':', ':'] ++ s.reverse) := by
    rw [hashSuffix, List.reverse_append, List.reverse_append, hmark, List.append_assoc]
  have hlength : digits.reverse.length = hashLength := by
    rw [List.length_reverse, h.1]
  have hhex : digits.reverse.all isHexDigit = true := by
    rw [List.all_reverse, List.all_eq_true]
    exact h.2
  rw [hreverse, dropHash, List.take_left' hlength, List.drop_left' hlength, if_pos ⟨hlength, hhex⟩,
    dropLead?_append, Option.getD_some]

/-- A symbol that does not end in a hash stays. -/
theorem dropHash_reverse {s : List Char} (h : ¬EndsInHash s) : dropHash s.reverse = s.reverse := by
  rw [dropHash]
  split
  · rename_i hdigits
    cases hrest : dropLead? ['h', ':', ':'] (s.reverse.drop hashLength) with
    | none => rfl
    | some rest =>
        -- the digits and the mark before them are a hash
        refine absurd ⟨(s.reverse.take hashLength).reverse, ⟨?_, ?_⟩, rest.reverse, ?_⟩ h
        · rw [List.length_reverse, hdigits.1]
        · intro c hc
          exact List.all_eq_true.mp hdigits.2 c (List.mem_reverse.mp hc)
        · have hsplit := List.take_append_drop hashLength s.reverse
          rw [dropLead?_eq_some_iff.mp hrest] at hsplit
          have hwhole := congrArg List.reverse hsplit
          rw [List.reverse_reverse] at hwhole
          refine Eq.trans ?_ hwhole
          rw [List.reverse_append, List.reverse_append, hashSuffix, List.append_assoc]
          rfl
  · rfl

theorem endsInHash_iff {s : List Char} : EndsInHash s ↔ dropHash s.reverse ≠ s.reverse := by
  constructor
  · rintro ⟨digits, hdigits, front, rfl⟩ heq
    rw [dropHash_reverse_append hdigits] at heq
    -- what is left is shorter than the symbol
    have hlength := congrArg List.length heq
    simp only [hashSuffix, List.length_reverse, List.length_append] at hlength
    have hmark : "::h".toList.length = 3 := rfl
    omega
  · intro hne
    exact Classical.byContradiction fun hno => hne (dropHash_reverse hno)

instance (s : List Char) : Decidable (EndsInHash s) :=
  decidable_of_iff _ endsInHash_iff.symm

theorem dropClosures_append (s : List Char) : dropClosures (closureMark ++ s) = dropClosures s := by
  rw [dropClosures]
  split
  · rename_i before h
    rw [dropLead?_append, Option.some.injEq] at h
    rw [h]
  · rename_i h
    rw [dropLead?_append] at h
    cases h

/-- A symbol that is not that of a closure stays. -/
theorem dropClosures_reverse {s : List Char} (h : ¬closureSuffix <:+ s) :
    dropClosures s.reverse = s.reverse := by
  rw [dropClosures]
  split
  · rename_i before hlead
    refine absurd ?_ h
    rw [closureSuffix, ← List.reverse_prefix, List.reverse_reverse]
    exact ⟨before, (dropLead?_eq_some_iff.mp hlead).symm⟩
  · rfl

theorem dropClosures_reverse_append (s : List Char) (closures : Nat) :
    dropClosures (s ++ (List.replicate closures closureSuffix).flatten).reverse =
      dropClosures s.reverse := by
  induction closures with
  | zero => rw [List.replicate_zero, List.flatten_nil, List.append_nil]
  | succ closures ih =>
      -- the last closure is the first one to be dropped
      rw [List.replicate_succ', List.flatten_append, List.flatten_singleton, ← List.append_assoc,
        List.reverse_append, closureSuffix, List.reverse_reverse, dropClosures_append,
        ← closureSuffix, ih]

/-- A name without the suffixes of closures and hashes. -/
structure IsBase (base : List Char) : Prop where
  newline : '\n' ∉ base
  trimmed : IsTrimmed base
  closure : ¬closureSuffix <:+ base
  hash : ¬EndsInHash base

/-- A base name, a number of closures, and the digits of a hash if there is one. -/
structure Symbol where
  base : String
  closures : Nat
  digits : Option (List Char)
  isBase : IsBase base.toList
  isHash : ∀ ds ∈ digits, IsHashDigits ds

namespace Symbol

/-- The characters of the closures. -/
def closureChars (s : Symbol) : List Char :=
  (List.replicate s.closures closureSuffix).flatten

/-- The characters of the hash. -/
def hashChars (s : Symbol) : List Char :=
  s.digits.elim [] hashSuffix

/-- The characters of a symbol. -/
def chars (s : Symbol) : List Char :=
  s.base.toList ++ s.closureChars ++ s.hashChars

end Symbol

theorem getLast?_closureSuffix : closureSuffix.getLast? = some '}' := by
  decide

theorem isTrimmed_closureSuffix : IsTrimmed closureSuffix := by
  decide

theorem isTrimmed_hashSuffix {digits : List Char} (h : IsHashDigits digits) :
    IsTrimmed (hashSuffix digits) := by
  apply isTrimmed_append
  · decide
  · exact isTrimmed_of_forall fun c hc => isBlank_of_isHexDigit (h.2 c hc)

namespace Symbol

theorem isTrimmed_chars (s : Symbol) : IsTrimmed s.chars := by
  have hclosures : ∀ n, IsTrimmed (List.replicate n closureSuffix).flatten := by
    intro n
    induction n with
    | zero => exact isTrimmed_nil
    | succ n ih => exact isTrimmed_append isTrimmed_closureSuffix ih
  have hhash : IsTrimmed s.hashChars := by
    rw [hashChars]
    cases hdigits : s.digits with
    | none => exact isTrimmed_nil
    | some digits => exact isTrimmed_hashSuffix (s.isHash digits hdigits)
  exact isTrimmed_append (isTrimmed_append s.isBase.trimmed (hclosures s.closures)) hhash

/-- Closures behind a base name are no hash. -/
theorem not_endsInHash (s : Symbol) : ¬EndsInHash (s.base.toList ++ s.closureChars) := by
  cases hclosures : s.closures with
  | zero =>
      rw [closureChars, hclosures, List.replicate_zero, List.flatten_nil, List.append_nil]
      exact s.isBase.hash
  | succ n =>
      rintro ⟨digits, hdigits, front, heq⟩
      -- the symbol ends in a brace, and the hash in a digit
      have hbrace : (s.base.toList ++ s.closureChars).getLast? = some '}' := by
        rw [closureChars, hclosures, List.replicate_succ', List.flatten_append,
          List.flatten_singleton, ← List.append_assoc, List.getLast?_append, getLast?_closureSuffix,
          Option.some_or]
      rw [← heq, hashSuffix, ← List.append_assoc, List.getLast?_append] at hbrace
      cases hdigit : digits.getLast? with
      | none =>
          rw [List.getLast?_eq_none_iff] at hdigit
          have hlength := hdigits.1
          rw [hdigit] at hlength
          cases hlength
      | some c =>
          rw [hdigit, Option.some_or, Option.some.injEq] at hbrace
          have hhex := hdigits.2 c (List.mem_of_getLast? hdigit)
          rw [hbrace] at hhex
          exact absurd hhex (by decide)

theorem dropHash_chars (s : Symbol) :
    dropHash s.chars.reverse = (s.base.toList ++ s.closureChars).reverse := by
  rw [chars, hashChars]
  cases hdigits : s.digits with
  | none => rw [Option.elim_none, List.append_nil, dropHash_reverse s.not_endsInHash]
  | some digits => rw [Option.elim_some, dropHash_reverse_append (s.isHash digits hdigits)]

/-- What is left of a symbol is its base name. -/
theorem cleanSymbol_chars (s : Symbol) : cleanSymbol (String.ofList s.chars) = s.base := by
  rw [cleanSymbol, String.toList_ofList, trimChars_of_isTrimmed s.isTrimmed_chars, s.dropHash_chars,
    closureChars, dropClosures_reverse_append, dropClosures_reverse s.isBase.closure,
    List.reverse_reverse, String.ofList_toList]

end Symbol

/-! ## Lines of a trace -/

/-- The blanks in front of a line. -/
structure Indent where
  chars : List Char
  isBlank : ∀ c ∈ chars, Text.isBlank c = true
  newline : '\n' ∉ chars

/-- A line that holds a frame: its number and its symbol. -/
structure Frame where
  indent : Indent
  index : List Char
  symbol : Symbol
  index_ne_nil : index ≠ []
  isDigit : ∀ c ∈ index, Numeric.isDecimalDigit c = true

/-- The characters of a frame. -/
def Frame.chars (f : Frame) : List Char :=
  f.indent.chars ++ (f.index ++ [':', ' '] ++ f.symbol.chars)

/-- A line that holds the place of a frame. -/
structure FrameLocation where
  indent : Indent
  place : List Char
  newline : '\n' ∉ place

/-- The characters of a location. -/
def FrameLocation.chars (l : FrameLocation) : List Char :=
  l.indent.chars ++ ('a' :: 't' :: ' ' :: l.place)

/-- The lines that a trace is made of. -/
inductive TraceLine where
  | frame (f : Frame)
  | location (l : FrameLocation)

namespace TraceLine

/-- The characters of a line. -/
def chars : TraceLine → List Char
  | .frame f => f.chars
  | .location l => l.chars

/-- The base name of a frame. -/
def base? : TraceLine → Option String
  | .frame f => some f.symbol.base
  | .location _ => none

end TraceLine

/-- A trace made of some lines, each behind a line break of either kind, which the last
one may lack. -/
inductive IsTrace : List TraceLine → List Char → Prop where
  | nil : IsTrace [] []
  | last (line : TraceLine) : IsTrace [line] line.chars
  | newline {more : List TraceLine} {rest : List Char} (line : TraceLine) :
      IsTrace more rest → IsTrace (line :: more) (line.chars ++ '\n' :: rest)
  | returnNewline {more : List TraceLine} {rest : List Char} (line : TraceLine) :
      IsTrace more rest → IsTrace (line :: more) (line.chars ++ '\r' :: '\n' :: rest)

/-- A name that belongs to the program: behind any brackets it starts with the name of the program,
and it is no part of the capture of faults. -/
def IsOwnName (name : String) : Prop :=
  "ferry::".toList <+: name.toList.dropWhile (· == '<') ∧ ¬"::boundary::".toList <:+: name.toList

instance (name : String) : Decidable (IsOwnName name) :=
  inferInstanceAs (Decidable (_ ∧ _))

/-- The base names in a trace that belong to the program. -/
def ownBases (lines : List TraceLine) : List String :=
  (lines.filterMap TraceLine.base?).filter fun name => IsOwnName name

/-! ## Reading a trace -/

/-- Brackets in front of a name do not matter for what occurs in it. -/
theorem infix_dropWhile_iff (s : List Char) :
    "::boundary::".toList <:+: s.dropWhile (· == '<') ↔ "::boundary::".toList <:+: s := by
  induction s with
  | nil => rfl
  | cons c s ih =>
      rw [List.dropWhile_cons]
      split
      · rename_i hc
        rw [ih, List.infix_cons_iff, beq_iff_eq.mp hc]
        have hno : ¬"::boundary::".toList <+: '<' :: s := by
          rintro ⟨rest, hrest⟩
          exact absurd (List.cons.inj hrest).1 (by decide)
        exact ⟨.inr, fun h => h.resolve_left hno⟩
      · rfl

theorem isOwn_iff (name : String) : isOwn name = true ↔ IsOwnName name := by
  rw [isOwn, Bool.and_eq_true, Bool.not_eq_true', isSome_dropLead?_iff, ← Bool.not_eq_true,
    occursIn_iff, infix_dropWhile_iff, IsOwnName]

/-- A frame is read as its base name. A nameless one is no frame, and it does not belong to
the program anyway. -/
theorem filter_frameSymbol?_frame (f : Frame) :
    (frameSymbol? (String.ofList f.chars)).filter isOwn = (some f.symbol.base).filter isOwn := by
  have hcolon : ':' ∉ f.index := by
    intro h
    exact absurd (f.isDigit _ h) (by decide)
  have hindex : (!f.index.isEmpty && f.index.all Numeric.isDecimalDigit) = true := by
    rw [Bool.and_eq_true, Bool.not_eq_true', List.isEmpty_eq_false_iff, List.all_eq_true]
    exact ⟨f.index_ne_nil, f.isDigit⟩
  have hdigits : IsTrimmed f.index :=
    isTrimmed_of_forall fun c hc => isBlank_of_isDecimalDigit (f.isDigit c hc)
  rw [frameSymbol?, String.toList_ofList, Frame.chars, trimChars_append f.indent.isBlank]
  by_cases hnameless : f.symbol.chars = []
  · have hbase : f.symbol.base = "" := by
      rw [Symbol.chars, List.append_eq_nil_iff, List.append_eq_nil_iff] at hnameless
      exact String.toList_eq_nil_iff.mp hnameless.1.1
    -- the blank behind the colon ends the line and is trimmed
    have hline : trimChars (f.index ++ [':', ' ']) = f.index ++ [':'] := by
      have hsplit : f.index ++ [':', ' '] = f.index ++ [':'] ++ [' '] := by
        rw [List.append_assoc, List.singleton_append]
      rw [hsplit, trimChars_append_blank (by decide)]
      exact trimChars_of_isTrimmed (isTrimmed_append hdigits (by decide))
    have hspace : ' ' ∉ f.index ++ [':'] := by
      intro h
      rcases List.mem_append.mp h with h | h
      · exact absurd (f.isDigit _ h) (by decide)
      · exact absurd h (by decide)
    rw [hnameless, List.append_nil, hline, splitAtWord?_of_not_mem (by decide) hspace, hbase]
    rfl
  · have hline : IsTrimmed (f.index ++ [':', ' '] ++ f.symbol.chars) :=
      isTrimmed_between hdigits f.index_ne_nil f.symbol.isTrimmed_chars hnameless _
    rw [trimChars_of_isTrimmed hline, splitAtWord?_append hcolon]
    dsimp only
    rw [if_pos hindex, f.symbol.cleanSymbol_chars]

/-- The place of a frame is no frame. -/
theorem frameSymbol?_location (l : FrameLocation) :
    frameSymbol? (String.ofList l.chars) = none := by
  rw [frameSymbol?, String.toList_ofList, FrameLocation.chars, trimChars_append l.indent.isBlank,
    trimChars_cons (by decide)]
  -- the line starts with a letter, and so does what stands before the first colon
  split
  · rename_i index symbol hsplit
    have hindex := eq_of_splitAtWord? hsplit
    cases index with
    | nil => exact absurd (List.cons.inj hindex).1 (by decide)
    | cons c index =>
        obtain ⟨rfl, -⟩ := List.cons.inj hindex
        rfl
  · rfl

/-- The base name of a line, if it is a frame of the program. -/
theorem filter_frameSymbol? (line : TraceLine) :
    (frameSymbol? (String.ofList line.chars)).filter isOwn = line.base?.filter isOwn := by
  cases line with
  | frame f => exact filter_frameSymbol?_frame f
  | location l => rw [TraceLine.chars, frameSymbol?_location, TraceLine.base?]

/-- A carriage return at the end of a line does not matter. -/
theorem frameSymbol?_append_return (s : List Char) :
    frameSymbol? (String.ofList (s ++ ['\r'])) = frameSymbol? (String.ofList s) := by
  rw [frameSymbol?, frameSymbol?, String.toList_ofList, String.toList_ofList,
    trimChars_append_blank (by decide)]

theorem frameSymbol?_readBack (s : List Char) :
    frameSymbol? (Lines.readBack (String.ofList s)) = frameSymbol? (String.ofList s) := by
  rw [Lines.readBack, String.toList_ofList, Lines.dropEnd_append_newline]
  split
  · rename_i hreturn
    obtain ⟨front, rfl⟩ := List.getLast?_eq_some_iff.mp hreturn
    rw [List.dropLast_concat, frameSymbol?_append_return]
  · rfl

theorem Symbol.newline_not_mem_chars (s : Symbol) : '\n' ∉ s.chars := by
  have hclosures : '\n' ∉ s.closureChars := by
    intro h
    obtain ⟨part, hpart, hn⟩ := List.mem_flatten.mp h
    rw [List.eq_of_mem_replicate hpart] at hn
    exact absurd hn (by decide)
  have hhash : '\n' ∉ s.hashChars := by
    rw [hashChars]
    cases hdigits : s.digits with
    | none => exact List.not_mem_nil
    | some digits =>
        intro h
        rcases List.mem_append.mp h with h | h
        · exact absurd h (by decide)
        · exact absurd ((s.isHash digits hdigits).2 _ h) (by decide)
  rw [chars, List.mem_append, List.mem_append, not_or, not_or]
  exact ⟨⟨s.isBase.newline, hclosures⟩, hhash⟩

namespace TraceLine

theorem newline_not_mem_chars (line : TraceLine) : '\n' ∉ line.chars := by
  cases line with
  | frame f =>
      intro h
      rcases List.mem_append.mp h with h | h
      · exact f.indent.newline h
      · rcases List.mem_append.mp h with h | h
        · rcases List.mem_append.mp h with h | h
          · exact absurd (f.isDigit _ h) (by decide)
          · exact absurd h (by decide)
        · exact f.symbol.newline_not_mem_chars h
  | location l =>
      intro h
      rcases List.mem_append.mp h with h | h
      · exact l.indent.newline h
      · simp [l.newline] at h

theorem chars_ne_nil (line : TraceLine) : line.chars ≠ [] := by
  cases line with
  | frame f => simp [chars, Frame.chars]
  | location l => simp [chars, FrameLocation.chars]

end TraceLine

/-- Line by line, what is read from a trace are the base names of its own frames. -/
theorem filterMap_lines_of_isTrace {lines : List TraceLine} {s : List Char} (h : IsTrace lines s) :
    (Text.lines (String.ofList s)).filterMap (fun line => (frameSymbol? line).filter isOwn) =
      lines.filterMap fun line => line.base?.filter isOwn := by
  induction h with
  | nil => rfl
  | last line =>
      rw [Lines.lines_of_open line.newline_not_mem_chars,
        if_neg (by simpa using line.chars_ne_nil), List.filterMap_cons, filter_frameSymbol?,
        List.filterMap_cons, List.filterMap_nil, List.filterMap_nil]
  | newline line _ ih =>
      -- no line of a trace holds a newline, so the text is cut right behind it
      rw [Lines.lines_append_newline line.newline_not_mem_chars, List.filterMap_cons,
        frameSymbol?_readBack, filter_frameSymbol?, ih, List.filterMap_cons]
  | @returnNewline more rest line _ ih =>
      -- the carriage return belongs to the line before it
      have hsplit : line.chars ++ '\r' :: '\n' :: rest = line.chars ++ ['\r'] ++ '\n' :: rest := by
        rw [List.append_assoc, List.singleton_append]
      have hpart : '\n' ∉ line.chars ++ ['\r'] := by
        rw [List.mem_append, not_or]
        exact ⟨line.newline_not_mem_chars, by decide⟩
      rw [hsplit, Lines.lines_append_newline hpart, List.filterMap_cons, frameSymbol?_readBack,
        frameSymbol?_append_return, filter_frameSymbol?, ih, List.filterMap_cons]

/-- The call path of a trace is made of the base names that belong to the program. -/
theorem ofTrace_of_isTrace {lines : List TraceLine} {trace : String}
    (h : IsTrace lines trace.toList) : ofTrace trace = ownBases lines := by
  have hread := filterMap_lines_of_isTrace h
  rw [String.ofList_toList] at hread
  have hown : isOwn = fun name => decide (IsOwnName name) := by
    funext name
    rw [Bool.eq_iff_iff, decide_eq_true_eq, isOwn_iff]
  rw [ofTrace, List.filter_filterMap, hread, ownBases, List.filter_filterMap, hown]

end CallPath

namespace ExceptionInfo

open CallPath

/-- Failures are grouped alike when their traces have the same base names of the program, whatever
else the traces hold; and the innermost of these names is the kind of the group. -/
theorem grouped_by_call_path {lines lines' : List TraceLine} {trace trace' : String}
    (h : IsTrace lines trace.toList) (h' : IsTrace lines' trace'.toList)
    (hown : ownBases lines = ownBases lines') (f : Failure) (i : Invocation) :
    ofTrace trace f i = ofTrace trace' f i ∧
      ∀ innermost callers, ownBases lines = innermost :: callers →
        (ofTrace trace f i).kind = innermost := by
  rw [ofTrace, ofTrace, ofTrace_of_isTrace h, ofTrace_of_isTrace h', hown]
  refine ⟨rfl, ?_⟩
  intro innermost callers hpath
  rw [hpath]
  rfl

end ExceptionInfo

/-! ## One call path in two traces -/

namespace CallPath

/-- The symbol of a function of the program whose name looks like a frame and like a hash. -/
def rowHash (closures : Nat) (digits : Option (List Char))
    (isHash : ∀ ds ∈ digits, IsHashDigits ds) : Symbol where
  base := "<ferry::run: Row>::hash"
  closures := closures
  digits := digits
  isBase := ⟨by decide, by decide, by decide, by decide⟩
  isHash := isHash

/-- The symbol of a function that recovers faults. -/
def recovery : Symbol where
  base := "ferry::boundary::hook"
  closures := 1
  digits := none
  isBase := ⟨by decide, by decide, by decide, by decide⟩
  isHash := by simp

/-- Four blanks. -/
def fourBlanks : Indent :=
  ⟨"    ".toList, List.all_eq_true.mp (by decide), by decide⟩

/-- A frame without any decoration. -/
def bareFrame : Frame :=
  ⟨⟨[], by simp, by decide⟩, ['7'], rowHash 0 none (by simp), by decide,
    List.all_eq_true.mp (by decide)⟩

/-- A frame of the same function, in two closures and with a hash. -/
def nestedFrame : Frame :=
  ⟨fourBlanks, ['1', '2'], rowHash 2 (some "0123456789abcdef".toList) (by simp +decide), by decide,
    List.all_eq_true.mp (by decide)⟩

/-- A frame of the recovery of the fault. -/
def recoveryFrame : Frame :=
  ⟨fourBlanks, ['1', '1'], recovery, by decide, List.all_eq_true.mp (by decide)⟩

/-- The place of a frame. -/
def somewhere : FrameLocation :=
  ⟨fourBlanks, "./run.rs: 3".toList, by decide⟩

end CallPath

namespace ExceptionInfo

open CallPath

/-- A fault with one frame of the program, in a long and in a short trace. -/
theorem grouped_by_call_path_nested :
    let lines : List TraceLine := [.frame recoveryFrame, .location somewhere, .frame nestedFrame]
    let trace := "    11: ferry::boundary::hook::\x7b\x7bclosure\x7d\x7d\r\n    at ./run.rs: 3\n" ++
      "    12: <ferry::run: Row>::hash::\x7b\x7bclosure\x7d\x7d::\x7b\x7bclosure\x7d\x7d" ++
      "::h0123456789abcdef"
    let trace' := "7: <ferry::run: Row>::hash\n"
    IsTrace lines trace.toList ∧ IsTrace [.frame bareFrame] trace'.toList ∧
      ownBases lines = ["<ferry::run: Row>::hash"] ∧
      ∀ f i, ofTrace trace f i = ofTrace trace' f i ∧
        (ofTrace trace f i).kind = "<ferry::run: Row>::hash" := by
  intro lines trace trace'
  have htext : trace.toList = recoveryFrame.chars ++ '\r' :: '\n' ::
      (somewhere.chars ++ '\n' :: nestedFrame.chars) := by
    decide +kernel
  have htext' : trace'.toList = bareFrame.chars ++ '\n' :: [] := by
    decide +kernel
  have htrace : IsTrace lines trace.toList := by
    rw [htext]
    exact .returnNewline (.frame recoveryFrame) (.newline (.location somewhere)
      (.last (.frame nestedFrame)))
  have htrace' : IsTrace [.frame bareFrame] trace'.toList := by
    rw [htext']
    exact .newline (.frame bareFrame) .nil
  have hbases : ownBases lines = ["<ferry::run: Row>::hash"] := by
    decide +kernel
  have hown : ownBases lines = ownBases [.frame bareFrame] := by
    decide +kernel
  refine ⟨htrace, htrace', hbases, fun f i => ?_⟩
  have hgroup := grouped_by_call_path htrace htrace' hown f i
  exact ⟨hgroup.1, hgroup.2 _ _ hbases⟩

end ExceptionInfo

end Haulage
