import Haulage.Discovery
import Haulage.Proofs.Discovery.Patterns
import Haulage.Proofs.Files.Trees
import Haulage.Proofs.Text.Split
import Haulage.Proofs.Text.Words
import Mathlib.Data.List.Nodup

/-!
# What a search finds

A search of a readable tree lists each file below its root, and each link there that leads to a
file, when the names from the root match the pattern: those on the first level, or on all levels
that can be reached without passing a link. It lists them once, in the order of their names.

- `comesBefore_iff`: the order of the listing is the one of lists of names.
- `text_pathBelow`, `pathBelow_injective`: the path of an entry is that of the root and
  its names from there.
- `find_pathBelow`: where the path of a directory leads that is reached through directories.
- `Wanted`: the entries that a search is about.
- `search_lists_wanted`: a search lists exactly these.
-/

set_option autoImplicit false

namespace Haulage.Discovery

open Haulage.Text Haulage.FileSystem

/-! ## The order of the listing -/

/-- Names come before others unless these are smaller. -/
theorem comesBefore_iff {a b : Place} : comesBefore a b = true ↔ ¬b < a := by
  fun_induction comesBefore a b with
  | case1 b => simp
  | case2 a as => simp
  | case3 a as b bs ih =>
      rw [List.cons_lt_cons_iff, Bool.or_eq_true, Bool.and_eq_true, decide_eq_true_eq, beq_iff_eq,
        ih]
      -- the first names that differ decide, and while they are the same the rest does
      by_cases hlt : a < b
      · have hne : b ≠ a := fun heq => String.lt_irrefl b (heq ▸ hlt)
        simp [hlt, hne, String.lt_asymm hlt]
      · by_cases heq : a = b
        · simp only [heq, String.lt_irrefl, true_and, false_or]
        · have hgt : b < a := Classical.byContradiction fun hno =>
            heq (String.le_antisymm (String.not_lt.mp hno) (String.not_lt.mp hlt))
          simp [hlt, heq, hgt]

theorem comesBefore_trans (a b c : Place) (hab : comesBefore a b = true)
    (hbc : comesBefore b c = true) :
    comesBefore a c = true := by
  rw [comesBefore_iff] at hab hbc ⊢
  exact List.le_trans hab hbc

theorem comesBefore_total (a b : Place) : (comesBefore a b || comesBefore b a) = true := by
  rw [Bool.or_eq_true, comesBefore_iff, comesBefore_iff]
  exact List.le_total a b

/-- Different names are listed in ascending order. -/
theorem pairwise_lt_mergeSort {found : List Place} (h : found.Nodup) :
    (found.mergeSort comesBefore).Pairwise (· < ·) := by
  have hsorted := List.pairwise_mergeSort comesBefore_trans comesBefore_total found
  have hdistinct : (found.mergeSort comesBefore).Nodup :=
    (List.mergeSort_perm found comesBefore).nodup_iff.mpr h
  apply (hsorted.and hdistinct).imp
  rintro a b ⟨hbefore, hne⟩
  rw [comesBefore_iff] at hbefore
  exact Classical.byContradiction fun hno => hne (List.le_antisymm hbefore hno)

/-! ## The paths of entries -/

variable {fs : FileSystem} {root : Path} {place names : Place} {name : String}

/-- The text in front of the names of the entries below a path. -/
def leadOf (root : Path) : String :=
  if root.text.toList.getLast? = some '/' then root.text else root.text ++ "/"

theorem text_join (hroot : root.text.isEmpty = false) (hname : IsName name) :
    (root.join ⟨name⟩).text = leadOf root ++ name := by
  have hrelative : (Path.mk name).isAbsolute = false := by
    rw [Path.isAbsolute, beq_eq_false_iff_ne]
    exact fun hslash => hname.whole (List.mem_of_mem_head? hslash)
  rw [Path.join, hrelative, hroot, leadOf]
  simp only [Bool.false_eq_true, if_false, false_or]
  split <;> rfl

theorem isEmpty_join (hroot : root.text.isEmpty = false) (hname : IsName name) :
    (root.join ⟨name⟩).text.isEmpty = false := by
  rw [text_join hroot hname, ← Bool.not_eq_true, String.isEmpty_iff, String.append_eq_empty_iff]
  rintro ⟨-, hempty⟩
  exact hname.idle (.inl hempty)

/-- The next names follow behind a slash. -/
theorem leadOf_join (hroot : root.text.isEmpty = false) (hname : IsName name) :
    leadOf (root.join ⟨name⟩) = leadOf root ++ name ++ "/" := by
  have hopen : (leadOf root ++ name).toList.getLast? ≠ some '/' := by
    intro hslash
    rw [String.toList_append, List.getLast?_append] at hslash
    -- the slash would stand at the end of the name
    cases hlast : name.toList.getLast? with
    | none =>
        rw [List.getLast?_eq_none_iff, String.toList_eq_nil_iff] at hlast
        exact hname.idle (.inl hlast)
    | some c =>
        rw [hlast, Option.some_or, Option.some.injEq] at hslash
        exact hname.whole (List.mem_of_getLast? (hslash ▸ hlast))
  rw [leadOf, text_join hroot hname, if_neg hopen]

/-- The path of an entry is that of the root and the names of the entry, with slashes between
them. -/
theorem text_pathBelow (hroot : root.text.isEmpty = false) (hnames : ∀ name ∈ names, IsName name)
    (hne : names ≠ []) : (pathBelow root names).text = leadOf root ++ join '/' names := by
  induction names generalizing root with
  | nil => exact absurd rfl hne
  | cons name more ih =>
      have hname := hnames name List.mem_cons_self
      show (pathBelow (root.join ⟨name⟩) more).text = _
      cases more with
      | nil =>
          show (root.join ⟨name⟩).text = _
          rw [text_join hroot hname]
          simp [join, joinChars]
      | cons next more =>
          rw [ih (isEmpty_join hroot hname) (fun n hn => hnames n (List.mem_cons_of_mem _ hn))
            (List.cons_ne_nil _ _), leadOf_join hroot hname, ← String.toList_inj]
          simp [join, joinChars]

/-- Entries with different names have different paths. -/
theorem pathBelow_injective (hroot : root.text.isEmpty = false) {names' : Place}
    (hnames : ∀ name ∈ names, IsName name) (hnames' : ∀ name ∈ names', IsName name)
    (hne : names ≠ []) (hne' : names' ≠ []) (h : pathBelow root names = pathBelow root names') :
    names = names' := by
  have htext := congrArg Path.text h
  rw [text_pathBelow hroot hnames hne, text_pathBelow hroot hnames' hne'] at htext
  have hjoin : join '/' names = join '/' names' := by
    rw [← String.toList_inj, String.toList_append, String.toList_append] at htext
    exact String.toList_inj.mp (List.append_cancel_left htext)
  -- no name holds a slash, so what is joined can be split again
  rw [← split_join hne fun name hname => (hnames name hname).whole, hjoin,
    split_join hne' fun name hname => (hnames' name hname).whole]

/-- The names of an entry are the last segments of its path, where that of the root may
have a slash. -/
theorem segments_pathBelow (hroot : root.text.isEmpty = false)
    (hnames : ∀ name ∈ names, IsName name) (hne : names ≠ []) :
    ∃ front slashes, slashes.all (· = "") = true ∧ root.segments = front ++ slashes ∧
      (pathBelow root names).segments = front ++ names := by
  have hsplit : (splitChars '/' (join '/' names).toList).map String.ofList = names :=
    split_join hne fun name hname => (hnames name hname).whole
  have hpath : (pathBelow root names).segments =
      (splitChars '/' ((leadOf root).toList ++ (join '/' names).toList)).map String.ofList := by
    rw [Path.segments, text_pathBelow hroot hnames hne, split, String.toList_append]
  -- a slash at the end of the root is the one before the first name
  rw [hpath, leadOf]
  split
  · rename_i hslash
    obtain ⟨front, hfront⟩ := List.getLast?_eq_some_iff.mp hslash
    refine ⟨(splitChars '/' front).map String.ofList, [""], rfl, ?_, ?_⟩
    · rw [Path.segments, split, hfront, splitChars_append, List.map_append]
      rfl
    · rw [hfront, List.append_assoc, List.singleton_append, splitChars_append, List.map_append,
        hsplit]
  · refine ⟨root.segments, [], rfl, (List.append_nil _).symm, ?_⟩
    rw [String.toList_append, List.append_assoc]
    show (splitChars '/' (root.text.toList ++ '/' :: (join '/' names).toList)).map String.ofList = _
    rw [splitChars_append, List.map_append, hsplit]
    rfl

/-- The path of an entry starts with that of the root, and what follows holds no zero. -/
theorem exists_text_pathBelow (hroot : root.text.isEmpty = false)
    (hnames : ∀ name ∈ names, IsName name) (hne : names ≠ []) :
    ∃ rest, (pathBelow root names).text = root.text ++ rest ∧ '\x00' ∉ rest.toList := by
  have hjoin : '\x00' ∉ (join '/' names).toList := by
    intro hnul
    rw [join, String.toList_ofList] at hnul
    rcases eq_or_mem_of_mem_joinChars hnul with hslash | ⟨part, hpart, hnul⟩
    · cases hslash
    · obtain ⟨name, hname, rfl⟩ := List.mem_map.mp hpart
      exact (hnames name hname).nul hnul
  rw [text_pathBelow hroot hnames hne, leadOf]
  split
  · exact ⟨join '/' names, rfl, hjoin⟩
  · refine ⟨"/" ++ join '/' names, String.append_assoc, ?_⟩
    rw [String.toList_append, List.mem_append, not_or]
    exact ⟨by decide, hjoin⟩

/-- A path below one that can be looked up can be looked up as well, unless it is too long. -/
theorem isUsable_pathBelow (hroot : IsUsable root) (hnames : ∀ name ∈ names, IsName name)
    (hne : names ≠ []) (hshort : (pathBelow root names).text.utf8ByteSize < longestPath) :
    IsUsable (pathBelow root names) ∧ (pathBelow root names).isAbsolute = root.isAbsolute := by
  obtain ⟨rest, htext, hnul⟩ := exists_text_pathBelow hroot.nonempty hnames hne
  have hroot' := hroot.nonempty
  rw [← Bool.not_eq_true, String.isEmpty_iff] at hroot'
  constructor
  · constructor
    case nul =>
      have hfront := hroot.nul
      rw [List.contains_eq_mem, decide_eq_false_iff_not] at hfront ⊢
      rw [htext, String.toList_append, List.mem_append, not_or]
      exact ⟨hfront, hnul⟩
    case nonempty =>
      rw [htext, ← Bool.not_eq_true, String.isEmpty_iff, String.append_eq_empty_iff, not_and_or]
      exact .inl hroot'
    case short => exact hshort
  · obtain ⟨first, more, hcons⟩ := List.exists_cons_of_ne_nil fun hnil =>
      hroot' (String.toList_eq_nil_iff.mp hnil)
    rw [Path.isAbsolute, Path.isAbsolute, htext, String.toList_append, hcons]
    rfl

/-- The path of a directory that is reached through directories leads there, unless it
is too long. -/
theorem find_pathBelow (htree : fs.IsTree) (hroot : fs.find root = .ok (place, .directory))
    (hbelow : Below fs place names .directory)
    (hshort : (pathBelow root names).text.utf8ByteSize < longestPath) :
    fs.find (pathBelow root names) = .ok (place ++ names, .directory) := by
  obtain ⟨husable, hwalk⟩ := locate_eq_ok_iff.mp (find_eq_ok_iff.mp hroot)
  have hnames := htree.isName_of_below hbelow
  have hne := hbelow.ne_nil
  obtain ⟨husable', habsolute⟩ := isUsable_pathBelow husable hnames hne hshort
  obtain ⟨front, slashes, hslashes, hsegments, hpath⟩ :=
    segments_pathBelow husable.nonempty hnames hne
  rw [hsegments] at hwalk
  -- the walk to the root goes on through the directories below it
  obtain ⟨left, hleft⟩ := walk_append hslashes hwalk
  have hbehind := htree.walk_of_below hbelow left []
  rw [List.append_nil] at hbehind
  rw [find_eq_ok_iff, locate_eq_ok_iff, habsolute]
  refine ⟨husable', ?_⟩
  rw [hpath, hleft, hbehind, walk]

/-! ## What a search looks for -/

/-- An entry below a root is a file, or a link that leads to one. -/
inductive IsStream (fs : FileSystem) (root : Path) (names : Place) : Node → Prop
  | file (content : Bytes) : IsStream fs root names (.file content)
  | link {target : String} {place : Place} {content : Bytes}
      (hleads : fs.find (pathBelow root names) = .ok (place, .file content)) :
      IsStream fs root names (.link target)

theorem hasFile_iff {p : Path} :
    fs.hasFile p = true ↔ ∃ place content, fs.find p = .ok (place, .file content) := by
  rw [hasFile]
  constructor
  · intro h
    split at h
    · rename_i place content hfind
      exact ⟨place, content, hfind⟩
    · cases h
  · rintro ⟨place, content, hfind⟩
    rw [hfind]

theorem isStream_iff {node : Node} :
    isStream fs root names node = true ↔ IsStream fs root names node := by
  cases node with
  | file content => exact ⟨fun _ => .file content, fun _ => rfl⟩
  | directory =>
      constructor
      · intro h
        cases h
      · intro h
        cases h
  | link target =>
      rw [isStream, hasFile_iff]
      constructor
      · rintro ⟨place, content, hfind⟩
        exact .link hfind
      · intro h
        cases h with
        | link hleads => exact ⟨_, _, hleads⟩

theorem intercalate_slash (names : Place) : "/".intercalate names = join '/' names := by
  have hchars (parts : List (List Char)) : ['/'].intercalate parts = joinChars '/' parts := by
    fun_induction joinChars '/' parts with
    | case1 => rfl
    | case2 part => exact List.intercalate_singleton
    | case3 part next parts ih =>
        rw [List.intercalate_cons_cons, ih, List.append_assoc, List.singleton_append]
  rw [← String.toList_inj, String.toList_intercalate, join]
  exact (hchars (names.map String.toList)).trans String.toList_ofList.symm

theorem isMatched_iff {tokens : Option (List Glob.Token)} : isMatched tokens names = true ↔
    ∀ pattern ∈ tokens, Glob.Matches pattern (join '/' names).toList := by
  cases tokens with
  | none => simp [isMatched]
  | some pattern => simp [isMatched, Glob.matchesPath, Glob.matchesChars_iff, intercalate_slash]

theorem contains_slash_iff {pattern : String} :
    contains pattern "/" = true ↔ '/' ∈ pattern.toList := by
  rw [contains, occursIn_iff]
  show ['/'] <:+: pattern.toList ↔ _
  constructor
  · intro h
    exact h.subset List.mem_cons_self
  · intro h
    obtain ⟨front, rest, hsplit⟩ := List.append_of_mem h
    exact ⟨front, rest, by rw [hsplit, List.append_assoc, List.singleton_append]⟩

/-- A search goes beyond the first level if it is to, or if its pattern has a slash. -/
theorem goesDeep_iff {pattern : Option String} {recursive : Bool} :
    goesDeep pattern recursive = true ↔
    recursive = true ∨ ∃ p ∈ pattern, '/' ∈ p.toList := by
  rw [goesDeep, Bool.or_eq_true]
  cases pattern with
  | none => simp
  | some p => simp [contains_slash_iff]

/-- The entries that a search is about: the files and links to files that can be reached without
passing a link, on the levels that it goes to, whose names match the pattern. -/
structure Wanted (fs : FileSystem) (root : Path) (place : Place) (pattern : Option String)
    (tokens : Option (List Glob.Token)) (recursive : Bool) (names : Place) : Prop where
  stream : ∃ node, Below fs place names node ∧ IsStream fs root names node
  level : names.length = 1 ∨ recursive = true ∨ ∃ p ∈ pattern, '/' ∈ p.toList
  suits : ∀ tokens' ∈ tokens, Glob.Matches tokens' (join '/' names).toList

/-! ## What a search finds -/

variable {pattern : Option String} {tokens : Option (List Glob.Token)} {recursive deep : Bool}

theorem isFound_iff {node : Node} : isFound fs root tokens deep (names, node) = true ↔
    (deep = true ∨ names.length = 1) ∧ IsStream fs root names node ∧
      ∀ tokens' ∈ tokens, Glob.Matches tokens' (join '/' names).toList := by
  rw [isFound, Bool.and_eq_true, Bool.and_eq_true, Bool.or_eq_true, beq_iff_eq, isStream_iff,
    isMatched_iff, and_assoc]

/-- The names found are those of the entries that are wanted. -/
theorem mem_namesBelow_iff (htree : fs.IsTree) :
    names ∈ namesBelow fs root place tokens (goesDeep pattern recursive) ↔
      Wanted fs root place pattern tokens recursive names := by
  rw [namesBelow, List.mem_mergeSort, List.mem_map]
  constructor
  · rintro ⟨⟨names, node⟩, hmem, rfl⟩
    obtain ⟨hbelow, hfound⟩ := List.mem_filter.mp hmem
    rw [htree.mem_below_iff] at hbelow
    obtain ⟨hlevel, hstream, hsuits⟩ := isFound_iff.mp hfound
    rw [goesDeep_iff] at hlevel
    exact ⟨⟨node, hbelow, hstream⟩, hlevel.symm, hsuits⟩
  · rintro ⟨⟨node, hbelow, hstream⟩, hlevel, hsuits⟩
    refine ⟨(names, node), List.mem_filter.mpr ⟨htree.mem_below_iff.mpr hbelow, ?_⟩, rfl⟩
    rw [isFound_iff, goesDeep_iff]
    exact ⟨hlevel.symm, hstream, hsuits⟩

/-- The names found are different from each other and in ascending order. -/
theorem pairwise_namesBelow (htree : fs.IsTree) :
    (namesBelow fs root place tokens deep).Pairwise (· < ·) := by
  apply pairwise_lt_mergeSort
  exact (htree.nodup_below place).sublist (List.filter_sublist.map Prod.fst)

/-- No directory keeps a search from going on when each of them can be opened. -/
theorem unopened?_eq_none (htree : fs.IsTree)
    (hreadable : ∀ names, Below fs place names .directory →
      ∃ entry, fs.find (pathBelow root names) = .ok entry) : unopened? fs root place = none := by
  rw [unopened?, List.findSome?_eq_none_iff]
  rintro ⟨names, node⟩ hmem
  rw [htree.mem_below_iff] at hmem
  cases node with
  | directory =>
      obtain ⟨entry, hentry⟩ := hreadable names hmem
      simp only [hentry]
  | file content => rfl
  | link target => rfl

/-- The paths found are different from each other. -/
theorem nodup_map_pathBelow (htree : fs.IsTree) (hroot : root.text.isEmpty = false)
    {found : List Place} (hdistinct : found.Nodup)
    (hbelow : ∀ names ∈ found, ∃ node, Below fs place names node) :
    (found.map (pathBelow root)).Nodup := by
  apply List.Nodup.map_on _ hdistinct
  intro names hnames names' hnames' heq
  obtain ⟨node, hnode⟩ := hbelow names hnames
  obtain ⟨node', hnode'⟩ := hbelow names' hnames'
  exact pathBelow_injective hroot (htree.isName_of_below hnode)
    (htree.isName_of_below hnode') hnode.ne_nil
    hnode'.ne_nil heq

/-- A search of a readable tree lists each entry that is wanted, once, in the order of the names. -/
theorem search_lists_wanted (htree : fs.IsTree) (hroot : fs.find root = .ok (place, .directory))
    (hpattern : readPattern pattern = .ok tokens)
    (hreadable : ∀ names, Below fs place names .directory →
      ∃ entry, fs.find (pathBelow root names) = .ok entry) :
    ∃ found : List Place, search fs root pattern recursive false =
      .ok (found.map (pathBelow root)) ∧
      (found.map (pathBelow root)).Nodup ∧ found.Pairwise (· < ·) ∧
      ∀ names, names ∈ found ↔ Wanted fs root place pattern tokens recursive names := by
  refine ⟨namesBelow fs root place tokens (goesDeep pattern recursive), ?_, ?_,
    pairwise_namesBelow htree, fun names => mem_namesBelow_iff htree⟩
  · simp only [search, hpattern, hroot, unopened?_eq_none htree hreadable, ite_self,
      Bool.false_eq_true, if_false]
  · have husable := (locate_eq_ok_iff.mp (find_eq_ok_iff.mp hroot)).1
    apply nodup_map_pathBelow htree husable.nonempty
    · apply (pairwise_namesBelow htree).imp
      rintro names _ hlt rfl
      exact List.lt_irrefl names hlt
    · intro names hnames
      obtain ⟨node, hbelow, -⟩ := ((mem_namesBelow_iff htree).mp hnames).stream
      exact ⟨node, hbelow⟩

/-- A directory with two files on two levels, and links to a file, to nothing, to
themselves and back. -/
def linkedTree : FileSystem where
  entries :=
    [(["d"], .directory), (["d", "a.csv"], .file []), (["d", "link.csv"], .link "a.csv"),
      (["d", "none.csv"], .link "none"), (["d", "loop.csv"], .link "loop.csv"),
      (["d", "back.csv"], .link "."), (["d", "sub"], .directory), (["d", "sub", "b.csv"], .file []),
      (["d", "sub", "c.txt"], .file [])]
  here := []

theorem search_lists_wanted_linkedTree : ∃ found : List Place,
    search linkedTree ⟨"d"⟩ (some "*.csv") true false = .ok (found.map (pathBelow ⟨"d"⟩)) ∧
      (found.map (pathBelow ⟨"d"⟩)).Nodup ∧ found.Pairwise (· < ·) ∧
      ∀ names, names ∈ found ↔ Wanted linkedTree ⟨"d"⟩ ["d"] (some "*.csv")
        (some [.anySequence, .literal '.', .literal 'c', .literal 's', .literal 'v']) true
          names := by
  have htree : linkedTree.IsTree := by decide
  have hroot : linkedTree.find ⟨"d"⟩ = .ok (["d"], .directory) := by
    rw [find_eq_ok_iff, locate_eq_ok_iff]
    refine ⟨⟨by decide, by decide, by decide⟩, ?_⟩
    show linkedTree.walk true linkBudget [] ["d"] = _
    rw [walk_cons_of_directory (by decide) rfl, walk]
    rfl
  apply search_lists_wanted htree hroot (by rfl)
  intro names hbelow
  have hshort : ∀ entry ∈ linkedTree.below ["d"],
      (pathBelow ⟨"d"⟩ entry.1).text.utf8ByteSize < longestPath := by decide
  exact ⟨_, find_pathBelow htree hroot hbelow (hshort _ (htree.mem_below_iff.mpr hbelow))⟩

end Haulage.Discovery
