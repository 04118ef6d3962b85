import Haulage.Connections.Registry
import Haulage.Proofs.Text.Words
import Mathlib.Data.List.Nodup
import Mathlib.Data.List.Perm.Basic

/-!
# What property arguments bind

An argument binds the text before its first equal sign, trimmed and in lower case, to the trimmed
text behind it. It is refused when it has no equal sign, or nothing but blanks before the first one.
A list of arguments is refused for the first of them that is, and otherwise each key has the value
of the last argument that binds it. Keys and values are then in a form that no further reading
changes, so what was read can be written as arguments again, in any order.

- `readOne_eq_ok_iff`, `readOne_eq_error_iff`: what one argument is read as.
- `readFrom_eq_error_iff`, `get?_readFrom_iff`: the first refusal, and the last value of each key.
- `binds_argumentOf_iff`: what the argument for a key and a value in normal form binds.
- `SortedMap.eq_of_get?_eq`: a map is known by the values of its keys.
- `read_collects`: what a list of arguments is read as.
-/

set_option autoImplicit false

namespace Haulage

open Haulage.Text

/-! ## Maps by their values -/

namespace SortedMap

variable {α : Type} {m m' : SortedMap α} {key : String} {value : α}

theorem mem_toList_iff : (key, value) ∈ m.toList ↔ m.get? key = some value := by
  constructor
  · exact get?_eq_some_of_mem
  · intro h
    obtain ⟨⟨k, v⟩, hfind, rfl⟩ := Option.map_eq_some_iff.mp h
    obtain rfl : k = key := by simpa using List.find?_some hfind
    exact List.mem_of_find?_eq_some hfind

theorem nodup_keys (m : SortedMap α) : (m.toList.map Prod.fst).Nodup := by
  rw [List.nodup_iff_pairwise_ne, List.pairwise_map]
  refine m.ascending.imp ?_
  intro a b hlt heq
  exact String.lt_irrefl a.1 (heq ▸ hlt)

/-- A map is known by the values of its keys. -/
theorem eq_of_get?_eq (h : ∀ key, m.get? key = m'.get? key) : m = m' := by
  have hperm : m.toList.Perm m'.toList := by
    rw [List.perm_ext_iff_of_nodup m.nodup_keys.of_map m'.nodup_keys.of_map]
    rintro ⟨key, value⟩
    rw [mem_toList_iff, mem_toList_iff, h]
  refine eq_of_toList_eq (hperm.eq_of_pairwise ?_ m.ascending m'.ascending)
  intro a b _ _ hab hba
  exact absurd hba (String.lt_asymm hab)

end SortedMap

namespace Properties

variable {argument key value : String} {arguments more : List String} {soFar props : Properties}
  {f : Failure}

/-! ## One argument -/

/-- An argument binds a key to a value: they stand around its first equal sign, with blanks around
them, and the key in letters of either case. -/
def Binds (argument key value : String) : Prop :=
  ∃ left right, argument.toList = left.toList ++ '=' :: right.toList ∧ '=' ∉ left.toList ∧
    isBlankText left = false ∧ key = lowerAscii (trim left) ∧ value = trim right

/-- Why an argument is refused: it has no equal sign, or only blanks before the first one. -/
inductive Refused (argument : String) : Cause → Prop
  | noEquals (h : '=' ∉ argument.toList) : Refused argument (.noEquals argument)
  | emptyKey {left right : String} (h : argument.toList = left.toList ++ '=' :: right.toList)
      (hfree : '=' ∉ left.toList) (hblank : ∀ c ∈ left.toList, isBlank c = true) :
      Refused argument (.emptyKey argument)

theorem readOne_eq_ok_iff : readOne argument = .ok (key, value) ↔ Binds argument key value := by
  rw [readOne]
  constructor
  · intro h
    split at h
    · cases h
    · rename_i left right hsplit
      obtain ⟨heq, hfree⟩ := splitFirst?_eq_some_iff.mp hsplit
      split at h
      · cases h
      · rename_i hblank
        obtain ⟨rfl, rfl⟩ := Prod.mk.inj (Except.ok.inj h)
        exact ⟨left, right, heq, hfree, Bool.not_eq_true _ ▸ hblank, rfl, rfl⟩
  · rintro ⟨left, right, heq, hfree, hblank, rfl, rfl⟩
    simp only [splitFirst?_eq_some_iff.mpr ⟨heq, hfree⟩, hblank, Bool.false_eq_true, if_false]

theorem readOne_eq_error_iff :
    readOne argument = .error f ↔ ∃ cause, Refused argument cause ∧ f = .of cause := by
  rw [readOne]
  constructor
  · intro h
    split at h
    · rename_i hsplit
      rw [← Except.error.inj h]
      exact ⟨_, .noEquals (splitFirst?_eq_none_iff.mp hsplit), rfl⟩
    · rename_i left right hsplit
      obtain ⟨heq, hfree⟩ := splitFirst?_eq_some_iff.mp hsplit
      split at h
      · rename_i hblank
        rw [← Except.error.inj h]
        exact ⟨_, .emptyKey heq hfree (List.all_eq_true.mp hblank), rfl⟩
      · cases h
  · rintro ⟨cause, hrefused, rfl⟩
    cases hrefused with
    | noEquals h =>
        rw [splitFirst?_eq_none_iff.mpr h]
        rfl
    | emptyKey heq hfree hblank =>
        rw [splitFirst?_eq_some_iff.mpr ⟨heq, hfree⟩]
        exact if_pos (List.all_eq_true.mpr hblank)

/-- An argument that is not refused binds a key. -/
theorem not_refused_iff :
    (∀ cause, ¬ Refused argument cause) ↔ ∃ key value, Binds argument key value := by
  cases hread : readOne argument with
  | error f =>
      obtain ⟨cause, hrefused, -⟩ := readOne_eq_error_iff.mp hread
      constructor
      · intro h
        exact absurd hrefused (h cause)
      · rintro ⟨key, value, hbinds⟩
        rw [← readOne_eq_ok_iff, hread] at hbinds
        cases hbinds
  | ok entry =>
      constructor
      · intro _
        exact ⟨entry.1, entry.2, readOne_eq_ok_iff.mp hread⟩
      · intro _ cause hrefused
        have herror := readOne_eq_error_iff.mpr ⟨cause, hrefused, rfl⟩
        rw [hread] at herror
        cases herror

/-- An argument binds one key to one value. -/
theorem Binds.eq_iff {key' value' : String} (h : Binds argument key value) :
    Binds argument key' value' ↔ key = key' ∧ value = value' := by
  constructor
  · intro h'
    rw [← readOne_eq_ok_iff] at h h'
    rw [h] at h'
    exact Prod.mk.inj (Except.ok.inj h')
  · rintro ⟨rfl, rfl⟩
    exact h

/-! ## Normal form -/

/-- A key as it is stored. -/
structure IsNormalKey (key : String) : Prop where
  nonempty : key ≠ ""
  trimmed : IsTrimmed key.toList
  noEquals : '=' ∉ key.toList
  folded : ∀ c ∈ key.toList, c.isUpper = false

/-- An entry as it is stored. -/
def IsNormal (entry : String × String) : Prop :=
  IsNormalKey entry.1 ∧ IsTrimmed entry.2.toList

theorem toLower_eq_equals_iff {c : Char} : c.toLower = '=' ↔ c = '=' := by
  rcases toLower_cases c with ⟨-, heq⟩ | ⟨hlo, -, heq⟩
  · rw [heq]
  · have hcode : '='.toNat = 61 := rfl
    constructor
    · intro h
      rw [h, hcode] at heq
      omega
    · intro h
      rw [h, hcode] at hlo
      omega

theorem isNormalKey_lowerAscii {left : String} (hfree : '=' ∉ left.toList)
    (hblank : isBlankText left = false) : IsNormalKey (lowerAscii (trim left)) := by
  have hchars : (lowerAscii (trim left)).toList = (trimChars left.toList).map Char.toLower := by
    rw [lowerAscii, String.toList_ofList, toList_trim]
  constructor
  case nonempty =>
    -- only a blank text is trimmed to nothing
    rw [ne_eq, ← String.toList_eq_nil_iff, hchars, List.map_eq_nil_iff, trimChars_eq_nil_iff,
      ← List.all_eq_true, ← isBlankText, hblank]
    exact Bool.false_ne_true
  case trimmed =>
    rw [hchars]
    exact (isTrimmed_trimChars left.toList).map_toLower
  case noEquals =>
    rw [hchars, List.mem_map]
    rintro ⟨c, hc, hlower⟩
    rw [toLower_eq_equals_iff] at hlower
    rw [← toList_trim] at hc
    exact not_mem_trim hfree (hlower ▸ hc)
  case folded =>
    intro c hc
    rw [hchars, List.mem_map] at hc
    obtain ⟨b, -, rfl⟩ := hc
    exact isUpper_toLower b

/-- What an argument binds is in normal form. -/
theorem Binds.isNormal (h : Binds argument key value) : IsNormal (key, value) := by
  obtain ⟨left, right, -, hfree, hblank, rfl, rfl⟩ := h
  refine ⟨isNormalKey_lowerAscii hfree hblank, ?_⟩
  rw [toList_trim]
  exact isTrimmed_trimChars right.toList

theorem trim_of_isTrimmed {s : String} (h : IsTrimmed s.toList) : trim s = s := by
  rw [trim, trimChars_of_isTrimmed h, String.ofList_toList]

theorem IsNormalKey.isBlankText_eq (h : IsNormalKey key) : isBlankText key = false := by
  rw [isBlankText, ← Bool.not_eq_true, List.all_eq_true, ← trimChars_eq_nil_iff,
    trimChars_of_isTrimmed h.trimmed, String.toList_eq_nil_iff]
  exact h.nonempty

theorem IsNormalKey.lowerAscii_eq (h : IsNormalKey key) : lowerAscii key = key := by
  have hmap : key.toList.map Char.toLower = key.toList := by
    rw [List.map_congr_left fun c hc => toLower_of_isUpper_eq_false (h.folded c hc), List.map_id']
  rw [lowerAscii, hmap, String.ofList_toList]

/-- The argument for a key and a value. -/
def argumentOf (entry : String × String) : String :=
  entry.1 ++ "=" ++ entry.2

/-- The argument for an entry in normal form binds just that. -/
theorem binds_argumentOf_iff {entry : String × String} (h : IsNormal entry) :
    Binds (argumentOf entry) key value ↔ entry = (key, value) := by
  have hbinds : Binds (argumentOf entry) entry.1 entry.2 := by
    refine ⟨entry.1, entry.2, ?_, h.1.noEquals, h.1.isBlankText_eq, ?_, ?_⟩
    · rw [argumentOf, String.toList_append, String.toList_append, List.append_assoc]
      rfl
    · rw [trim_of_isTrimmed h.1.trimmed, h.1.lowerAscii_eq]
    · rw [trim_of_isTrimmed h.2]
  rw [hbinds.eq_iff, Prod.ext_iff]

/-! ## Lists of arguments -/

/-- The failure of a list of arguments: that of the first one that is refused. -/
def FirstRefused (arguments : List String) (f : Failure) : Prop :=
  ∃ before argument after cause, arguments = before ++ argument :: after ∧
    (∀ a ∈ before, ∀ cause, ¬ Refused a cause) ∧ Refused argument cause ∧ f = .of cause

/-- The value of a key in a list of arguments: that of the last one that binds it. -/
def LastBinds (arguments : List String) (key value : String) : Prop :=
  ∃ before argument after, arguments = before ++ argument :: after ∧ Binds argument key value ∧
    ∀ a ∈ after, ∀ value, ¬ Binds a key value

theorem firstRefused_cons_iff :
    FirstRefused (argument :: more) f ↔ (∃ cause, Refused argument cause ∧ f = .of cause) ∨
      (∀ cause, ¬ Refused argument cause) ∧ FirstRefused more f := by
  constructor
  · rintro ⟨before, a, after, cause, heq, hbefore, hrefused, hf⟩
    rcases List.cons_eq_append_iff.mp heq with ⟨rfl, hcons⟩ | ⟨before, rfl, rfl⟩
    · obtain ⟨rfl, -⟩ := List.cons.inj hcons
      exact .inl ⟨cause, hrefused, hf⟩
    · rw [List.forall_mem_cons] at hbefore
      exact .inr ⟨hbefore.1, before, a, after, cause, rfl, hbefore.2, hrefused, hf⟩
  · rintro (⟨cause, hrefused, hf⟩ | ⟨hfirst, before, a, after, cause, rfl, hbefore, hrefused, hf⟩)
    · exact ⟨[], argument, more, cause, rfl, fun a ha => absurd ha List.not_mem_nil, hrefused, hf⟩
    · exact ⟨argument :: before, a, after, cause, rfl, List.forall_mem_cons.mpr ⟨hfirst, hbefore⟩,
        hrefused, hf⟩

theorem lastBinds_cons_iff :
    LastBinds (argument :: more) key value ↔ LastBinds more key value ∨
      Binds argument key value ∧ ∀ a ∈ more, ∀ value, ¬ Binds a key value := by
  constructor
  · rintro ⟨before, a, after, heq, hbinds, hafter⟩
    rcases List.cons_eq_append_iff.mp heq with ⟨rfl, hcons⟩ | ⟨before, rfl, rfl⟩
    · obtain ⟨rfl, rfl⟩ := List.cons.inj hcons
      exact .inr ⟨hbinds, hafter⟩
    · exact .inl ⟨before, a, after, rfl, hbinds, hafter⟩
  · rintro (⟨before, a, after, rfl, hbinds, hafter⟩ | ⟨hbinds, hafter⟩)
    · exact ⟨argument :: before, a, after, rfl, hbinds, hafter⟩
    · exact ⟨[], argument, more, rfl, hbinds, hafter⟩

theorem not_lastBinds_nil : ¬ LastBinds [] key value := by
  rintro ⟨before, a, after, heq, -⟩
  exact absurd heq.symm (List.append_ne_nil_of_right_ne_nil before (List.cons_ne_nil a after))

theorem not_firstRefused_nil : ¬ FirstRefused [] f := by
  rintro ⟨before, a, after, cause, heq, -⟩
  exact absurd heq.symm (List.append_ne_nil_of_right_ne_nil before (List.cons_ne_nil a after))

/-- A list of arguments fails with its first refusal, whatever has been bound before. -/
theorem readFrom_eq_error_iff : readFrom soFar arguments = .error f ↔ FirstRefused arguments f := by
  -- what was bound before is carried along and never makes a refusal
  induction arguments generalizing soFar with
  | nil =>
      rw [readFrom]
      constructor
      · intro h
        cases h
      · exact fun h => absurd h not_firstRefused_nil
  | cons argument more ih =>
      rw [readFrom, firstRefused_cons_iff, ← readOne_eq_error_iff, not_refused_iff]
      cases hread : readOne argument with
      | error f' =>
          constructor
          · intro h
            obtain rfl : f' = f := Except.error.inj h
            exact .inl rfl
          · rintro (h | ⟨⟨key, value, hbinds⟩, -⟩)
            · obtain rfl : f' = f := Except.error.inj h
              rfl
            · rw [← readOne_eq_ok_iff, hread] at hbinds
              cases hbinds
      | ok entry =>
          have hbinds : ∃ key value, Binds argument key value :=
            ⟨entry.1, entry.2, readOne_eq_ok_iff.mp hread⟩
          rw [ih]
          constructor
          · intro h
            exact .inr ⟨hbinds, h⟩
          · rintro (h | ⟨-, h⟩)
            · cases h
            · exact h

theorem exists_firstRefused_iff :
    (∃ f, FirstRefused arguments f) ↔ ∃ a ∈ arguments, ∃ cause, Refused a cause := by
  induction arguments with
  | nil => simp [not_firstRefused_nil]
  | cons argument more ih =>
      simp only [firstRefused_cons_iff, List.exists_mem_cons_iff, ← ih]
      constructor
      · rintro ⟨f, ⟨cause, hrefused, -⟩ | ⟨-, hmore⟩⟩
        · exact .inl ⟨cause, hrefused⟩
        · exact .inr ⟨f, hmore⟩
      · rintro (⟨cause, hrefused⟩ | ⟨f, hmore⟩)
        · exact ⟨_, .inl ⟨cause, hrefused, rfl⟩⟩
        · by_cases hfirst : ∃ cause, Refused argument cause
          · obtain ⟨cause, hrefused⟩ := hfirst
            exact ⟨_, .inl ⟨cause, hrefused, rfl⟩⟩
          · exact ⟨f, .inr ⟨not_exists.mp hfirst, hmore⟩⟩

/-- A list of arguments of which none is refused is read. -/
theorem exists_readFrom (h : ∀ a ∈ arguments, ∀ cause, ¬ Refused a cause) (soFar : Properties) :
    ∃ props, readFrom soFar arguments = .ok props := by
  cases hread : readFrom soFar arguments with
  | ok props => exact ⟨props, rfl⟩
  | error f =>
      obtain ⟨a, ha, cause, hrefused⟩ :=
        exists_firstRefused_iff.mp ⟨f, readFrom_eq_error_iff.mp hread⟩
      exact absurd hrefused (h a ha cause)

/-- A key has the value of the last argument that binds it, else the one it had before. -/
theorem get?_readFrom_iff (h : readFrom soFar arguments = .ok props) :
    props.get? key = some value ↔ LastBinds arguments key value ∨
      soFar.get? key = some value ∧ ∀ a ∈ arguments, ∀ value, ¬ Binds a key value := by
  induction arguments generalizing soFar with
  | nil =>
      obtain rfl := Except.ok.inj h
      simp [not_lastBinds_nil]
  | cons argument more ih =>
      rw [readFrom] at h
      split at h
      · cases h
      · rename_i k v hread
        have hbinds : Binds argument k v := readOne_eq_ok_iff.mp hread
        rw [ih h, lastBinds_cons_iff, SortedMap.get?_insert, hbinds.eq_iff, List.forall_mem_cons]
        by_cases hk : k = key
        · subst hk
          have hnot : ¬ ∀ value, ¬ Binds argument k value := fun hnone => hnone v hbinds
          simp [hnot]
        · have hnone : ∀ value, ¬ Binds argument key value := fun value hother =>
            hk (hbinds.eq_iff.mp hother).1
          simp [hk, hnone]

/-! ## Read again -/

/-- The arguments for entries in normal form, each key once, bind these entries. -/
theorem lastBinds_map_argumentOf_iff {entries : List (String × String)}
    (hnormal : ∀ e ∈ entries, IsNormal e) (hkeys : (entries.map Prod.fst).Nodup) :
    LastBinds (entries.map argumentOf) key value ↔ (key, value) ∈ entries := by
  induction entries with
  | nil => simp [not_lastBinds_nil]
  | cons entry more ih =>
      rw [List.forall_mem_cons] at hnormal
      obtain ⟨hkey, hmore⟩ := List.nodup_cons.mp hkeys
      rw [List.map_cons, lastBinds_cons_iff, ih hnormal.2 hmore, binds_argumentOf_iff hnormal.1,
        List.mem_cons, eq_comm (a := (key, value)), or_comm]
      refine or_congr_left (and_iff_left_of_imp ?_)
      -- no later entry has the key of the first one
      rintro rfl a ha v hbinds
      obtain ⟨e, he, rfl⟩ := List.mem_map.mp ha
      rw [binds_argumentOf_iff (hnormal.2 e he)] at hbinds
      exact hkey (List.mem_map.mpr ⟨e, he, by rw [hbinds]⟩)

/-- What a list of arguments is read as. -/
structure Collects (arguments : List String) (props : Properties) : Prop where
  /-- Each key has the value of the last argument that binds it, and no other key has a value. -/
  bound : ∀ key value, props.get? key = some value ↔ LastBinds arguments key value
  normal : ∀ entry ∈ props.toList, IsNormal entry
  /-- Its entries are read as the same properties when they are written as arguments in any
  order. -/
  reread : ∀ entries : List (String × String), entries.Perm props.toList →
    read (entries.map argumentOf) = .ok props

theorem collects_of_read (h : read arguments = .ok props) : Collects arguments props := by
  have hbound : ∀ key value, props.get? key = some value ↔ LastBinds arguments key value := by
    intro key value
    rw [get?_readFrom_iff h]
    exact or_iff_left fun hbefore => absurd hbefore.1 (Option.some_ne_none value).symm
  have hnormal : ∀ entry ∈ props.toList, IsNormal entry := by
    rintro ⟨key, value⟩ hentry
    rw [SortedMap.mem_toList_iff, hbound] at hentry
    obtain ⟨before, a, after, -, hbinds, -⟩ := hentry
    exact hbinds.isNormal
  refine ⟨hbound, hnormal, ?_⟩
  intro entries hperm
  have hentries : ∀ e ∈ entries, IsNormal e := fun e he => hnormal e (hperm.subset he)
  have hkeys : (entries.map Prod.fst).Nodup := (hperm.map Prod.fst).nodup_iff.mpr props.nodup_keys
  have haccepted : ∀ a ∈ entries.map argumentOf, ∀ cause, ¬ Refused a cause := by
    intro a ha
    obtain ⟨e, he, rfl⟩ := List.mem_map.mp ha
    exact not_refused_iff.mpr ⟨e.1, e.2, (binds_argumentOf_iff (hentries e he)).mpr rfl⟩
  obtain ⟨props', hread⟩ := exists_readFrom haccepted .empty
  have hsame : props' = props := by
    apply SortedMap.eq_of_get?_eq
    intro key
    refine Option.ext fun value => ?_
    rw [get?_readFrom_iff hread, lastBinds_map_argumentOf_iff hentries hkeys, hperm.mem_iff,
      SortedMap.mem_toList_iff]
    exact or_iff_left fun hbefore => absurd hbefore.1 (Option.some_ne_none value).symm
  rw [← hsame]
  exact hread

/-- A list of arguments fails exactly when one of them is refused, with the failure of the first one
that is. Otherwise each key has the value of the last argument that binds it, keys and values are in
normal form, and written as arguments in any order they are read as the same properties. -/
theorem read_collects (arguments : List String) :
    (∀ f, read arguments = .error f ↔ FirstRefused arguments f) ∧
      ((∃ f, read arguments = .error f) ↔ ∃ a ∈ arguments, ∃ cause, Refused a cause) ∧
      ∀ props, read arguments = .ok props → Collects arguments props := by
  have hfails : ∀ f, read arguments = .error f ↔ FirstRefused arguments f := fun f =>
    readFrom_eq_error_iff
  refine ⟨hfails, ?_, fun props => collects_of_read⟩
  rw [← exists_firstRefused_iff]
  exact exists_congr hfails

/-- Arguments of which the third binds the key of the first again, with blanks of several kinds. -/
def crossedArguments : List String :=
  [" URL = postgres://db", "Path==/a=b\u3000", "\u00a0url\t=sqlite:x ", "Öl=", "ÖL = x"]

theorem crossedArguments_collected :
    ∃ props, read crossedArguments = .ok props ∧ Collects crossedArguments props ∧
      props.toList = [("path", "=/a=b"), ("url", "sqlite:x"), ("Öl", "x")] := by
  have hlist : (read crossedArguments).toOption.map SortedMap.toList =
      some [("path", "=/a=b"), ("url", "sqlite:x"), ("Öl", "x")] := by
    decide +kernel
  obtain ⟨props, hprops, htoList⟩ := Option.map_eq_some_iff.mp hlist
  cases hread : read crossedArguments with
  | error f =>
      rw [hread] at hprops
      cases hprops
  | ok found =>
      rw [hread] at hprops
      obtain rfl : found = props := Option.some.inj hprops
      exact ⟨found, rfl, (read_collects crossedArguments).2.2 found hread, htoList⟩

end Properties

end Haulage
