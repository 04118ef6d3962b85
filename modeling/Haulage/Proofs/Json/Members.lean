import Haulage.Json.Value
import Mathlib.Data.List.Basic
import Mathlib.Data.List.Nodup
import Mathlib.Data.List.Perm.Basic

/-!
# Objects as maps

An object stands for a map when it has each key once. Binding a key, binding all members of another
object and removing a key keep that, and each says what it does to the value of any key. Only the
order of the members is touched by more: the last one takes the place of a removed one.

- `Distinct`: each key stands once.
- `get?_eq_some_iff`, `get?_of_perm`: then the order of the members does not count.
- `get?_update`: of two objects the later one wins, key by key.
- `get?_eraseSwap`: a removed key is bound no more, and no other key is touched.
-/

set_option autoImplicit false

namespace Haulage.Json.Members

variable {members members' extra : Members} {key other : String} {value : Value}

/-- An object that has each key once. -/
def Distinct (members : Members) : Prop :=
  (keys members).Nodup

theorem keys_cons (k : String) (v : Value) (rest : Members) :
    keys ((k, v) :: rest) = k :: keys rest := rfl

theorem mem_keys_iff : key ∈ keys members ↔ (get? members key).isSome = true := by
  induction members with
  | nil => simp [keys]
  | cons m rest ih =>
      obtain ⟨k, v⟩ := m
      rw [keys_cons, List.mem_cons, get?_cons, ih]
      by_cases hk : k = key
      · simp [hk]
      · have hne : ¬key = k := fun e => hk e.symm
        simp [hk, hne]

theorem get?_eq_none_of_not_mem (h : key ∉ keys members) : get? members key = none := by
  rw [mem_keys_iff, Bool.not_eq_true, Option.isSome_eq_false_iff, Option.isNone_iff_eq_none] at h
  exact h

/-! ## The order of members -/

/-- When each key stands once, its value is that of its member. -/
theorem get?_eq_some_iff (h : Distinct members) :
    get? members key = some value ↔ (key, value) ∈ members := by
  induction members with
  | nil => simp
  | cons m rest ih =>
      obtain ⟨k, v⟩ := m
      obtain ⟨hk, hrest⟩ := List.nodup_cons.mp h
      rw [get?_cons, List.mem_cons, Prod.mk.injEq]
      split
      · rename_i heq
        subst heq
        constructor
        · intro hv
          exact .inl ⟨rfl, (Option.some.inj hv).symm⟩
        · rintro (⟨-, rfl⟩ | hmem)
          · rfl
          · exact absurd (List.mem_map_of_mem hmem) hk
      · rename_i hne
        rw [ih hrest]
        constructor
        · exact .inr
        · rintro (⟨heq, -⟩ | hmem)
          · exact absurd heq.symm hne
          · exact hmem

theorem Distinct.of_perm (h : Distinct members) (hperm : members.Perm members') :
    Distinct members' :=
  (hperm.map Prod.fst).nodup_iff.mp h

/-- The order of the members does not count. -/
theorem get?_of_perm (h : Distinct members) (hperm : members.Perm members') (key : String) :
    get? members' key = get? members key := by
  refine Option.ext fun value => ?_
  rw [get?_eq_some_iff h, get?_eq_some_iff (h.of_perm hperm), hperm.mem_iff]

/-! ## Binding keys -/

theorem Distinct.set (h : Distinct members) (key : String) (value : Value) :
    Distinct (members.set key value) := by
  rw [Distinct, keys_set]
  split
  · exact h
  · rename_i hkey
    refine List.nodup_append.mpr ⟨h, List.nodup_singleton key, ?_⟩
    intro k hk k' hk'
    rw [List.mem_singleton.mp hk']
    rintro rfl
    exact hkey hk

theorem Distinct.update (h : Distinct members) (extra : Members) :
    Distinct (members.update extra) := by
  induction extra generalizing members with
  | nil => exact h
  | cons m rest ih => exact ih (h.set m.1 m.2)

/-- Of two objects the later one wins, key by key. -/
theorem get?_update (hextra : Distinct extra) (members : Members) (key : String) :
    get? (members.update extra) key = (get? extra key).or (get? members key) := by
  induction extra generalizing members with
  | nil => rfl
  | cons m rest ih =>
      obtain ⟨k, v⟩ := m
      obtain ⟨hk, hrest⟩ := List.nodup_cons.mp hextra
      have hupdate : members.update ((k, v) :: rest) = (members.set k v).update rest := rfl
      rw [hupdate, ih hrest, get?_set, get?_cons]
      split
      · -- no later member has the key of the first one
        rename_i heq
        subst heq
        rw [get?_eq_none_of_not_mem hk]
        rfl
      · rfl

/-! ## Removing a key -/

/-- The last member takes the place of one that is removed. -/
theorem perm_set_dropLast {i : Nat} {last : String × Value} (hlast : members.getLast? = some last)
    (hi : i + 1 < members.length) :
    (members.dropLast.set i last).Perm (members.eraseIdx i) := by
  obtain ⟨front, rfl⟩ := List.getLast?_eq_some_iff.mp hlast
  have hfront : i < front.length := by
    rw [List.length_append, List.length_singleton] at hi
    omega
  rw [List.dropLast_concat, List.eraseIdx_append_of_lt_length hfront]
  exact (List.set_perm_cons_eraseIdx hfront last).trans (List.perm_append_singleton last _).symm

/-- Removing a key removes its first member, in some order of the others. -/
theorem perm_eraseSwap (members : Members) (key : String) :
    (members.eraseSwap key).Perm (members.eraseP fun m => m.1 == key) := by
  rw [eraseSwap, List.eraseP_eq_eraseIdx]
  split
  · rename_i hnone
    rw [hnone]
  · rename_i i hi
    rw [hi]
    have hlt : i < members.length := (List.findIdx?_eq_some_iff_getElem.mp hi).1
    split
    · rename_i hnone
      rw [List.getLast?_eq_none_iff] at hnone
      rw [hnone] at hlt
      exact absurd hlt (Nat.not_lt_zero i)
    · rename_i last hlast
      split
      · rename_i hend
        rw [List.dropLast_eq_eraseIdx hend]
      · rename_i hend
        exact perm_set_dropLast hlast (by omega)

theorem Distinct.eraseP (h : Distinct members) (key : String) :
    Distinct (members.eraseP fun m => m.1 == key) :=
  List.Nodup.sublist (List.eraseP_sublist.map Prod.fst) h

theorem get?_eraseP (h : Distinct members) (key other : String) :
    get? (members.eraseP fun m => m.1 == key) other =
      if key = other then none else get? members other := by
  induction members with
  | nil => simp
  | cons m rest ih =>
      obtain ⟨k, v⟩ := m
      obtain ⟨hk, hrest⟩ := List.nodup_cons.mp h
      by_cases hkey : k = key
      · subst hkey
        rw [List.eraseP_cons_of_pos (by simp), get?_cons]
        split
        · rename_i heq
          subst heq
          exact get?_eq_none_of_not_mem hk
        · rfl
      · rw [List.eraseP_cons_of_neg (by simpa using hkey), get?_cons, get?_cons, ih hrest]
        by_cases hother : k = other
        · subst hother
          have hne : ¬key = k := fun e => hkey e.symm
          simp [hne]
        · simp [hother]

theorem Distinct.eraseSwap (h : Distinct members) (key : String) :
    Distinct (members.eraseSwap key) :=
  (h.eraseP key).of_perm (perm_eraseSwap members key).symm

/-- A removed key is bound no more, and no other key is touched. -/
theorem get?_eraseSwap (h : Distinct members) (key other : String) :
    get? (members.eraseSwap key) other = if key = other then none else get? members other := by
  rw [get?_of_perm (h.eraseP key) (perm_eraseSwap members key).symm, get?_eraseP h]

end Haulage.Json.Members
