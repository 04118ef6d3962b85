/-!
# Maps in key order

A map from texts that lists its entries in ascending order of their keys, each key once.
-/

set_option autoImplicit false

namespace Haulage

/-- A map whose entries stand in ascending key order. -/
structure SortedMap (α : Type) where
  toList : List (String × α)
  ascending : toList.Pairwise (fun a b => a.1 < b.1)

namespace SortedMap

variable {α : Type}

/-- Binds a key in a list of entries in key order. -/
def insertEntry (key : String) (value : α) : List (String × α) → List (String × α)
  | [] => [(key, value)]
  | (k, v) :: rest =>
    if key = k then (key, value) :: rest
    else if key < k then (key, value) :: (k, v) :: rest
    else (k, v) :: insertEntry key value rest

theorem fst_mem_of_mem_insertEntry {key : String} {value : α} {entries : List (String × α)}
    {e : String × α} (h : e ∈ insertEntry key value entries) : e.1 = key ∨ e ∈ entries := by
  induction entries with
  | nil => simp_all [insertEntry]
  | cons m rest ih =>
    obtain ⟨k, v⟩ := m
    unfold insertEntry at h
    split at h
    · rcases List.mem_cons.mp h with rfl | h
      · exact .inl rfl
      · exact .inr (List.mem_cons_of_mem _ h)
    · split at h
      · rcases List.mem_cons.mp h with rfl | h
        · exact .inl rfl
        · exact .inr h
      · rcases List.mem_cons.mp h with rfl | h
        · exact .inr List.mem_cons_self
        · rcases ih h with h | h
          · exact .inl h
          · exact .inr (List.mem_cons_of_mem _ h)

/-- Binding a key keeps the key order. -/
theorem ascending_insertEntry (key : String) (value : α) {entries : List (String × α)}
    (h : entries.Pairwise (fun a b => a.1 < b.1)) :
    (insertEntry key value entries).Pairwise (fun a b => a.1 < b.1) := by
  induction entries with
  | nil => simp [insertEntry]
  | cons m rest ih =>
    obtain ⟨k, v⟩ := m
    rw [List.pairwise_cons] at h
    obtain ⟨hk, hrest⟩ := h
    unfold insertEntry
    split
    · rename_i heq
      subst heq
      exact List.pairwise_cons.mpr ⟨hk, hrest⟩
    · rename_i hne
      split
      · rename_i hlt
        refine List.pairwise_cons.mpr ⟨fun e he => ?_, List.pairwise_cons.mpr ⟨hk, hrest⟩⟩
        rcases List.mem_cons.mp he with rfl | he
        · exact hlt
        · exact String.lt_trans hlt (hk e he)
      · rename_i hnlt
        refine List.pairwise_cons.mpr ⟨fun e he => ?_, ih hrest⟩
        rcases fst_mem_of_mem_insertEntry he with h | h
        · have hle : k ≤ key := String.not_lt.mp hnlt
          rw [h]
          exact Classical.byContradiction fun hn =>
            hne (String.le_antisymm (String.not_lt.mp hn) hle)
        · exact hk e h

/-- The map without entries. -/
def empty : SortedMap α :=
  ⟨[], List.Pairwise.nil⟩

instance : Inhabited (SortedMap α) :=
  ⟨empty⟩

/-- Binds a key, in place of an earlier binding. -/
def insert (m : SortedMap α) (key : String) (value : α) : SortedMap α :=
  ⟨insertEntry key value m.toList, ascending_insertEntry key value m.ascending⟩

/-- Removes a key. -/
def erase (m : SortedMap α) (key : String) : SortedMap α :=
  ⟨m.toList.filter (fun e => e.1 != key), m.ascending.filter _⟩

/-- The value of a key. -/
def get? (m : SortedMap α) (key : String) : Option α :=
  (m.toList.find? (fun e => e.1 == key)).map Prod.snd

/-- Whether a key is bound. -/
def contains (m : SortedMap α) (key : String) : Bool :=
  m.toList.any (fun e => e.1 == key)

theorem find?_insertEntry (key : String) (value : α) (entries : List (String × α))
    (other : String) :
    ((insertEntry key value entries).find? (fun e => e.1 == other)).map Prod.snd =
      if key = other then some value
      else (entries.find? (fun e => e.1 == other)).map Prod.snd := by
  induction entries with
  | nil => by_cases h : key = other <;> simp [insertEntry, h]
  | cons e rest ih =>
    obtain ⟨k, v⟩ := e
    unfold insertEntry
    by_cases hk : key = k
    · subst hk
      by_cases h : key = other <;> simp [h]
    · rw [if_neg hk]
      by_cases hlt : key < k
      · rw [if_pos hlt]
        by_cases h : key = other <;> simp [h]
      · rw [if_neg hlt]
        by_cases h : k = other
        · subst h
          simp [hk]
        · simpa [h] using ih

/-- A bound key has its value, and every other key keeps the one it had. -/
theorem get?_insert (m : SortedMap α) (key : String) (value : α) (other : String) :
    (m.insert key value).get? other = if key = other then some value else m.get? other :=
  find?_insertEntry key value m.toList other

theorem find?_filter_ne (key other : String) (entries : List (String × α)) :
    ((entries.filter (fun e => e.1 != key)).find? (fun e => e.1 == other)).map Prod.snd =
      if key = other then none
      else (entries.find? (fun e => e.1 == other)).map Prod.snd := by
  induction entries with
  | nil => simp
  | cons e rest ih =>
    obtain ⟨k, v⟩ := e
    by_cases hk : k = key
    · subst hk
      by_cases ho : k = other
      · simp [ho]
      · simpa [ho] using ih
    · by_cases ho : k = other
      · subst ho
        have hne : key ≠ k := fun h => hk h.symm
        simp [hk, hne]
      · simpa [hk, ho] using ih

/-- A removed key has no value, and every other key keeps the one it had. -/
theorem get?_erase (m : SortedMap α) (key other : String) :
    (m.erase key).get? other = if key = other then none else m.get? other :=
  find?_filter_ne key other m.toList

/-- A key is bound when it has a value. -/
theorem contains_eq_isSome (m : SortedMap α) (key : String) :
    m.contains key = (m.get? key).isSome := by
  rw [contains, get?, Option.isSome_map, List.isSome_find?]

/-- Binds the entries of a list one after the other. -/
def ofList (entries : List (String × α)) : SortedMap α :=
  entries.foldl (fun m e => m.insert e.1 e.2) empty

/-! ## Maps from their entries -/

/-- Maps with the same entries are equal. -/
theorem eq_of_toList_eq {m m' : SortedMap α} (h : m.toList = m'.toList) : m = m' := by
  cases m
  cases m'
  cases h
  rfl

theorem find?_eq_of_mem {key : String} {value : α} {entries : List (String × α)}
    (h : entries.Pairwise fun a b => a.1 < b.1) (hmem : (key, value) ∈ entries) :
    (entries.find? fun e => e.1 == key).map Prod.snd = some value := by
  induction entries with
  | nil => cases hmem
  | cons e rest ih =>
    obtain ⟨hbehind, hrest⟩ := List.pairwise_cons.mp h
    rcases List.mem_cons.mp hmem with rfl | hmem
    · simp
    · have hne : ¬e.1 = key := fun heq =>
        String.lt_irrefl key (heq ▸ hbehind (key, value) hmem)
      rw [List.find?_cons_of_neg (by simpa using hne)]
      exact ih hrest hmem

/-- The value of a key is that of its entry. -/
theorem get?_eq_some_of_mem {m : SortedMap α} {key : String} {value : α}
    (h : (key, value) ∈ m.toList) : m.get? key = some value :=
  find?_eq_of_mem m.ascending h

/-- A key behind all others is bound at the end. -/
theorem insertEntry_of_forall_lt {key : String} (value : α) {entries : List (String × α)}
    (h : ∀ e ∈ entries, e.1 < key) : insertEntry key value entries = entries ++ [(key, value)] := by
  induction entries with
  | nil => rfl
  | cons e rest ih =>
    obtain ⟨k, v⟩ := e
    have hk : k < key := h (k, v) List.mem_cons_self
    have hne : key ≠ k := fun heq => String.lt_irrefl k (heq ▸ hk)
    have hnlt : ¬key < k := fun hlt => String.lt_irrefl k (String.lt_trans hk hlt)
    rw [insertEntry, if_neg hne, if_neg hnlt, ih fun e he => h e (List.mem_cons_of_mem _ he)]
    rfl

/-- Entries in key order behind those of a map are added at its end. -/
theorem toList_foldl_insert (m : SortedMap α) (entries : List (String × α))
    (h : (m.toList ++ entries).Pairwise fun a b => a.1 < b.1) :
    (entries.foldl (fun m e => m.insert e.1 e.2) m).toList = m.toList ++ entries := by
  induction entries generalizing m with
  | nil => simp
  | cons e rest ih =>
    have hbehind : ∀ a ∈ m.toList, a.1 < e.1 := fun a ha =>
      (List.pairwise_append.mp h).2.2 a ha e List.mem_cons_self
    have hinsert : (m.insert e.1 e.2).toList = m.toList ++ [e] :=
      insertEntry_of_forall_lt e.2 hbehind
    have hrest : ((m.insert e.1 e.2).toList ++ rest).Pairwise fun a b => a.1 < b.1 := by
      rw [hinsert, List.append_assoc]
      exact h
    rw [List.foldl_cons, ih _ hrest, hinsert, List.append_assoc]
    rfl

/-- A map is made up of its entries. -/
theorem ofList_toList (m : SortedMap α) : ofList m.toList = m :=
  eq_of_toList_eq (toList_foldl_insert empty m.toList m.ascending)

end SortedMap

end Haulage
