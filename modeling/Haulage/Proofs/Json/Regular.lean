import Haulage.Json.Reader
import Haulage.Proofs.Json.Members
import Haulage.Proofs.Json.Numbers

/-!
# What a reader gives

A value that was read is more than any value: its integers fit in 64 bits, its real numbers are
doubles, each of its objects has each key once, and it nests no deeper than the reader allows.

- `Value.Readable`, `Value.IsRegular`: such values, with their nesting and without.
- `isRegular_of_readNumber`: the numbers among them.
- `readable_of_read`: a value that was read is one of them.
- `length_le_of_read`: how many members an object has that was read.
-/

set_option autoImplicit false

namespace Haulage.Json

open Haulage.Numeric Haulage.Numeric.Binary64

/-! ## Numbers -/

section Numbers

variable {cur next : Cursor} {n : Number} {negative : Bool} {significand : Nat}

theorem fst_absorbDigits_le (h : significand ≤ largestWord) (digits : List Char) :
    (absorbDigits significand digits).1 ≤ largestWord := by
  induction digits generalizing significand with
  | nil => exact h
  | cons c more ih =>
      rw [absorbDigits]
      split
      · rename_i hnext
        exact ih hnext
      · exact h

theorem isDouble_of_word (h : significand ≤ largestWord) :
    IsDouble (roundedUnits (significand * unitsPerOne) 1) := by
  have hrounded := roundedUnits_le (significand * unitsPerOne) 1
  have hword := Nat.mul_le_mul_right unitsPerOne h
  have hroom := largestWord_room
  have hpos := largestWord_units_pos
  refine ⟨?_, spacing_dvd_roundedUnits _ _⟩
  rw [Nat.div_one] at hrounded
  generalize largestWord * unitsPerOne = largest at *
  omega

theorem isRegular_integerNumber (h : significand ≤ largestWord) (negative : Bool) :
    (integerNumber negative significand).IsRegular := by
  rw [integerNumber]
  split
  · exact ⟨by omega, by exact_mod_cast h⟩
  · split
    · exact isDouble_of_word h
    · rename_i hsmall
      rw [not_or, not_lt] at hsmall
      exact ⟨by omega, by omega⟩

theorem isRegular_of_realNumber {exponent : Int}
    (h : realNumber negative significand exponent cur = .ok (n, next)) : n.IsRegular := by
  rw [realNumber] at h
  split at h
  · cases h
  · rename_i units hunits
    obtain ⟨rfl, -⟩ := Prod.mk.inj (Except.ok.inj h)
    exact isDouble_of_scaleUnits? hunits

theorem isRegular_of_readExponent {start : Int}
    (h : readExponent negative significand start cur = .ok (n, next)) : n.IsRegular := by
  rw [readExponent] at h
  split at h
  rename_i minus cur' hsign
  split at h
  · cases h
  · split at h
    · dsimp only at h
      split at h
      · split at h
        · cases h
        · obtain ⟨rfl, -⟩ := Prod.mk.inj (Except.ok.inj h)
          exact isDouble_zero
      · exact isRegular_of_realNumber h
    · cases h

theorem isRegular_of_readFraction {start : Int}
    (h : readFraction negative significand start cur = .ok (n, next)) : n.IsRegular := by
  rw [readFraction] at h
  dsimp only at h
  split at h
  · cases h
  · split at h
    · split at h
      · exact isRegular_of_readExponent h
      · exact isRegular_of_realNumber h
    · exact isRegular_of_realNumber h

/-- A number that was read is an integer of 64 bits or a double. -/
theorem isRegular_of_readNumber (h : readNumber negative cur = .ok (n, next)) : n.IsRegular := by
  rw [readNumber] at h
  split at h
  · cases h
  · rename_i c rest hrest
    split at h
    · dsimp only at h
      generalize (if c = '0' then ([c], cur.advance c rest) else takeDigits cur) = taken at h
      have hword := fst_absorbDigits_le (Nat.zero_le largestWord) taken.1
      have hfinish : ∀ after, (if (absorbDigits 0 taken.1).2.isEmpty = true then
          .ok (integerNumber negative (absorbDigits 0 taken.1).1, after)
          else realNumber negative (absorbDigits 0 taken.1).1
            (absorbDigits 0 taken.1).2.length after) =
            Except.ok (ε := Flaw) (n, next) → n.IsRegular := by
        intro after hread
        split at hread
        · obtain ⟨rfl, -⟩ := Prod.mk.inj (Except.ok.inj hread)
          exact isRegular_integerNumber hword negative
        · exact isRegular_of_realNumber hread
      split at h
      · exact hfinish _ h
      · split at h
        · cases h
        · split at h
          · exact isRegular_of_readFraction h
          · split at h
            · exact isRegular_of_readExponent h
            · exact hfinish _ h
    · cases h

end Numbers

/-! ## Values -/

namespace Value

/-- A value as it can come out of a reader that allows some nesting. -/
inductive Readable : Nat → Value → Prop
  | null (allowed : Nat) : Readable allowed .null
  | bool (allowed : Nat) (b : Bool) : Readable allowed (.bool b)
  | number (allowed : Nat) {n : Number} (h : n.IsRegular) : Readable allowed (.number n)
  | string (allowed : Nat) (s : String) : Readable allowed (.string s)
  | array {allowed : Nat} {items : List Value} (h : ∀ v ∈ items, Readable allowed v) :
      Readable (allowed + 1) (.array items)
  | object {allowed : Nat} {members : Members} (distinct : members.Distinct)
      (h : ∀ m ∈ members, Readable allowed m.2) : Readable (allowed + 1) (.object members)

/-- A value as it can come out of a reader, but for its nesting. -/
inductive IsRegular : Value → Prop
  | null : IsRegular .null
  | bool (b : Bool) : IsRegular (.bool b)
  | number {n : Number} (h : n.IsRegular) : IsRegular (.number n)
  | string (s : String) : IsRegular (.string s)
  | array {items : List Value} (h : ∀ v ∈ items, IsRegular v) : IsRegular (.array items)
  | object {members : Members} (distinct : members.Distinct) (h : ∀ m ∈ members, IsRegular m.2) :
      IsRegular (.object members)

theorem Readable.isRegular {allowed : Nat} {v : Value} (h : Readable allowed v) : v.IsRegular := by
  induction h with
  | null => exact .null
  | bool allowed b => exact .bool b
  | number allowed h => exact .number h
  | string allowed s => exact .string s
  | array h ih => exact .array ih
  | object distinct h ih => exact .object distinct ih

end Value

theorem Members.distinct_nil : Members.Distinct [] := List.nodup_nil

theorem Members.mem_set {members : Members} {key : String} {value : Value} {m : String × Value}
    (h : m ∈ members.set key value) : m = (key, value) ∨ m ∈ members := by
  induction members with
  | nil => exact .inl (List.mem_singleton.mp h)
  | cons first rest ih =>
      obtain ⟨k, v⟩ := first
      rw [set] at h
      split at h
      · rcases List.mem_cons.mp h with h | h
        · exact .inl h
        · exact .inr (List.mem_cons_of_mem _ h)
      · rcases List.mem_cons.mp h with h | h
        · exact .inr (h ▸ List.mem_cons_self)
        · rcases ih h with h | h
          · exact .inl h
          · exact .inr (List.mem_cons_of_mem _ h)

theorem exists_of_map_eq_ok {α β : Type} {x : Except Flaw α} {f : α → β} {b : β}
    (h : x.map f = .ok b) :
    ∃ a, x = .ok a ∧ f a = b := by
  cases x with
  | error e => cases h
  | ok a => exact ⟨a, rfl, Except.ok.inj h⟩

/-- Every step of a reader leads from readable values to readable values. -/
theorem readable_of_steps (fuel : Nat) :
    (∀ allowed cur v next, readValue fuel allowed cur = .ok (v, next) → v.Readable allowed) ∧
    (∀ allowed soFar cur v next, (∀ w ∈ soFar, Value.Readable allowed w) →
      readItems fuel allowed soFar cur = .ok (v, next) → v.Readable (allowed + 1)) ∧
    (∀ allowed first soFar cur v next, (Value.object soFar).Readable (allowed + 1) →
      readMembers fuel allowed first soFar cur = .ok (v, next) → v.Readable (allowed + 1)) := by
  -- each reader calls the others with less fuel, so one induction carries all three
  induction fuel with
  | zero =>
      refine ⟨?_, ?_, ?_⟩
      · intro allowed cur v next h
        rw [readValue] at h
        cases h
      · intro allowed soFar cur v next _ h
        rw [readItems] at h
        cases h
      · intro allowed first soFar cur v next _ h
        rw [readMembers] at h
        cases h
  | succ fuel ih =>
      obtain ⟨hvalue, hitems, hmembers⟩ := ih
      refine ⟨?_, ?_, ?_⟩
      · intro allowed cur v next h
        rw [readValue] at h
        split at h
        · cases h
        · split_ifs at h
          · obtain ⟨_, -, heq⟩ := exists_of_map_eq_ok h
            exact (Prod.mk.inj heq).1 ▸ .null _
          · obtain ⟨_, -, heq⟩ := exists_of_map_eq_ok h
            exact (Prod.mk.inj heq).1 ▸ .bool _ true
          · obtain ⟨_, -, heq⟩ := exists_of_map_eq_ok h
            exact (Prod.mk.inj heq).1 ▸ .bool _ false
          · obtain ⟨_, hread, heq⟩ := exists_of_map_eq_ok h
            exact (Prod.mk.inj heq).1 ▸ .number _ (isRegular_of_readNumber hread)
          · obtain ⟨_, hread, heq⟩ := exists_of_map_eq_ok h
            exact (Prod.mk.inj heq).1 ▸ .number _ (isRegular_of_readNumber hread)
          · obtain ⟨r, -, heq⟩ := exists_of_map_eq_ok h
            exact (Prod.mk.inj heq).1 ▸ .string _ r.1
          · split at h
            · cases h
            · exact hitems _ _ _ _ _ (fun w hw => absurd hw List.not_mem_nil) h
          · split at h
            · cases h
            · refine hmembers _ _ _ _ _ _ (.object Members.distinct_nil ?_) h
              exact fun m hm => absurd hm List.not_mem_nil
          · cases h
      · intro allowed soFar cur v next hsoFar h
        rw [readItems] at h
        split at h
        · cases h
        · obtain ⟨rfl, -⟩ := Prod.mk.inj (Except.ok.inj h)
          exact .array fun w hw => hsoFar w (List.mem_reverse.mp hw)
        · split at h
          · cases h
          · rename_i w after hread
            refine hitems _ _ _ _ _ ?_ h
            intro u hu
            rcases List.mem_cons.mp hu with rfl | hu
            · exact hvalue _ _ _ _ hread
            · exact hsoFar u hu
      · intro allowed first soFar cur v next hsoFar h
        rw [readMembers] at h
        split at h
        · cases h
        · obtain ⟨rfl, -⟩ := Prod.mk.inj (Except.ok.inj h)
          exact hsoFar
        · split at h
          · cases h
          · split at h
            · cases h
            · split at h
              · cases h
              · rename_i w after hread
                refine hmembers _ _ _ _ _ _ ?_ h
                cases hsoFar with
                | object hdistinct hregular =>
                    refine .object (hdistinct.set _ _) ?_
                    intro m hm
                    rcases Members.mem_set hm with rfl | hm
                    · exact hvalue _ _ _ _ hread
                    · exact hregular m hm

/-- A value that was read is readable. -/
theorem readable_of_read {s : String} {v : Value} (h : read s = .ok v) : v.Readable deepest := by
  rw [read] at h
  split at h
  · cases h
  · rename_i w cur hread
    obtain ⟨_, -, rfl⟩ := exists_of_map_eq_ok h
    exact (readable_of_steps _).1 _ _ _ _ hread

/-! ## Numbers of members -/

theorem Members.length_set_le (members : Members) (key : String) (value : Value) :
    (members.set key value).length ≤ members.length + 1 := by
  have hkeys := congrArg List.length (keys_set members key value)
  rw [keys, List.length_map] at hkeys
  rw [hkeys]
  split
  · rw [keys, List.length_map]
    exact Nat.le_succ _
  · rw [List.length_append, keys, List.length_map, List.length_singleton]

/-- Each step of a reader adds one member at most. -/
theorem length_lt_of_readMembers {fuel allowed : Nat} {first : Bool} {soFar members : Members}
    {cur next : Cursor}
    (h : readMembers fuel allowed first soFar cur = .ok (.object members, next)) :
    members.length < soFar.length + fuel := by
  induction fuel generalizing first soFar cur with
  | zero =>
      rw [readMembers] at h
      cases h
  | succ fuel ih =>
      rw [readMembers] at h
      split at h
      · cases h
      · obtain ⟨hsoFar, -⟩ := Prod.mk.inj (Except.ok.inj h)
        rw [← Value.object.inj hsoFar]
        omega
      · split at h
        · cases h
        · split at h
          · cases h
          · split at h
            · cases h
            · rename_i key _ _ _ _ _ _ v _ _
              have hmore := ih h
              have hset := Members.length_set_le soFar key v
              omega

theorem readItems_ne_object {fuel allowed : Nat} {soFar : List Value} {members : Members}
    {cur next : Cursor} : readItems fuel allowed soFar cur ≠ .ok (.object members, next) := by
  induction fuel generalizing soFar cur with
  | zero =>
      rw [readItems]
      exact nofun
  | succ fuel ih =>
      rw [readItems]
      split
      · exact nofun
      · exact nofun
      · split
        · exact nofun
        · exact ih

/-- An object that is read has at most as many members as there are steps to read it in. -/
theorem length_lt_of_readValue {fuel allowed : Nat} {members : Members} {cur next : Cursor}
    (h : readValue (fuel + 1) allowed cur = .ok (.object members, next)) :
    members.length < fuel := by
  rw [readValue] at h
  split at h
  · cases h
  · split_ifs at h
    -- a word, a number or a string is read as no object
    iterate 6
      · obtain ⟨_, -, heq⟩ := exists_of_map_eq_ok h
        cases heq
    · split at h
      · cases h
      · exact absurd h readItems_ne_object
    · split at h
      · cases h
      · have hlength := length_lt_of_readMembers h
        rwa [List.length_nil, Nat.zero_add] at hlength
    · cases h

/-- An object that is read from a text has at most two members for each character. -/
theorem length_le_of_read {s : String} {members : Members} (h : read s = .ok (.object members)) :
    members.length ≤ 2 * s.length := by
  rw [read] at h
  split at h
  · cases h
  · rename_i v cur hread
    obtain ⟨_, -, rfl⟩ := exists_of_map_eq_ok h
    have hlength := length_lt_of_readValue hread
    rw [Cursor.start] at hlength
    dsimp only at hlength
    rw [String.length_toList] at hlength
    omega

end Haulage.Json
